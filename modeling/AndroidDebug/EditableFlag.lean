import AndroidDebug.DatabaseHelper
import AndroidDebug.TableQuoting

/-! Whether getTableData lets a table be edited. The name goes in brackets into a PRAGMA, and with
its brackets into a lookup among the names of sqlite_master. -/
namespace EditableFlag

open JavaText SqlTokens TableQuoting TableNameParser
open DatabaseHelper (TableInfo)

inductive EntryType where
  | table | index | view | trigger
  deriving DecidableEq, Repr

/-- An entry of sqlite_master, with what PRAGMA table_info gives for a table or a view; SQLite
reports an error instead for a view over a table that is gone. -/
structure Entry where
  type : EntryType
  name : JString
  columns : Option (List (List (String × DatabaseHelper.Value)))

/-- In the order of sqlite_master. -/
abbrev Schema := List Entry

/-- SQLite's names are the same up to the case of ASCII letters. -/
def fold (s : JString) : JString :=
  s.map fun u => if 0x41 ≤ u.toNat ∧ u.toNat ≤ 0x5A then u + 0x20 else u

def locate (schema : Schema) (name : JString) : Option Entry :=
  schema.find? fun e => (e.type = .table ∨ e.type = .view) ∧ fold e.name = fold name

section Pragma

def isBlank (u : UInt16) : Bool := u = 0x20 ∨ u = 0x09 ∨ u = 0x0A ∨ u = 0x0C ∨ u = 0x0D

def isSignificant (tok : Token) : Bool :=
  match tok.text with
  | [u] => !isBlank u
  | u :: v :: _ => !(decide (u = minus ∧ v = minus) || decide (u = slash ∧ v = asterisk))
  | [] => true

/-- The tokens that SQLite's parser gets: a text ends at its first NUL. -/
def significant (text : JString) : List JString :=
  ((tokens (text.takeWhile (· ≠ 0))).filter isSignificant).map Token.text

/-- The name in brackets that a PRAGMA table_info asks for, if the statement compiles; what comes
after its semicolon is not looked at. -/
def pragmaArgument (text : JString) : Option JString :=
  match significant text with
  | pragma :: tableInfo :: opening :: argument :: closing :: rest =>
    if pragma = ofString "PRAGMA" ∧ tableInfo = ofString "table_info" ∧
        opening = ofString "(" ∧ argument.head? = some openingBracket ∧
        argument.getLast? = some closingBracket ∧ closing = ofString ")" ∧
        (rest = [] ∨ rest.head? = some (ofString ";")) then
      some argument.tail.dropLast
    else none
  | _ => none

def pragmaText : JString := ofString "PRAGMA table_info("

def pragmaQuery (tableName : JString) : JString :=
  pragmaText ++ getQuotedTableName tableName ++ ofString ")"

def getTableInfo (schema : Schema) (pragmaQuery : JString) : Option (List TableInfo) :=
  match pragmaArgument pragmaQuery with
  | none => none
  | some name =>
    match locate schema name with
    | none => some []
    | some e => e.columns.map DatabaseHelper.getTableInfo

end Pragma

/-- The type of the first entry of exactly this name. -/
def isView (schema : Schema) (name : JString) : Bool :=
  match schema.find? fun e => e.name = name with
  | some e => e.type = .view
  | none => false

structure TableDataResponse where
  tableInfos : Option (List TableInfo)
  isEditable : Bool
  deriving DecidableEq, Repr

/-- `none` is an exception of getTableName. -/
def getTableData (rt : Runtime) (schema : Schema) (selectQuery : JString)
    (tableName : Option JString) : Option TableDataResponse := do
  let tableName ← match tableName with
    | some tableName => some (some tableName)
    | none => getTableName rt selectQuery
  match tableName with
  | none => return ⟨none, false⟩
  | some tableName =>
    let tableInfos := getTableInfo schema (pragmaQuery tableName)
    return ⟨tableInfos, tableInfos.isSome && !isView schema (getQuotedTableName tableName)⟩

def Known (rt : Runtime) (selectQuery : JString) (tableName : Option JString) (n : JString) :
    Prop :=
  tableName = some n ∨ tableName = none ∧ getTableName rt selectQuery = some (some n)

def IsTable (schema : Schema) (n : JString) : Prop :=
  ∃ e ∈ schema, e.type = .table ∧ fold e.name = fold n

def FlagRight (rt : Runtime) (schema : Schema) (selectQuery : JString) (tableName : Option JString)
    (n : JString) : Prop :=
  ∃ r, getTableData rt schema selectQuery tableName = some r ∧
    (r.isEditable = true ↔ IsTable schema n)

/-- The closing parenthesis comes next, and then a semicolon or nothing. -/
def Closes (s : JString) : Prop :=
  ∃ rest, significant s = ofString ")" :: rest ∧ (rest = [] ∨ rest.head? = some (ofString ";"))

def readName (n : JString) : JString := (n ++ [closingBracket, 0x29]).takeWhile (· ≠ 0)

/-- Up to its first closing bracket the name is one whose columns SQLite can tell, and the rest
ends the statement. -/
def Readable (schema : Schema) (n : JString) : Prop :=
  ∃ a b, readName n = a ++ closingBracket :: b ∧ closingBracket ∉ a ∧ Closes b ∧
    ∀ e, locate schema a = some e → e.columns ≠ none

def BracketedView (schema : Schema) (n : JString) : Prop :=
  ∃ before e after, schema = before ++ e :: after ∧ e.type = .view ∧
    e.name = getQuotedTableName n ∧ ∀ e ∈ before, e.name ≠ getQuotedTableName n

/-! The tokens of the PRAGMA. -/

variable {rt : Runtime} {schema : Schema} {selectQuery n : JString} {tableName : Option JString}

theorem tokens_pragmaText (t : JString) : tokens (pragmaText ++ openingBracket :: t) =
    ⟨.word, ofString "PRAGMA"⟩ :: ⟨.other, ofString " "⟩ :: ⟨.word, ofString "table_info"⟩ ::
      ⟨.other, ofString "("⟩ :: tokens (openingBracket :: t) := by
  have htext : pragmaText ++ openingBracket :: t =
      0x50 :: (ofString "RAGMA" ++ 0x20 :: 0x74 :: (ofString "able_info" ++ 0x28 ::
        openingBracket :: t)) := rfl
  have hpragma : ∀ rest, firstToken 0x50 (ofString "RAGMA" ++ 0x20 :: rest) =
      (.word, ofString "RAGMA") := fun _ => rfl
  have hinfo : ∀ rest, firstToken 0x74 (ofString "able_info" ++ 0x28 :: rest) =
      (.word, ofString "able_info") := fun _ => rfl
  have hblank : ∀ rest, firstToken 0x20 rest = (.other, []) := fun _ => rfl
  have hparen : ∀ rest, firstToken 0x28 rest = (.other, []) := fun _ => rfl
  rw [htext, tokens_cons, hpragma, List.drop_left, tokens_cons, hblank, List.length_nil,
    List.drop_zero, tokens_cons, hinfo, List.drop_left, tokens_cons, hparen, List.length_nil,
    List.drop_zero]
  rfl

theorem significant_query (n : JString) : significant (pragmaQuery n) =
    ofString "PRAGMA" :: ofString "table_info" :: ofString "(" ::
      ((tokens (openingBracket :: readName n)).filter isSignificant).map Token.text := by
  have htext : pragmaQuery n =
      pragmaText ++ openingBracket :: (n ++ [closingBracket, 0x29]) := by
    have hparen : ofString ")" = [0x29] := rfl
    simp [pragmaQuery, getQuotedTableName, hparen]
  have hread : (pragmaQuery n).takeWhile (· ≠ 0) = pragmaText ++ openingBracket :: readName n := by
    rw [htext]
    rfl
  rw [significant, hread, tokens_pragmaText]
  rfl

theorem firstToken_bracket (t : JString) :
    firstToken openingBracket t = (.other, upTo closingBracket t) := rfl

theorem isSignificant_bracket (k : Kind) (s : JString) :
    isSignificant ⟨k, openingBracket :: s⟩ = true := by
  cases s <;> rfl

theorem pragmaArgument_open (h : closingBracket ∉ readName n) :
    pragmaArgument (pragmaQuery n) = none := by
  have htokens : tokens (openingBracket :: readName n) =
      [⟨.other, openingBracket :: readName n⟩] := by
    rw [tokens_cons, firstToken_bracket, upTo_of_notMem h, List.drop_length]
    rfl
  rw [pragmaArgument, significant_query, htokens,
    List.filter_cons_of_pos (isSignificant_bracket _ _)]
  rfl

theorem pragmaArgument_closed {a b x : JString} (ht : readName n = a ++ closingBracket :: b)
    (ha : closingBracket ∉ a) :
    pragmaArgument (pragmaQuery n) = some x ↔ Closes b ∧ x = a := by
  have hb : b.takeWhile (· ≠ 0) = b := by
    rw [List.takeWhile_eq_self_iff]
    intro u hu
    have hmem : u ∈ readName n := by
      rw [ht]
      simp [hu]
    exact List.mem_takeWhile_imp (p := fun u => decide (u ≠ 0)) hmem
  have hafter : (a ++ closingBracket :: b).drop (a ++ [closingBracket]).length = b := by
    rw [show a ++ closingBracket :: b = (a ++ [closingBracket]) ++ b by simp, List.drop_left]
  have hargument : significant (pragmaQuery n) = ofString "PRAGMA" :: ofString "table_info" ::
      ofString "(" :: (openingBracket :: (a ++ [closingBracket])) :: significant b := by
    rw [significant_query, ht, tokens_cons, firstToken_bracket, upTo_append ha, hafter,
      List.filter_cons_of_pos (isSignificant_bracket _ _), significant, hb]
    rfl
  have hlast : (openingBracket :: (a ++ [closingBracket])).getLast? = some closingBracket := by
    rw [← List.cons_append, List.getLast?_concat]
  have hname : (openingBracket :: (a ++ [closingBracket])).tail.dropLast = a := by simp
  rw [pragmaArgument, hargument, Closes]
  cases hrest : significant b with
  | nil => simp
  | cons closing rest =>
    simp only [hlast, hname, List.head?_cons, true_and, List.cons.injEq]
    constructor
    · intro h
      split at h
      · rename_i hclose
        exact ⟨⟨rest, ⟨hclose.1, rfl⟩, hclose.2⟩, (Option.some.inj h).symm⟩
      · cases h
    · rintro ⟨⟨rest', ⟨rfl, rfl⟩, hend⟩, rfl⟩
      exact if_pos ⟨rfl, hend⟩

theorem closedName_unique {a a' b b' : JString} (ha : closingBracket ∉ a)
    (ha' : closingBracket ∉ a') (h : a ++ closingBracket :: b = a' ++ closingBracket :: b') :
    a = a' ∧ b = b' := by
  have hupTo : a ++ [closingBracket] = a' ++ [closingBracket] := by
    rw [← upTo_append ha b, ← upTo_append ha' b', h]
  have hname : a = a' := List.append_cancel_right hupTo
  subst hname
  exact ⟨rfl, (List.cons.inj (List.append_cancel_left h)).2⟩

theorem getTableInfo_isSome_iff :
    (getTableInfo schema (pragmaQuery n)).isSome = true ↔ Readable schema n := by
  have hnames : (getTableInfo schema (pragmaQuery n)).isSome = true ↔
      ∃ a, pragmaArgument (pragmaQuery n) = some a ∧
        ∀ e, locate schema a = some e → e.columns ≠ none := by
    rw [getTableInfo]
    cases hargument : pragmaArgument (pragmaQuery n) with
    | none => simp
    | some a => cases hlocate : locate schema a <;> simp [hlocate, Option.isSome_iff_ne_none]
  rw [hnames, Readable]
  by_cases hclosed : closingBracket ∈ readName n
  · obtain ⟨a, b, ht, ha⟩ := List.eq_append_cons_of_mem hclosed
    constructor
    · rintro ⟨a', hargument, hcolumns⟩
      obtain ⟨hcloses, rfl⟩ := (pragmaArgument_closed ht ha).mp hargument
      exact ⟨a', b, ht, ha, hcloses, hcolumns⟩
    · rintro ⟨a', b', ht', ha', hcloses, hcolumns⟩
      exact ⟨a', (pragmaArgument_closed ht' ha').mpr ⟨hcloses, rfl⟩, hcolumns⟩
  · constructor
    · rintro ⟨a, hargument, -⟩
      rw [pragmaArgument_open hclosed] at hargument
      cases hargument
    · rintro ⟨a, b, ht, -⟩
      exact absurd (by rw [ht]; simp) hclosed

theorem isView_iff : isView schema (getQuotedTableName n) = true ↔ BracketedView schema n := by
  have hfound : isView schema (getQuotedTableName n) = true ↔
      ∃ e, schema.find? (fun e => e.name = getQuotedTableName n) = some e ∧ e.type = .view := by
    rw [isView]
    cases schema.find? fun e => e.name = getQuotedTableName n <;> simp
  rw [hfound, BracketedView]
  constructor
  · rintro ⟨e, hfind, hview⟩
    obtain ⟨hname, before, after, hschema, hbefore⟩ := List.find?_eq_some_iff_append.mp hfind
    exact ⟨before, e, after, hschema, hview, of_decide_eq_true hname,
      fun e' he' => by simpa using hbefore e' he'⟩
  · rintro ⟨before, e, after, hschema, hview, hname, hbefore⟩
    refine ⟨e, List.find?_eq_some_iff_append.mpr ⟨decide_eq_true hname, before, after, hschema,
      fun e' he' => ?_⟩, hview⟩
    simpa using hbefore e' he'

theorem getTableData_known (hknown : Known rt selectQuery tableName n) :
    getTableData rt schema selectQuery tableName =
      some ⟨getTableInfo schema (pragmaQuery n), (getTableInfo schema (pragmaQuery n)).isSome &&
        !isView schema (getQuotedTableName n)⟩ := by
  obtain rfl | ⟨rfl, hname⟩ := hknown
  · rfl
  · simp [getTableData, hname]

theorem readable_plain (hbracket : closingBracket ∉ n) (hnul : 0 ∉ n) :
    Readable schema n ↔ ∀ e, locate schema n = some e → e.columns ≠ none := by
  have hread : readName n = n ++ closingBracket :: [0x29] := by
    rw [readName, List.takeWhile_eq_self_iff]
    intro u hu
    rw [decide_eq_true_eq]
    rintro rfl
    simp [hnul, closingBracket] at hu
  constructor
  · rintro ⟨a, b, ht, ha, -, hcolumns⟩
    obtain ⟨rfl, -⟩ := closedName_unique ha hbracket (ht.symm.trans hread)
    exact hcolumns
  · intro hcolumns
    exact ⟨n, _, hread, hbracket, ⟨[], rfl, .inl rfl⟩, hcolumns⟩

/-- A plain name gets the flag whatever it names: a table, a view or nothing. -/
theorem plain_editable (hknown : Known rt selectQuery tableName n) (hbracket : closingBracket ∉ n)
    (hnul : 0 ∉ n) (hcolumns : ∀ e, locate schema n = some e → e.columns ≠ none)
    (hview : ¬BracketedView schema n) :
    ∃ r, getTableData rt schema selectQuery tableName = some r ∧ r.isEditable = true := by
  have hinfos := getTableInfo_isSome_iff.mpr ((readable_plain hbracket hnul).mpr hcolumns)
  have hlookup : isView schema (getQuotedTableName n) = false := by
    rw [← Bool.not_eq_true, isView_iff]
    exact hview
  exact ⟨_, getTableData_known hknown, by rw [hinfos, hlookup]; rfl⟩

/-- The lookup takes the name with its brackets: it finds no view of that name, and the flag stands
on the PRAGMA alone. -/
theorem flagRight_iff (rt : Runtime) (schema : Schema) (selectQuery : JString)
    (tableName : Option JString) (n : JString) (hknown : Known rt selectQuery tableName n) :
    FlagRight rt schema selectQuery tableName n ↔
      (IsTable schema n ↔ Readable schema n ∧ ¬BracketedView schema n) := by
  have hflag : FlagRight rt schema selectQuery tableName n ↔
      ((getTableInfo schema (pragmaQuery n)).isSome = true ∧
        ¬isView schema (getQuotedTableName n) = true ↔ IsTable schema n) := by
    simp [FlagRight, getTableData_known hknown]
  rw [hflag, getTableInfo_isSome_iff, isView_iff]
  exact iff_comm

def column : DatabaseHelper.Column := ⟨"id", "INTEGER", false, none, 0, Nat.succ_pos _⟩

def people (type : EntryType) : Entry := ⟨type, ofString "people", some [column.pragma 0]⟩

theorem flagRight_table :
    Known unlocalized (ofString "SELECT * FROM people") none (ofString "people") ∧
      FlagRight unlocalized [people .table] (ofString "SELECT * FROM people") none
        (ofString "people") := by
  have hknown : Known unlocalized (ofString "SELECT * FROM people") none (ofString "people") :=
    .inr ⟨rfl, by decide +kernel⟩
  refine ⟨hknown, (flagRight_iff _ _ _ _ _ hknown).mpr ⟨fun _ => ⟨?_, ?_⟩, fun _ => ?_⟩⟩
  · refine (readable_plain (by decide) (by decide)).mpr fun e he => ?_
    have hlocate : locate [people .table] (ofString "people") = some (people .table) := rfl
    obtain rfl : people .table = e := Option.some.inj (hlocate.symm.trans he)
    exact Option.some_ne_none _
  · rw [← isView_iff]
    decide
  · exact ⟨people .table, List.mem_cons_self, rfl, rfl⟩

theorem view_editable :
    getTableData unlocalized [people .view] (ofString "SELECT * FROM people") none =
        some ⟨some [⟨some "id", false⟩], true⟩ ∧
      ¬∀ rt schema selectQuery tableName n, Known rt selectQuery tableName n →
        FlagRight rt schema selectQuery tableName n := by
  have hdata : getTableData unlocalized [people .view] (ofString "SELECT * FROM people") none =
      some ⟨some [⟨some "id", false⟩], true⟩ := by decide +kernel
  refine ⟨hdata, fun h => ?_⟩
  obtain ⟨r, hr, hflag⟩ := h unlocalized [people .view] (ofString "SELECT * FROM people") none
    (ofString "people") (.inr ⟨rfl, by decide +kernel⟩)
  obtain rfl : _ = r := Option.some.inj (hdata.symm.trans hr)
  obtain ⟨e, he, htable, -⟩ := hflag.mp rfl
  obtain rfl : e = people .view := List.mem_singleton.mp he
  cases htable

end EditableFlag
