import AndroidDebug.SqlTokens
import AndroidDebug.TableNameParser
import AndroidDebug.TextReplace

/-! The brackets that DatabaseHelper puts around a table name in an SQL text, wherever the name
is found. -/
namespace TableQuoting

open JavaText SqlTokens TextReplace TableNameParser

def openingBracket : UInt16 := 0x5B

def getQuotedTableName (tableName : JString) : JString :=
  openingBracket :: (tableName ++ [closingBracket])

/-- `sql.replace(tableName, quotedTableName)`, unless the name is null or empty. -/
def quoteIn (sql : JString) : Option JString → JString
  | none => sql
  | some tableName =>
    if tableName = [] then sql else replace tableName (getQuotedTableName tableName) sql

variable (rt : Runtime)

/-- The text given to execSQL; `none` is an exception before that. -/
def exec (sql : JString) : Option JString := (getTableName rt sql).map (quoteIn sql)

def getTableData (selectQuery : JString) (tableName : Option JString) : Option JString :=
  match tableName with
  | some tableName => some (quoteIn selectQuery (some tableName))
  | none => (getTableName rt selectQuery).map (quoteIn selectQuery)

def selectAll : JString := ofString "SELECT * FROM "

/-- Without an open database nothing is queried. -/
def getAllDataFromTheTableResponse (isDbOpened : Bool) (tableName : JString) : Option JString :=
  if isDbOpened then getTableData rt (selectAll ++ tableName) (some tableName) else none

variable (isKeyword : JString → Bool) (t s : JString)

def isTable (tok : Token) : Bool := tok.kind = .word ∧ isKeyword tok.text = false ∧ tok.text = t

/-- SQLite reads up to the first NUL. -/
def statement : List Token :=
  tokens (s.takeWhile (· ≠ 0)) ++ [⟨.other, s.dropWhile (· ≠ 0)⟩]

/-- The text with the identifier tokens that are the table's name in brackets. -/
def bracketed : JString :=
  (statement s).flatMap fun tok =>
    if isTable isKeyword t tok then getQuotedTableName t else tok.text

/-- Wherever the name is found in the text, it is an identifier token. -/
def OnlyAsIdentifier : Prop :=
  ∀ before after, s = before ++ t ++ after →
    ∃ toks₁ tok toks₂, statement s = toks₁ ++ tok :: toks₂ ∧ isTable isKeyword t tok ∧
      toks₁.flatMap Token.text = before

/-- The name is not found in the statement before its end. -/
def OnlyAtEnd : Prop :=
  ∀ before after, selectAll ++ t = before ++ t ++ after → after = []

/-- Only identifier tokens equal to the name change. -/
structure Quotes : Prop where
  exec : getTableName rt s = some (some t) → exec rt s = some (bracketed isKeyword t s)
  guessed : getTableName rt s = some (some t) →
    getTableData rt s none = some (bracketed isKeyword t s)
  given : getTableData rt s (some t) = some (bracketed isKeyword t s)
  all : getAllDataFromTheTableResponse rt true t = some (selectAll ++ getQuotedTableName t)

/-! Tokens as pieces. -/

def piece (tok : Token) : Piece UInt16 := ⟨tok.text, isTable isKeyword t tok⟩

variable {rt isKeyword t s}

theorem flatMap_statement (s : JString) : (statement s).flatMap Token.text = s := by
  rw [statement, List.flatMap_append, flatMap_tokens, List.flatMap_singleton,
    List.takeWhile_append_dropWhile]

theorem isWord_of_statement {toks₁ toks₂ : List Token} {w : JString}
    (h : statement s = toks₁ ++ ⟨.word, w⟩ :: toks₂) : IsWord w (toks₂.flatMap Token.text) := by
  -- the last token is no word
  obtain ⟨toks₂, rfl⟩ : ∃ toks, toks₂ = toks ++ [⟨.other, s.dropWhile (· ≠ 0)⟩] := by
    rcases List.eq_nil_or_concat toks₂ with rfl | ⟨toks, tok, rfl⟩
    · have hlast := congrArg List.getLast? h
      simp [statement] at hlast
    · rw [statement, List.concat_eq_append, ← List.cons_append, ← List.append_assoc] at h
      exact ⟨toks, by rw [List.concat_eq_append, (List.append_inj' h rfl).2]⟩
  rw [statement, ← List.cons_append, ← List.append_assoc] at h
  have hword := isWord_of_tokensWithin (le_refl _) (List.append_cancel_right h)
  refine ⟨hword.start, hword.chars, ?_⟩
  rw [List.flatMap_append, List.flatMap_singleton]
  intro u hu
  cases hafter : toks₂.flatMap Token.text with
  | cons v rest =>
    rw [hafter] at hu hword
    exact hword.ends u hu
  | nil =>
    have hhead := List.head?_dropWhile_not (· ≠ 0) s
    rw [hafter, List.nil_append] at hu
    rw [hu] at hhead
    obtain rfl : u = 0 := by simpa using hhead
    rfl

theorem source_pieces (toks : List Token) :
    source (toks.map (piece isKeyword t)) = toks.flatMap Token.text := by
  simp [source, List.flatMap_map, piece]

theorem bracketed_eq_render :
    bracketed isKeyword t s =
      render (getQuotedTableName t) ((statement s).map (piece isKeyword t)) := by
  rw [render, List.flatMap_map]
  rfl

theorem isTable_iff {tok : Token} :
    isTable isKeyword t tok = true ↔ tok = ⟨.word, t⟩ ∧ isKeyword t = false := by
  obtain ⟨kind, text⟩ := tok
  simp only [isTable, decide_eq_true_eq, Token.mk.injEq]
  constructor
  · rintro ⟨rfl, hk, rfl⟩
    exact ⟨⟨rfl, rfl⟩, hk⟩
  · rintro ⟨⟨rfl, rfl⟩, hk⟩
    exact ⟨rfl, hk, rfl⟩

theorem onlyAsIdentifier_iff :
    OnlyAsIdentifier isKeyword t s ↔ OnlyMarked t ((statement s).map (piece isKeyword t)) := by
  unfold OnlyAsIdentifier OnlyMarked
  rw [source_pieces, flatMap_statement]
  constructor
  · intro h before after heq
    obtain ⟨toks₁, tok, toks₂, htoks, htable, rfl⟩ := h before after heq
    exact ⟨toks₁.map (piece isKeyword t), piece isKeyword t tok, toks₂.map (piece isKeyword t),
      by rw [htoks]; simp, htable, source_pieces toks₁⟩
  · intro h before after heq
    obtain ⟨ps₁, p, ps₂, hps, hmarked, rfl⟩ := h before after heq
    obtain ⟨toks₁, later, htoks, rfl, hlater⟩ := List.map_eq_append_iff.mp hps
    obtain ⟨tok, toks₂, rfl, rfl, rfl⟩ := List.map_eq_cons_iff.mp hlater
    exact ⟨toks₁, tok, toks₂, htoks, hmarked, (source_pieces toks₁).symm⟩

/-- After a word the next token begins with something that is in no word. -/
theorem apart_pieces : Apart t ((statement s).map (piece isKeyword t)) := by
  intro ps₁ p ps₂ hps hmarked before after heq
  obtain ⟨toks₁, later, htoks, rfl, hlater⟩ := List.map_eq_append_iff.mp hps
  obtain ⟨tok, toks₂, rfl, rfl, rfl⟩ := List.map_eq_cons_iff.mp hlater
  obtain ⟨rfl, -⟩ := isTable_iff.mp hmarked
  have hword := isWord_of_statement htoks
  rw [source_pieces] at heq
  by_contra hinside
  rw [not_or, Nat.not_le] at hinside
  obtain ⟨hne, hlt⟩ := hinside
  obtain ⟨x, y, hfirst, hsecond, hlater⟩ := overlap heq hlt
  have hpos := List.length_pos_of_ne_nil hne
  have hlength : before.length + x.length = x.length + y.length := by
    rw [← List.length_append, ← List.length_append, ← hfirst, ← hsecond]
  obtain ⟨u, y, rfl⟩ := List.exists_cons_of_ne_nil (List.ne_nil_of_length_pos (l := y) (by omega))
  have hends := hword.ends u (by rw [hlater]; rfl)
  rw [hword.chars u (by rw [hsecond]; simp)] at hends
  cases hends

theorem head_of_marked {p : Piece UInt16} (h : p ∈ (statement s).map (piece isKeyword t))
    (hmarked : p.marked) : t.head? ≠ (getQuotedTableName t).head? := by
  obtain ⟨tok, htok, rfl⟩ := List.mem_map.mp h
  obtain ⟨rfl, -⟩ := isTable_iff.mp hmarked
  obtain ⟨toks₁, toks₂, htoks⟩ := List.append_of_mem htok
  obtain ⟨u, rest, rfl, hstart⟩ := (isWord_of_statement htoks).start
  intro hhead
  obtain rfl : u = openingBracket := by simpa [getQuotedTableName] using hhead
  exact absurd hstart (by decide)

theorem replace_eq_bracketed_iff (ht : t ≠ []) :
    replace t (getQuotedTableName t) s = bracketed isKeyword t s ↔
      OnlyAsIdentifier isKeyword t s := by
  have hmarked : ∀ p ∈ (statement s).map (piece isKeyword t), p.marked → p.text = t := by
    intro p hp hm
    obtain ⟨tok, -, rfl⟩ := List.mem_map.mp hp
    obtain ⟨rfl, -⟩ := isTable_iff.mp hm
    rfl
  have hlonger : t.length < (getQuotedTableName t).length := by
    simp only [getQuotedTableName, List.length_cons, List.length_append]
    omega
  have h := replace_eq_render_iff ht hmarked apart_pieces hlonger fun p hp => head_of_marked hp
  rwa [source_pieces, flatMap_statement, ← bracketed_eq_render, ← onlyAsIdentifier_iff] at h

/-! The statement for a whole table. -/

theorem noneStarts_selectAll : NoneStarts t selectAll t ↔ OnlyAtEnd t := by
  have hlength : ∀ before after : JString, selectAll ++ t = before ++ t ++ after →
      selectAll.length = before.length + after.length := by
    intro before after heq
    have := congrArg List.length heq
    simp only [List.length_append] at this
    omega
  constructor
  · intro hnone before after heq
    have := hnone before after heq
    have := hlength before after heq
    exact List.eq_nil_of_length_eq_zero (by omega)
  · intro hend before after heq
    obtain rfl := hend before after heq
    exact (hlength before [] heq).le

theorem replace_selectAll_iff (ht : t ≠ []) :
    replace t (getQuotedTableName t) (selectAll ++ t) = selectAll ++ getQuotedTableName t ↔
      OnlyAtEnd t := by
  rw [← noneStarts_selectAll]
  constructor
  · intro h
    by_contra hstarts
    obtain ⟨front, u, back, rest, hselect, -, hfirst⟩ :=
      replace_first (r := getQuotedTableName t) ht hstarts
    have hbracket : openingBracket ∉ selectAll := by decide
    rw [hfirst, hselect] at h
    -- the first bracket would stand for a unit of the statement's own
    obtain ⟨rfl, -⟩ : openingBracket = u ∧ _ := by simpa [getQuotedTableName] using h
    rw [hselect] at hbracket
    simp at hbracket
  · intro hnone
    have hend := replace_match (r := getQuotedTableName t) ht []
    rw [List.append_nil, replace_nil, List.append_nil] at hend
    rw [replace_append hnone, hend]

/-- Where the name is found as something else than a whole identifier, that is changed too. -/
theorem table_name_quoted_iff (rt : Runtime) (isKeyword : JString → Bool) (t s : JString)
    (ht : t ≠ []) :
    Quotes rt isKeyword t s ↔ OnlyAsIdentifier isKeyword t s ∧ OnlyAtEnd t := by
  have hquote : ∀ sql, quoteIn sql (some t) = replace t (getQuotedTableName t) sql :=
    fun sql => if_neg ht
  constructor
  · intro h
    have hgiven := h.given
    have hall := h.all
    simp only [getAllDataFromTheTableResponse, getTableData, hquote, if_true] at hgiven hall
    exact ⟨(replace_eq_bracketed_iff ht).mp (Option.some.inj hgiven),
      (replace_selectAll_iff ht).mp (Option.some.inj hall)⟩
  · rintro ⟨honly, hend⟩
    have htext := (replace_eq_bracketed_iff ht).mpr honly
    constructor
    · intro hname
      rw [exec, hname, Option.map_some, hquote, htext]
    · intro hname
      rw [getTableData, hname, Option.map_some, hquote, htext]
    · rw [getTableData, hquote, htext]
    · simp only [getAllDataFromTheTableResponse, getTableData, if_true, hquote]
      rw [(replace_selectAll_iff ht).mpr hend]

def unlocalized : Runtime where
  toLowerCase s := s.map fun u => if 0x41 ≤ u.toNat ∧ u.toNat ≤ 0x5A then u + 0x20 else u
  order := id

def someKeywords (word : JString) : Bool :=
  (["DELETE", "FROM", "WHERE", "INSERT", "INTO", "VALUES"].map ofString).contains word

theorem table_name_quoted_delete :
    let log := ofString "log"
    getTableName unlocalized (ofString "DELETE FROM log WHERE logged=1") = some (some log) ∧
      ¬Quotes unlocalized someKeywords log (ofString "DELETE FROM log WHERE logged=1") ∧
      Quotes unlocalized someKeywords log (ofString "DELETE FROM log WHERE id='1'") := by
  intro log
  have hiff := fun s => table_name_quoted_iff unlocalized someKeywords log s (by decide)
  refine ⟨by decide +kernel, fun h => ?_, (hiff _).mpr ⟨?_, ?_⟩⟩
  · have hreplaced := (replace_eq_bracketed_iff (by decide)).mpr ((hiff _).mp h).1
    exact absurd hreplaced (by decide +kernel)
  · exact (replace_eq_bracketed_iff (by decide)).mp (by decide +kernel)
  · exact (replace_selectAll_iff (by decide)).mp (by decide +kernel)

/-- A stored text is changed, and so is the keyword in front of a table called M. -/
theorem literal_changed :
    exec unlocalized (ofString "INSERT INTO log VALUES('log in')") =
        some (ofString "INSERT INTO [log] VALUES('[log] in')") ∧
      bracketed someKeywords (ofString "log") (ofString "INSERT INTO log VALUES('log in')") =
        ofString "INSERT INTO [log] VALUES('log in')" ∧
      getAllDataFromTheTableResponse unlocalized true (ofString "M") =
        some (ofString "SELECT * FRO[M] [M]") ∧
      ¬∀ rt isKeyword t s, t ≠ [] → Quotes rt isKeyword t s := by
  refine ⟨by decide +kernel, by decide +kernel, by decide +kernel, fun h => ?_⟩
  have hexec := (h unlocalized someKeywords (ofString "log")
    (ofString "INSERT INTO log VALUES('log in')") (by decide)).exec (by decide +kernel)
  exact absurd hexec (by decide +kernel)

end TableQuoting
