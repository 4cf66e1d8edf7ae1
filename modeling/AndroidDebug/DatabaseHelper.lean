import AndroidDebug.CheckedFold
import AndroidDebug.JavaText
import AndroidDebug.SqlUpdate

/-! How DatabaseHelper shows the rows of a table and turns the cells that the page sends back
into an UPDATE statement. A Java string is a Lean string here; a double is its bits. -/
namespace DatabaseHelper

open CheckedFold JavaText SqlUpdate

inductive Value where
  | null
  | integer (n : Int64)
  | real (bits : UInt64)
  | text (s : String)
  | blob (b : List UInt8)
  deriving DecidableEq, Repr

abbrev Row := SqlUpdate.Row String Value

/-- The texts of doubles, and what SQLite takes as the text of a blob that is compared with
a text. -/
structure Platform where
  doubleToString : UInt64 → String
  doubleValueOf : String → Option UInt64
  blobText : List UInt8 → Option String

namespace DataType

def BOOLEAN : String := "boolean"
def INTEGER : String := "integer"
def REAL : String := "real"
def TEXT : String := "text"
def LONG : String := "long"
def FLOAT : String := "float"
def STRING_SET : String := "string_set"

end DataType

def NULL : String := "null"

section Shown

structure ColumnData where
  dataType : String
  value : Option String
  deriving DecidableEq, Repr

def fastIsAscii (blob : List UInt8) : Bool := blob.all fun b => b &&& 0x80 = 0

def blobToString (blob : List UInt8) : String :=
  if blob.length ≤ 512 ∧ fastIsAscii blob then
    String.ofList (blob.map fun b => Char.ofNat b.toNat)
  else "{blob}"

/-- A cell as getTableData shows it, with a number as its text. -/
def columnData (p : Platform) : Value → ColumnData
  | .blob b => ⟨DataType.TEXT, some (blobToString b)⟩
  | .real d => ⟨DataType.REAL, some (p.doubleToString d)⟩
  | .integer n => ⟨DataType.INTEGER, some (longToString n)⟩
  | .text s => ⟨DataType.TEXT, some s⟩
  | .null => ⟨DataType.TEXT, none⟩

/-- A column of a table, with its place in the primary key or 0. -/
structure Column where
  name : String
  type : String
  notnull : Bool
  dflt_value : Option String
  pk : ℕ
  pk_lt : pk < 2147483648

structure Schema where
  columns : List Column
  distinct : (columns.map Column.name).Nodup

/-- A row of PRAGMA table_info, by the names of its columns. -/
def Column.pragma (cid : ℕ) (c : Column) : List (String × Value) :=
  [("cid", .integer (Int64.ofNat cid)), ("name", .text c.name), ("type", .text c.type),
    ("notnull", .integer (if c.notnull then 1 else 0)),
    ("dflt_value", (c.dflt_value.map Value.text).getD .null), ("pk", .integer (Int64.ofNat c.pk))]

structure TableInfo where
  title : Option String
  isPrimary : Bool
  deriving DecidableEq, Repr

/-- `Cursor.getInt` of a column that holds an integer. -/
def getInt : Value → ℤ
  | .integer n => n.toInt32.toInt
  | _ => 0

def getString : Value → Option String
  | .text s => some s
  | _ => none

/-- The inner loop of getTableInfo, over the columns of one row. -/
def tableInfo (row : List (String × Value)) : TableInfo :=
  row.foldl (fun info (columnName, v) =>
    if columnName = "pk" then { info with isPrimary := getInt v = 1 }
    else if columnName = "name" then { info with title := getString v }
    else info) ⟨none, false⟩

def getTableInfo (cursor : List (List (String × Value))) : List TableInfo := cursor.map tableInfo

def Schema.tableInfos (s : Schema) : List TableInfo :=
  getTableInfo (s.columns.zipIdx.map fun (c, cid) => c.pragma cid)

def Schema.cells (s : Schema) (p : Platform) (r : Row) : List ColumnData :=
  s.columns.map fun c => columnData p (r c.name)

end Shown

section Sent

structure RowDataRequest where
  title : Option String
  isPrimary : Bool
  dataType : Option String
  value : Option String
  deriving DecidableEq, Repr

inductive JavaException where
  | nullPointer | numberFormat | illegalArgument | indexOutOfBounds | sqlite
  deriving DecidableEq, Repr

/-- Newest first, so that a second put under one name hides the first. -/
abbrev ContentValues := List (String × Value)

structure Update where
  table : String
  contentValues : ContentValues
  whereClause : Option String
  whereArgs : List (Option String)
  deriving DecidableEq, Repr

inductive Statement where
  | insert (table : String) (contentValues : ContentValues)
  | update (u : Update)
  | delete (table : String) (whereClause : Option String) (whereArgs : List (Option String))
  deriving DecidableEq, Repr

structure Gathered where
  contentValues : ContentValues
  whereClause : Option String
  whereArgsList : List (Option String)
  deriving DecidableEq, Repr

def Gathered.addTerm (g : Gathered) (title : String) (value : Option String) : Gathered :=
  { g with
    whereClause := some (match g.whereClause with
      | none => title ++ "=? "
      | some whereClause => whereClause ++ "and " ++ title ++ "=? ")
    whereArgsList := g.whereArgsList ++ [value] }

def nulled (value : Option String) : Option String := if value = some NULL then none else value

theorem nulled_of_ne {value : String} (h : value ≠ NULL) : nulled (some value) = some value :=
  if_neg fun heq => h (Option.some.inj heq)

theorem longToString_ne_null (n : Int64) : longToString n ≠ NULL := by
  intro hn
  have h := longValueOf_longToString n
  have hnull : longValueOf NULL = none := by decide
  rw [hn, hnull] at h
  cases h

def putCell (p : Platform) (contentValues : ContentValues) (title : String)
    (dataType : Option String) (value : Option String) : Except JavaException ContentValues :=
  match dataType with
  | none => .error .nullPointer
  | some dataType =>
    if dataType = DataType.INTEGER then
      match value.bind longValueOf with
      | some n => .ok ((title, .integer n) :: contentValues)
      | none => .error .numberFormat
    else if dataType = DataType.REAL then
      match value with
      | none => .error .nullPointer
      | some s =>
        match p.doubleValueOf s with
        | some d => .ok ((title, .real d) :: contentValues)
        | none => .error .numberFormat
    else if dataType = DataType.TEXT then
      .ok ((title, (value.map Value.text).getD .null) :: contentValues)
    else .ok contentValues

def gather (p : Platform) (g : Gathered) :
    Option RowDataRequest → Except JavaException Gathered
  | none => .error .nullPointer
  | some rowDataRequest =>
    let value := nulled rowDataRequest.value
    let title := rowDataRequest.title.getD NULL
    if rowDataRequest.isPrimary then .ok (g.addTerm title value)
    else (putCell p g.contentValues title rowDataRequest.dataType value).map fun contentValues =>
      { g with contentValues }

def getQuotedTableName (tableName : String) : String := "[" ++ tableName ++ "]"

/-- isSuccessful and the statement that runs; SQLiteDatabase.update refuses to set nothing. -/
def updateRow (p : Platform) (tableName : Option String)
    (rowDataRequests : Option (List (Option RowDataRequest))) :
    Except JavaException (Bool × Option Update) :=
  match rowDataRequests, tableName with
  | some rowDataRequests, some tableName => do
    let g ← rowDataRequests.foldlM (gather p) ⟨[], none, []⟩
    if g.contentValues = [] then .error .illegalArgument
    else .ok (true, some ⟨getQuotedTableName tableName, g.contentValues, g.whereClause,
      g.whereArgsList⟩)
  | _, _ => .ok (false, none)

/-- As putCell, but a cell of any other type is put as its text. -/
def addCell (p : Platform) (contentValues : ContentValues) (title : String)
    (dataType : Option String) (value : Option String) : Except JavaException ContentValues :=
  match dataType with
  | none => .error .nullPointer
  | some dataType =>
    if dataType = DataType.INTEGER ∨ dataType = DataType.REAL ∨ dataType = DataType.TEXT then
      putCell p contentValues title (some dataType) value
    else .ok ((title, (value.map Value.text).getD .null) :: contentValues)

def gatherValues (p : Platform) (contentValues : ContentValues) :
    Option RowDataRequest → Except JavaException ContentValues
  | none => .error .nullPointer
  | some rowDataRequest =>
    addCell p contentValues (rowDataRequest.title.getD NULL) rowDataRequest.dataType
      (nulled rowDataRequest.value)

/-- isSuccessful, where the insert gives the id of a new row, and the statement that runs. -/
def addRow (p : Platform) (tableName : Option String)
    (rowDataRequests : Option (List (Option RowDataRequest))) :
    Except JavaException (Bool × Option Statement) :=
  match rowDataRequests, tableName with
  | some rowDataRequests, some tableName => do
    let contentValues ← rowDataRequests.foldlM (gatherValues p) []
    .ok (true, some (.insert (getQuotedTableName tableName) contentValues))
  | _, _ => .ok (false, none)

def gatherKeys (g : Gathered) : Option RowDataRequest → Except JavaException Gathered
  | none => .error .nullPointer
  | some rowDataRequest =>
    if rowDataRequest.isPrimary then
      .ok (g.addTerm (rowDataRequest.title.getD NULL) (nulled rowDataRequest.value))
    else .ok g

/-- Without a key nothing runs and the row counts as deleted. -/
def deleteRow (tableName : Option String)
    (rowDataRequests : Option (List (Option RowDataRequest))) :
    Except JavaException (Bool × Option Statement) :=
  match rowDataRequests, tableName with
  | some rowDataRequests, some tableName => do
    let g ← rowDataRequests.foldlM gatherKeys ⟨[], none, []⟩
    if g.whereArgsList = [] then .ok (true, none)
    else .ok (true, some (.delete (getQuotedTableName tableName) g.whereClause g.whereArgsList))
  | _, _ => .ok (false, none)

end Sent

section Accepted

variable (p : Platform)

def Convertible (dataType value : Option String) : Prop :=
  ∃ t, dataType = some t ∧ (t = DataType.INTEGER → ∃ n, value.bind longValueOf = some n) ∧
    (t = DataType.REAL → ∃ d, value.bind p.doubleValueOf = some d)

/-- A cell of these types is set by updateRow. -/
def SetType (dataType : Option String) : Prop :=
  dataType = some DataType.INTEGER ∨ dataType = some DataType.REAL ∨ dataType = some DataType.TEXT

/-- A type that is neither of the two numbers is text or left out. -/
theorem putCell_other {t : String} (hint : t ≠ DataType.INTEGER) (hreal : t ≠ DataType.REAL)
    (contentValues : ContentValues) (title : String) (value : Option String) :
    putCell p contentValues title (some t) value =
      .ok (if t = DataType.TEXT then (title, (value.map Value.text).getD .null) :: contentValues
        else contentValues) := by
  by_cases htext : t = DataType.TEXT <;> cases value <;> simp_all [putCell]

theorem putCell_ok_iff (contentValues : ContentValues) (title : String)
    (dataType value : Option String) :
    (∃ c, putCell p contentValues title dataType value = .ok c) ↔ Convertible p dataType value := by
  have hne : DataType.REAL ≠ DataType.INTEGER := by decide
  cases dataType with
  | none => simp [putCell, Convertible]
  | some t =>
    by_cases hint : t = DataType.INTEGER
    · cases hv : value.bind longValueOf <;> simp [putCell, Convertible, hint, hv, hne.symm]
    · by_cases hreal : t = DataType.REAL
      · cases value with
        | none => simp [putCell, Convertible, hreal, hne]
        | some v => cases hv : p.doubleValueOf v <;> simp [putCell, Convertible, hreal, hne, hv]
      · simp [putCell_other p hint hreal, Convertible, hint, hreal]

theorem addCell_ok_iff (contentValues : ContentValues) (title : String)
    (dataType value : Option String) :
    (∃ c, addCell p contentValues title dataType value = .ok c) ↔ Convertible p dataType value := by
  cases dataType with
  | none => simp [addCell, Convertible]
  | some t =>
    by_cases ht : t = DataType.INTEGER ∨ t = DataType.REAL ∨ t = DataType.TEXT
    · rw [← putCell_ok_iff p contentValues title, addCell, if_pos ht]
    · rw [not_or, not_or] at ht
      simp [addCell, Convertible, ht]

theorem putCell_flag {contentValues c : ContentValues} {title : String}
    {dataType value : Option String} (h : putCell p contentValues title dataType value = .ok c) :
    c ≠ [] ↔ contentValues ≠ [] ∨ SetType dataType := by
  have hne : DataType.REAL ≠ DataType.INTEGER := by decide
  cases dataType with
  | none => cases h
  | some t =>
    by_cases hint : t = DataType.INTEGER
    · cases hv : value.bind longValueOf with
      | none => simp [putCell, hint, hv] at h
      | some n =>
        obtain rfl : (title, Value.integer n) :: contentValues = c := by
          simpa [putCell, hint, hv] using h
        simp [SetType, hint]
    · by_cases hreal : t = DataType.REAL
      · cases hv : value.bind p.doubleValueOf with
        | none => cases value <;> simp_all [putCell]
        | some d =>
          obtain ⟨v, rfl, hd⟩ := Option.bind_eq_some_iff.mp hv
          obtain rfl : (title, Value.real d) :: contentValues = c := by
            simpa [putCell, hreal, hne, hd] using h
          simp [SetType, hreal]
      · rw [putCell_other p hint hreal] at h
        obtain rfl := Except.ok.inj h
        by_cases htext : t = DataType.TEXT <;> simp [SetType, hint, hreal, htext]

theorem gatherValues_ok_iff (contentValues : ContentValues) (r : Option RowDataRequest) :
    (∃ c, gatherValues p contentValues r = .ok c) ↔
      ∃ q, r = some q ∧ Convertible p q.dataType (nulled q.value) := by
  cases r with
  | none => simp [gatherValues]
  | some q => simp only [gatherValues, addCell_ok_iff, Option.some.injEq, exists_eq_left']

theorem gather_ok_iff (g : Gathered) (r : Option RowDataRequest) :
    (∃ g', gather p g r = .ok g') ↔
      ∃ q, r = some q ∧ (q.isPrimary = false → Convertible p q.dataType (nulled q.value)) := by
  cases r with
  | none => simp [gather]
  | some q =>
    cases hq : q.isPrimary with
    | true => simp [gather, hq]
    | false =>
      have hput := putCell_ok_iff p g.contentValues (q.title.getD NULL) q.dataType (nulled q.value)
      simp only [gather, hq, Bool.false_eq_true, if_false, Option.some.injEq, exists_eq_left',
        forall_const, ← hput]
      cases putCell p g.contentValues (q.title.getD NULL) q.dataType (nulled q.value) <;>
        simp [Except.map]

theorem gather_flag (g : Gathered) (r : Option RowDataRequest) (g' : Gathered)
    (h : gather p g r = .ok g') :
    g'.contentValues ≠ [] ↔ g.contentValues ≠ [] ∨
      ∃ q, r = some q ∧ q.isPrimary = false ∧ SetType q.dataType := by
  cases r with
  | none => cases h
  | some q =>
    cases hq : q.isPrimary with
    | true =>
      simp only [gather, hq, if_true, Except.ok.injEq] at h
      subst h
      simp [Gathered.addTerm, hq]
    | false =>
      simp only [gather, hq, Bool.false_eq_true, if_false] at h
      cases hput : putCell p g.contentValues (q.title.getD NULL) q.dataType (nulled q.value) with
      | error e =>
        rw [hput] at h
        cases h
      | ok c =>
        rw [hput] at h
        obtain rfl := Except.ok.inj h
        simp [putCell_flag p hput, hq]

theorem gatherKeys_ok_iff (g : Gathered) (r : Option RowDataRequest) :
    (∃ g', gatherKeys g r = .ok g') ↔ ∃ q, r = some q := by
  cases r with
  | none => simp [gatherKeys]
  | some q => cases hq : q.isPrimary <;> simp [gatherKeys, hq]

theorem gatherKeys_flag (g : Gathered) (r : Option RowDataRequest) (g' : Gathered)
    (h : gatherKeys g r = .ok g') :
    g'.whereArgsList ≠ [] ↔ g.whereArgsList ≠ [] ∨ ∃ q, r = some q ∧ q.isPrimary = true := by
  cases r with
  | none => cases h
  | some q =>
    cases hq : q.isPrimary <;> simp only [gatherKeys, hq, if_true, Bool.false_eq_true, if_false,
      Except.ok.injEq] at h <;> subst h <;> simp [Gathered.addTerm, hq]

/-- The entries that a loop raises its flag for, when none of them is missing. -/
theorem exists_mem_some {l : List (Option RowDataRequest)} {q : RowDataRequest → Prop} :
    (∃ r ∈ l, ∃ a, r = some a ∧ q a) ↔ ∃ a, some a ∈ l ∧ q a := by
  constructor
  · rintro ⟨_, hr, a, rfl, ha⟩
    exact ⟨a, hr, ha⟩
  · rintro ⟨a, ha, hq⟩
    exact ⟨some a, ha, a, rfl, hq⟩

theorem addRow_runs_iff (tableName : Option String) (rows : Option (List (Option RowDataRequest))) :
    (∃ ok st, addRow p tableName rows = .ok (ok, some st)) ↔
      ∃ t l, tableName = some t ∧ rows = some l ∧
        ∀ r ∈ l, ∃ q, r = some q ∧ Convertible p q.dataType (nulled q.value) := by
  cases tableName with
  | none => simp [addRow]
  | some t =>
    cases rows with
    | none => simp [addRow]
    | some l =>
      have hloop := foldlM_ok_iff (gatherValues_ok_iff p) l []
      simp only [Option.some.injEq, exists_eq_left', exists_and_left, ← hloop]
      cases hl : l.foldlM (gatherValues p) [] <;> simp [addRow, hl, bind, Except.bind]

theorem updateRow_runs_iff (tableName : Option String)
    (rows : Option (List (Option RowDataRequest))) :
    (∃ ok u, updateRow p tableName rows = .ok (ok, some u)) ↔
      ∃ t l, tableName = some t ∧ rows = some l ∧
        (∀ r ∈ l, ∃ q, r = some q ∧
          (q.isPrimary = false → Convertible p q.dataType (nulled q.value))) ∧
        ∃ q, some q ∈ l ∧ q.isPrimary = false ∧ SetType q.dataType := by
  cases tableName with
  | none => simp [updateRow]
  | some t =>
    cases rows with
    | none => simp [updateRow]
    | some l =>
      have hloop := foldlM_ok_iff (gather_ok_iff p) l ⟨[], none, []⟩
      simp only [Option.some.injEq, exists_eq_left', exists_and_left, ← hloop, ← exists_mem_some]
      cases hl : l.foldlM (gather p) ⟨[], none, []⟩ with
      | error e => simp [updateRow, hl, bind, Except.bind]
      | ok g =>
        have hset := foldlM_flag_iff (gather_flag p) hl
        simp only [ne_eq, not_true_eq_false, false_or] at hset
        simp only [← hset]
        by_cases hg : g.contentValues = [] <;> simp [updateRow, hl, bind, Except.bind, hg]

theorem deleteRow_runs_iff (tableName : Option String)
    (rows : Option (List (Option RowDataRequest))) :
    (∃ ok st, deleteRow tableName rows = .ok (ok, some st)) ↔
      ∃ t l, tableName = some t ∧ rows = some l ∧ (∀ r ∈ l, ∃ q, r = some q) ∧
        ∃ q, some q ∈ l ∧ q.isPrimary = true := by
  cases tableName with
  | none => simp [deleteRow]
  | some t =>
    cases rows with
    | none => simp [deleteRow]
    | some l =>
      have hloop := foldlM_ok_iff gatherKeys_ok_iff l ⟨[], none, []⟩
      simp only [Option.some.injEq, exists_eq_left', exists_and_left, ← hloop, ← exists_mem_some]
      cases hl : l.foldlM gatherKeys ⟨[], none, []⟩ with
      | error e => simp [deleteRow, hl, bind, Except.bind]
      | ok g =>
        have hkeys := foldlM_flag_iff gatherKeys_flag hl
        simp only [ne_eq, not_true_eq_false, false_or] at hkeys
        simp only [← hkeys]
        by_cases hg : g.whereArgsList = [] <;> simp [deleteRow, hl, bind, Except.bind, hg]

end Accepted

section Executed

/-- The text that a bound text is compared with. -/
def textual (p : Platform) : Value → Option String
  | .null => none
  | .integer n => some (longToString n)
  | .real d => some (p.doubleToString d)
  | .text s => some s
  | .blob b => p.blobText b

/-- A comparison with NULL on either side does not hold. -/
def equals (p : Platform) (v : Value) (arg : Option String) : Bool :=
  arg.isSome && textual p v = arg

/-- A clause holds of a row if each of its terms does; one without an argument is never true. -/
def whereHolds (p : Platform) (clause : Option String) (args : List (Option String)) (r : Row) :
    Bool :=
  match clause with
  | none => true
  | some clause =>
    (terms clause.toList).length ≤ args.length &&
      ((terms clause.toList).zip args).all fun (name, arg) => equals p (r (String.ofList name)) arg

end Executed

end DatabaseHelper
