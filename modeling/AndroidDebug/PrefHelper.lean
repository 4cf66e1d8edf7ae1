import AndroidDebug.DatabaseHelper

/-! PrefHelper: what a request edits in a file of shared preferences. -/
namespace PrefHelper

open JavaText DatabaseHelper

inductive PrefValue where
  | string (value : Option String)
  | int (n : Int32)
  | long (n : Int64)
  | float (bits : UInt32)
  | boolean (b : Bool)
  | stringSet (values : List String)
  deriving DecidableEq, Repr

inductive Edit where
  | put (key : Option String) (value : PrefValue)
  | remove (key : Option String)
  deriving DecidableEq, Repr

/-- `Float.valueOf`, the strings of a `JSONArray`, and the names that getSharedPreferences
takes. -/
structure Device where
  floatValueOf : String → Option UInt32
  jsonStrings : String → Option (List String)
  validName : String → Bool

def integerValueOf (s : String) : Option Int32 := (parseInt (unitValues s)).map Int32.ofInt

/-- `equalsIgnoreCase` folds no letter outside ASCII to one of these four. -/
def booleanValueOf (value : Option String) : Bool := value.map String.toLower = some "true"

/-- The switch of addOrUpdateRow; what it throws is caught there. -/
def prefValue (dev : Device) (dataType value : Option String) : Option PrefValue :=
  match dataType with
  | none => none
  | some dataType =>
    if dataType = DataType.TEXT then some (.string value)
    else if dataType = DataType.INTEGER then (value.bind integerValueOf).map .int
    else if dataType = DataType.LONG then (value.bind longValueOf).map .long
    else if dataType = DataType.FLOAT then (value.bind dev.floatValueOf).map .float
    else if dataType = DataType.BOOLEAN then some (.boolean (booleanValueOf value))
    else if dataType = DataType.STRING_SET then (value.bind dev.jsonStrings).map .stringSet
    else some (.string value)

/-- isSuccessful, and the edit with the preferences it is applied to. -/
def addOrUpdateRow (dev : Device) (tableName : Option String)
    (rowDataRequests : Option (List (Option RowDataRequest))) :
    Except JavaException (Bool × Option (String × Edit)) :=
  match tableName, rowDataRequests with
  | none, _ => .ok (false, none)
  | some _, none => .error .nullPointer
  | some tableName, some (some rowDataKey :: some rowDataValue :: _) =>
    if !dev.validName tableName then .error .illegalArgument
    else match prefValue dev rowDataValue.dataType (nulled rowDataValue.value) with
    | none => .ok (false, none)
    | some value => .ok (true, some (tableName, .put rowDataKey.value value))
  | some _, some (_ :: _ :: _) => .error .nullPointer
  | some _, some _ => .error .indexOutOfBounds

def deleteRow (dev : Device) (tableName : Option String)
    (rowDataRequests : Option (List (Option RowDataRequest))) :
    Except JavaException (Bool × Option (String × Edit)) :=
  match tableName, rowDataRequests with
  | none, _ => .ok (false, none)
  | some _, none => .error .nullPointer
  | some tableName, some (some rowDataKey :: _) =>
    if !dev.validName tableName then .error .illegalArgument
    else .ok (true, some (tableName, .remove rowDataKey.value))
  | some _, some (none :: _) => .error .nullPointer
  | some _, some [] => .error .indexOutOfBounds

/-- A value of the type is read from the text. -/
def Readable (dev : Device) (dataType value : Option String) : Prop :=
  ∃ t, dataType = some t ∧
    (t = DataType.INTEGER → ∃ n, value.bind integerValueOf = some n) ∧
    (t = DataType.LONG → ∃ n, value.bind longValueOf = some n) ∧
    (t = DataType.FLOAT → ∃ n, value.bind dev.floatValueOf = some n) ∧
    (t = DataType.STRING_SET → ∃ l, value.bind dev.jsonStrings = some l)

theorem exists_map_eq_some {α β : Type*} (f : α → β) (o : Option α) :
    (∃ v, o.map f = some v) ↔ ∃ n, o = some n := by
  cases o <;> simp

theorem prefValue_isSome_iff (dev : Device) (dataType value : Option String) :
    (∃ v, prefValue dev dataType value = some v) ↔ Readable dev dataType value := by
  have hkinds : [DataType.TEXT, DataType.INTEGER, DataType.LONG, DataType.FLOAT, DataType.BOOLEAN,
    DataType.STRING_SET].Nodup := by decide
  cases dataType with
  | none => simp [prefValue, Readable]
  | some t =>
    simp only [prefValue, Readable, Option.some.injEq, exists_eq_left']
    split_ifs <;> try rw [exists_map_eq_some]
    all_goals grind

theorem addOrUpdateRow_edits_iff (dev : Device) (tableName : Option String)
    (rows : Option (List (Option RowDataRequest))) (name : String) :
    (∃ ok e, addOrUpdateRow dev tableName rows = .ok (ok, some (name, e))) ↔
      tableName = some name ∧ dev.validName name ∧
        ∃ key value rest, rows = some (some key :: some value :: rest) ∧
          Readable dev value.dataType (nulled value.value) := by
  cases tableName with
  | none => simp [addOrUpdateRow]
  | some t =>
    match rows with
    | none => simp [addOrUpdateRow]
    | some [] => simp [addOrUpdateRow]
    | some [_] => simp [addOrUpdateRow]
    | some (none :: _ :: _) => simp [addOrUpdateRow]
    | some (some _ :: none :: _) => simp [addOrUpdateRow]
    | some (some key :: some value :: rest) =>
      have hread := prefValue_isSome_iff dev value.dataType (nulled value.value)
      cases hname : dev.validName t with
      | false =>
        have hother : t = name → ¬ dev.validName name := fun h => by simp [← h, hname]
        simpa [addOrUpdateRow, hname] using fun h hvalid => absurd hvalid (hother h)
      | true =>
        cases hv : prefValue dev value.dataType (nulled value.value) with
        | none =>
          have hunread : ¬ Readable dev value.dataType (nulled value.value) := by
            simpa [hv] using hread
          simp [addOrUpdateRow, hname, hv, hunread]
        | some v =>
          have hreadable := hread.mp ⟨v, hv⟩
          have hvalid : t = name → dev.validName name := fun h => h ▸ hname
          simpa [addOrUpdateRow, hname, hv, hreadable] using hvalid

theorem deleteRow_edits_iff (dev : Device) (tableName : Option String)
    (rows : Option (List (Option RowDataRequest))) (name : String) :
    (∃ ok e, deleteRow dev tableName rows = .ok (ok, some (name, e))) ↔
      tableName = some name ∧ dev.validName name ∧ ∃ key rest, rows = some (some key :: rest) := by
  cases tableName with
  | none => simp [deleteRow]
  | some t =>
    match rows with
    | none => simp [deleteRow]
    | some [] => simp [deleteRow]
    | some (none :: _) => simp [deleteRow]
    | some (some key :: rest) =>
      cases hname : dev.validName t with
      | false =>
        have hother : t = name → ¬ dev.validName name := fun h => by simp [← h, hname]
        simpa [deleteRow, hname] using hother
      | true =>
        have hvalid : t = name → dev.validName name := fun h => h ▸ hname
        simpa [deleteRow, hname] using hvalid

end PrefHelper
