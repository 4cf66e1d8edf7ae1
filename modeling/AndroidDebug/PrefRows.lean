import AndroidDebug.PrefHelper
import AndroidDebug.OrgJson
import Mathlib.Data.List.AList

/-! A displayed preference that is sent back as it was shown. -/
namespace PrefRows

open JavaText DatabaseHelper PrefHelper

/-- The contents of a preferences file. No text in it is null: storing one removes the key. -/
structure Preferences where
  entries : AList fun _ : Option String => PrefValue
  stored : ∀ key, entries.lookup key ≠ some (.string none)

namespace Preferences

variable (p : Preferences)

def remove (key : Option String) : Preferences where
  entries := p.entries.erase key
  stored k := by
    by_cases h : k = key
    · rw [h, AList.lookup_erase]
      simp
    · rw [AList.lookup_erase_ne h]
      exact p.stored k

def put (key : Option String) (value : PrefValue) (hvalue : value ≠ .string none) :
    Preferences where
  entries := p.entries.insert key value
  stored k := by
    by_cases h : k = key
    · rw [h, AList.lookup_insert]
      simpa using hvalue
    · rw [AList.lookup_insert_ne h]
      exact p.stored k

def apply : Edit → Preferences
  | .put key value => if h : value = .string none then p.remove key else p.put key value h
  | .remove key => p.remove key

end Preferences

/-! What is shown. -/

/-- `Integer.toString` -/
def intToString (n : Int32) : String := longToString n.toInt64

/-- `AbstractCollection.toString`, over the elements in the order of the set's iterator. -/
def setToString (values : List String) : String := "[" ++ joined values ++ "]"
where
  joined : List String → String
    | [] => ""
    | [s] => s
    | s :: t :: rest => s ++ ", " ++ joined (t :: rest)

def tableInfos : List TableInfo := [⟨some "Key", true⟩, ⟨some "Value", false⟩]

section Shown

variable (floatToString : UInt32 → String)

def valueColumnData : PrefValue → Except JavaException ColumnData
  | .string none => .error .nullPointer
  | .string (some s) => .ok ⟨DataType.TEXT, some s⟩
  | .int n => .ok ⟨DataType.INTEGER, some (intToString n)⟩
  | .long n => .ok ⟨DataType.LONG, some (longToString n)⟩
  | .float bits => .ok ⟨DataType.FLOAT, some (floatToString bits)⟩
  | .boolean b => .ok ⟨DataType.BOOLEAN, some (if b then "true" else "false")⟩
  | .stringSet values => .ok ⟨DataType.STRING_SET, some (setToString values)⟩

def row (entry : Sigma fun _ : Option String => PrefValue) :
    Except JavaException (List ColumnData) := do
  let value ← valueColumnData floatToString entry.2
  return [⟨DataType.TEXT, entry.1⟩, value]

def getAllPrefData (dev : Device) (tag : String) (p : Preferences) :
    Except JavaException (List (List ColumnData)) :=
  if !dev.validName tag then .error .illegalArgument
  else p.entries.entries.mapM (row floatToString)

end Shown

/-! What is sent back. -/

/-- The cells of a row as a request for the same row. -/
def sendBack (cells : List ColumnData) : List (Option RowDataRequest) :=
  List.zipWith (fun info cell => some ⟨info.title, info.isPrimary, some cell.dataType, cell.value⟩)
    tableInfos cells

def resaved (dev : Device) (tag : String) (p : Preferences) (cells : List ColumnData) :
    Preferences :=
  match addOrUpdateRow dev (some tag) (some (sendBack cells)) with
  | .ok (_, some (_, e)) => p.apply e
  | _ => p

/-- Sets are compared by their elements. -/
def SameValue : PrefValue → PrefValue → Prop
  | .stringSet a, .stringSet b => ∀ s, s ∈ a ↔ s ∈ b
  | a, b => a = b

def SameEntry : Option PrefValue → Option PrefValue → Prop
  | some a, some b => SameValue a b
  | none, none => True
  | _, _ => False

def Unchanged (p q : Preferences) : Prop :=
  ∀ key, SameEntry (p.entries.lookup key) (q.entries.lookup key)

def jsonStrings (printer : OrgJson.Printer) (s : String) : Option (List String) :=
  (OrgJson.strings printer (ofString s)).map fun values => values.map toText

/-- The text is not the null marker, and the list that the set is shown as is no array of other
strings. -/
def Kept (printer : OrgJson.Printer) : PrefValue → Prop
  | .string s => s ≠ some NULL
  | .stringSet values => ∀ read, jsonStrings printer (setToString values) = some read →
      ∀ s, s ∈ values ↔ s ∈ read
  | _ => True

variable {dev : Device} {printer : OrgJson.Printer} {floatToString : UInt32 → String}
variable {tag : String} {p : Preferences} {key : Option String} {v w : PrefValue}

theorem SameValue.refl (v : PrefValue) : SameValue v v := by
  cases v <;> simp [SameValue]

theorem SameEntry.refl (o : Option PrefValue) : SameEntry o o := by
  cases o with
  | none => trivial
  | some v => exact SameValue.refl v

theorem unchanged_remove (h : p.entries.lookup key = some v) : ¬Unchanged p (p.remove key) := by
  intro hsame
  have hkey := hsame key
  rw [h, Preferences.remove, AList.lookup_erase] at hkey
  exact hkey

theorem unchanged_put (h : p.entries.lookup key = some v) (hw : w ≠ .string none) :
    Unchanged p (p.put key w hw) ↔ SameValue v w := by
  constructor
  · intro hsame
    have hkey := hsame key
    rw [h, Preferences.put, AList.lookup_insert] at hkey
    exact hkey
  · intro hvalue k
    by_cases hk : k = key
    · rw [hk, h, Preferences.put, AList.lookup_insert]
      exact hvalue
    · rw [Preferences.put, AList.lookup_insert_ne hk]
      exact SameEntry.refl _

theorem integerValueOf_intToString (n : Int32) : integerValueOf (intToString n) = some n := by
  have hlo := n.le_toInt
  have hhi := n.toInt_lt
  rw [integerValueOf, parseInt, intToString, parseSigned_longToString, Int32.toInt_toInt64,
    inRange, if_pos ⟨hlo, by omega⟩]
  simp

theorem booleanValueOf_text (b : Bool) :
    booleanValueOf (some (if b then "true" else "false")) = b := by
  cases b <;> decide +kernel

theorem prefValue_integer (value : Option String) :
    prefValue dev (some DataType.INTEGER) value = (value.bind integerValueOf).map .int := rfl

theorem prefValue_long (value : Option String) :
    prefValue dev (some DataType.LONG) value = (value.bind longValueOf).map .long := rfl

theorem prefValue_boolean (value : Option String) :
    prefValue dev (some DataType.BOOLEAN) value = some (.boolean (booleanValueOf value)) := rfl

theorem setToString_ne (values : List String) : setToString values ≠ NULL := by
  intro h
  have hhead := congrArg (fun s : String => s.toList.head?) h
  simp [setToString, NULL] at hhead

theorem resaved_eq (hname : dev.validName tag = true) (cell : ColumnData) :
    resaved dev tag p [⟨DataType.TEXT, key⟩, cell] =
      match prefValue dev (some cell.dataType) (nulled cell.value) with
      | none => p
      | some value => p.apply (.put key value) := by
  unfold resaved addOrUpdateRow sendBack tableInfos
  simp only [List.zipWith_cons_cons, List.zipWith_nil_left, hname]
  cases prefValue dev (some cell.dataType) (nulled cell.value) <;> rfl

/-- A cell that is read back as the value itself leaves all as it is. -/
theorem unchanged_of_prefValue (hname : dev.validName tag = true) {cell : ColumnData}
    (h : p.entries.lookup key = some v)
    (hread : prefValue dev (some cell.dataType) (nulled cell.value) = some v) :
    Unchanged p (resaved dev tag p [⟨DataType.TEXT, key⟩, cell]) := by
  have hv : v ≠ .string none := fun hnone => p.stored key (hnone ▸ h)
  rw [resaved_eq hname, hread]
  simp only [Preferences.apply, dif_neg hv]
  exact (unchanged_put h hv).mpr (SameValue.refl v)

theorem resaved_string_iff (hname : dev.validName tag = true) {s : String}
    (h : p.entries.lookup key = some (.string (some s))) :
    Unchanged p (resaved dev tag p [⟨DataType.TEXT, key⟩, ⟨DataType.TEXT, some s⟩]) ↔ s ≠ NULL := by
  by_cases hs : s = NULL
  · have hread : prefValue dev (some DataType.TEXT) (nulled (some s)) = some (.string none) := by
      rw [hs]
      rfl
    rw [resaved_eq hname, hread]
    simp only [Preferences.apply, dif_pos]
    exact iff_of_false (unchanged_remove h) (not_not.mpr hs)
  · have hread : prefValue dev (some DataType.TEXT) (nulled (some s)) =
        some (.string (some s)) := by
      rw [nulled_of_ne hs]
      rfl
    exact iff_of_true (unchanged_of_prefValue hname h hread) hs

theorem resaved_set_iff (hname : dev.validName tag = true)
    (hjson : dev.jsonStrings = jsonStrings printer) {values : List String}
    (h : p.entries.lookup key = some (.stringSet values)) :
    Unchanged p (resaved dev tag p
        [⟨DataType.TEXT, key⟩, ⟨DataType.STRING_SET, some (setToString values)⟩]) ↔
      Kept printer (.stringSet values) := by
  have hread : prefValue dev (some DataType.STRING_SET) (nulled (some (setToString values))) =
      (jsonStrings printer (setToString values)).map .stringSet := by
    rw [nulled_of_ne (setToString_ne values), ← hjson]
    rfl
  rw [resaved_eq hname, hread, Kept]
  cases jsonStrings printer (setToString values) with
  | none => exact iff_of_true (fun k => SameEntry.refl _) (by simp)
  | some read =>
    have hset : PrefValue.stringSet read ≠ .string none := by simp
    simp only [Option.map_some, Preferences.apply, dif_neg hset]
    rw [unchanged_put h hset]
    simp [SameValue]

theorem mem_of_mapM {α β ε : Type} {f : α → Except ε β} {l : List α} {m : List β} {a : α}
    (h : l.mapM f = .ok m) (ha : a ∈ l) : ∃ b ∈ m, f a = .ok b := by
  induction l generalizing m with
  | nil => cases ha
  | cons x l ih =>
    rw [List.mapM_cons] at h
    cases hx : f x with
    | error e => simp [hx] at h; cases h
    | ok y =>
      cases hl : l.mapM f with
      | error e => rw [hx, hl] at h; cases h
      | ok ys =>
        rw [hx, hl] at h
        cases h
        rcases List.mem_cons.mp ha with rfl | ha
        · exact ⟨y, List.mem_cons_self .., hx⟩
        · obtain ⟨b, hb, hfb⟩ := ih hl ha
          exact ⟨b, List.mem_cons_of_mem y hb, hfb⟩

theorem ofString_setToString (values : List String) :
    ofString (setToString values) =
      OrgJson.unit '[' :: (OrgJson.listed (values.map ofString) ++ [OrgJson.unit ']']) := by
  have hjoined : ofString (setToString.joined values) = OrgJson.listed (values.map ofString) := by
    induction values with
    | nil => rfl
    | cons s rest ih =>
      cases rest with
      | nil => rfl
      | cons t rest =>
        rw [setToString.joined, ofString_append, ofString_append, ih, List.append_assoc]
        rfl
  rw [setToString, ofString_append, ofString_append, hjoined, List.append_assoc]
  rfl

/-- A set of words is read back as it is. -/
theorem kept_of_words {values : List String}
    (h : ∀ s ∈ values, OrgJson.IsWord printer (ofString s)) :
    Kept printer (.stringSet values) := by
  have hwords : ∀ w ∈ values.map ofString, OrgJson.IsWord printer w := by
    intro w hw
    obtain ⟨s, hs, rfl⟩ := List.mem_map.mp hw
    exact h s hs
  have htexts : (values.map ofString).map toText = values := by
    rw [List.map_map]
    conv_rhs => rw [← List.map_id values]
    exact List.map_congr_left fun s _ => toText_ofString s
  intro read hread s
  rw [jsonStrings, ofString_setToString, OrgJson.strings_words hwords, Option.map_some, htexts,
    Option.some.injEq] at hread
  rw [hread]

/-- Sending a row back as it is shown changes nothing exactly when the value's text stands for
the value. -/
theorem resaved_unchanged_iff (dev : Device) (printer : OrgJson.Printer)
    (floatToString : UInt32 → String) (tag : String) (p : Preferences)
    (rows : List (List ColumnData)) (key : Option String) (v : PrefValue)
    (hjson : dev.jsonStrings = jsonStrings printer)
    (hshown : getAllPrefData floatToString dev tag p = .ok rows)
    (hentry : p.entries.lookup key = some v) (hfloat : ∀ bits, v ≠ .float bits) :
    ∃ cells ∈ rows, row floatToString ⟨key, v⟩ = .ok cells ∧
      (Unchanged p (resaved dev tag p cells) ↔ Kept printer v) := by
  unfold getAllPrefData at hshown
  split at hshown
  · cases hshown
  · rename_i hname
    replace hname : dev.validName tag = true := by simpa using hname
    obtain ⟨cells, hcells, hrow⟩ := mem_of_mapM hshown (AList.mem_lookup_iff.mp hentry)
    refine ⟨cells, hcells, hrow, ?_⟩
    cases v with
    | string s =>
      cases s with
      | none => exact absurd hentry (p.stored key)
      | some s =>
        cases hrow
        rw [resaved_string_iff hname hentry, Kept]
        simp
    | int n =>
      cases hrow
      apply iff_of_true _ trivial
      apply unchanged_of_prefValue hname hentry
      rw [prefValue_integer, intToString, nulled_of_ne (longToString_ne_null _), ← intToString,
        Option.bind_some, integerValueOf_intToString, Option.map_some]
    | long n =>
      cases hrow
      apply iff_of_true _ trivial
      apply unchanged_of_prefValue hname hentry
      rw [prefValue_long, nulled_of_ne (longToString_ne_null _), Option.bind_some,
        longValueOf_longToString, Option.map_some]
    | float bits => exact absurd rfl (hfloat bits)
    | boolean b =>
      cases hrow
      apply iff_of_true _ trivial
      apply unchanged_of_prefValue hname hentry
      have hne : (if b then "true" else "false") ≠ NULL := by cases b <;> decide
      rw [prefValue_boolean, nulled_of_ne hne, booleanValueOf_text]
    | stringSet values =>
      cases hrow
      exact resaved_set_iff hname hjson hentry

def single (v : PrefValue) (hv : v ≠ .string none) : Preferences :=
  (⟨∅, by simp⟩ : Preferences).put (some "k") v hv

/-- A printer for texts without numbers. -/
def words : OrgJson.Printer := ⟨fun _ => none, fun _ => true, fun _ => none⟩

def reader : Device := ⟨fun _ => none, jsonStrings words, fun _ => true⟩

theorem resaved_unchanged_int :
    ∃ cells ∈ [[⟨DataType.TEXT, some "k"⟩, ⟨DataType.INTEGER, some "42"⟩]],
      row (fun _ => "") ⟨some "k", .int 42⟩ = .ok cells ∧
        (Unchanged (single (.int 42) (by simp))
            (resaved reader "prefs" (single (.int 42) (by simp)) cells) ↔
          Kept words (.int 42)) :=
  resaved_unchanged_iff reader words (fun _ => "") "prefs" (single (.int 42) (by simp)) _
    (some "k") (.int 42) rfl (by decide +kernel) (by decide +kernel) (by simp)

/-- The text null is removed, and one element with a comma becomes two. -/
theorem resaved_changes :
    (getAllPrefData (fun _ => "") reader "prefs" (single (.string (some "null")) (by simp)) =
        .ok [[⟨DataType.TEXT, some "k"⟩, ⟨DataType.TEXT, some "null"⟩]] ∧
      ¬Unchanged (single (.string (some "null")) (by simp))
        (resaved reader "prefs" (single (.string (some "null")) (by simp))
          [⟨DataType.TEXT, some "k"⟩, ⟨DataType.TEXT, some "null"⟩])) ∧
    (getAllPrefData (fun _ => "") reader "prefs" (single (.stringSet ["a, b"]) (by simp)) =
        .ok [[⟨DataType.TEXT, some "k"⟩, ⟨DataType.STRING_SET, some "[a, b]"⟩]] ∧
      ¬Unchanged (single (.stringSet ["a, b"]) (by simp))
        (resaved reader "prefs" (single (.stringSet ["a, b"]) (by simp))
          [⟨DataType.TEXT, some "k"⟩, ⟨DataType.STRING_SET, some "[a, b]"⟩])) := by
  refine ⟨⟨by decide +kernel, ?_⟩, ⟨by decide +kernel, ?_⟩⟩
  · intro h
    have hkey := h (some "k")
    have hbefore : (single (.string (some "null")) (by simp)).entries.lookup (some "k") =
        some (.string (some "null")) := by decide +kernel
    have hafter : (resaved reader "prefs" (single (.string (some "null")) (by simp))
        [⟨DataType.TEXT, some "k"⟩, ⟨DataType.TEXT, some "null"⟩]).entries.lookup (some "k") =
        none := by decide +kernel
    rw [hbefore, hafter] at hkey
    exact hkey
  · intro h
    have hkey := h (some "k")
    have hbefore : (single (.stringSet ["a, b"]) (by simp)).entries.lookup (some "k") =
        some (.stringSet ["a, b"]) := by decide +kernel
    have hafter : (resaved reader "prefs" (single (.stringSet ["a, b"]) (by simp))
        [⟨DataType.TEXT, some "k"⟩, ⟨DataType.STRING_SET, some "[a, b]"⟩]).entries.lookup
          (some "k") = some (.stringSet ["a", "b"]) := by decide +kernel
    rw [hbefore, hafter] at hkey
    exact absurd ((hkey "a").mpr (by simp)) (by simp)

end PrefRows
