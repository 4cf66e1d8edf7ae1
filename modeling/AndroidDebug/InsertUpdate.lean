import AndroidDebug.DatabaseHelper

/-! What addRow and updateRow put for the same cells, none of them a key. The two have a copy each
of the switch over the data types. -/
namespace InsertUpdate

open CheckedFold JavaText DatabaseHelper

structure Cell where
  title : String
  dataType : String
  value : String
  deriving DecidableEq, Repr

def Cell.request (c : Cell) : Option RowDataRequest :=
  some ⟨some c.title, false, some c.dataType, some c.value⟩

section Stored

variable (p : Platform)

def addValues (cells : List Cell) : Except JavaException ContentValues :=
  (cells.map Cell.request).foldlM (gatherValues p) []

def updateValues (cells : List Cell) : Except JavaException ContentValues :=
  ((cells.map Cell.request).foldlM (gather p) ⟨[], none, []⟩).map Gathered.contentValues

/-- What is to be stored for a cell: nothing can be for a number that cannot be read. -/
def stored (c : Cell) : Option Value :=
  if c.value = NULL then some .null
  else if c.dataType = DataType.INTEGER then (longValueOf c.value).map .integer
  else if c.dataType = DataType.REAL then (p.doubleValueOf c.value).map .real
  else some (.text c.value)

def puts (cells : List Cell) (values : List Value) : ContentValues :=
  ((cells.map Cell.title).zip values).reverse

/-- Both put every cell, with the value that is to be stored, or both fail and nothing runs
because that of some cell cannot be. -/
def StoredAlike (tableName : String) (cells : List Cell) : Prop :=
  (∃ values, cells.map (stored p) = values.map some ∧
    addValues p cells = .ok (puts cells values) ∧
      updateValues p cells = .ok (puts cells values)) ∨
  (∃ c ∈ cells, stored p c = none) ∧
    (∃ e, addRow p (some tableName) (some (cells.map Cell.request)) = .error e) ∧
      ∃ e, updateRow p (some tableName) (some (cells.map Cell.request)) = .error e

/-- The two switches have a branch of their own for the type, and a null is not read as a
number. -/
def Cell.Fits (c : Cell) : Prop :=
  SetType (some c.dataType) ∧ (c.value = NULL → c.dataType = DataType.TEXT)

end Stored

variable {p : Platform} {tableName : String} {cells : List Cell} {c : Cell}

instance (dataType : Option String) : Decidable (SetType dataType) :=
  inferInstanceAs (Decidable (_ ∨ _ ∨ _))

def putOf (p : Platform) (contentValues : ContentValues) (c : Cell) :
    Except JavaException ContentValues :=
  putCell p contentValues c.title (some c.dataType) (nulled (some c.value))

/-- Without keys the loop of updateRow is the loop over its switch. -/
theorem foldlM_gather (g : Gathered) : (cells.map Cell.request).foldlM (gather p) g =
    (cells.foldlM (putOf p) g.contentValues).map fun contentValues => { g with contentValues } := by
  induction cells generalizing g with
  | nil => rfl
  | cons c cells ih =>
    have hstep : gather p g c.request =
        (putOf p g.contentValues c).map fun contentValues => { g with contentValues } := rfl
    rw [List.map_cons, List.foldlM_cons, List.foldlM_cons, hstep]
    cases putOf p g.contentValues c with
    | error e => rfl
    | ok contentValues => exact ih { g with contentValues }

theorem updateValues_eq : updateValues p cells = cells.foldlM (putOf p) [] := by
  rw [updateValues, foldlM_gather]
  cases cells.foldlM (putOf p) [] <;> rfl

theorem addRow_values : addRow p (some tableName) (some (cells.map Cell.request)) =
    (addValues p cells).map fun contentValues =>
      (true, some (.insert (getQuotedTableName tableName) contentValues)) := by
  rw [addRow, addValues]
  cases (cells.map Cell.request).foldlM (gatherValues p) [] <;> rfl

theorem updateRow_values : updateRow p (some tableName) (some (cells.map Cell.request)) =
    (updateValues p cells).bind fun contentValues =>
      if contentValues = [] then .error .illegalArgument
      else .ok (true, some ⟨getQuotedTableName tableName, contentValues, none, []⟩) := by
  rw [updateRow, foldlM_gather, updateValues_eq]
  cases cells.foldlM (putOf p) [] <;> rfl

/-! One cell. -/

theorem nulled_null : nulled (some NULL) = none := if_pos rfl

theorem integer_ne_text : DataType.INTEGER ≠ DataType.TEXT := by decide

theorem real_ne_text : DataType.REAL ≠ DataType.TEXT := by decide

theorem real_ne_integer : DataType.REAL ≠ DataType.INTEGER := by decide

theorem putOf_fits (hfits : c.Fits) {v : Value} (hstored : stored p c = some v)
    (contentValues : ContentValues) :
    putOf p contentValues c = .ok ((c.title, v) :: contentValues) := by
  obtain ⟨hset, hnull⟩ := hfits
  rw [SetType, Option.some.injEq, Option.some.injEq, Option.some.injEq] at hset
  rcases hset with hint | hreal | htext
  · have hvalue : c.value ≠ NULL := fun h => integer_ne_text (hint.symm.trans (hnull h))
    rw [stored, if_neg hvalue, if_pos hint, Option.map_eq_some_iff] at hstored
    obtain ⟨n, hn, rfl⟩ := hstored
    simp [putOf, putCell, nulled_of_ne hvalue, hint, hn]
  · have hvalue : c.value ≠ NULL := fun h => real_ne_text (hreal.symm.trans (hnull h))
    have hne : c.dataType ≠ DataType.INTEGER := fun h => real_ne_integer (hreal.symm.trans h)
    rw [stored, if_neg hvalue, if_neg hne, if_pos hreal, Option.map_eq_some_iff] at hstored
    obtain ⟨d, hd, rfl⟩ := hstored
    simp [putOf, putCell, nulled_of_ne hvalue, hreal, real_ne_integer, hd]
  · have hint : c.dataType ≠ DataType.INTEGER := fun h => integer_ne_text (h.symm.trans htext)
    have hreal : c.dataType ≠ DataType.REAL := fun h => real_ne_text (h.symm.trans htext)
    rw [putOf, putCell_other p hint hreal, if_pos htext]
    by_cases hvalue : c.value = NULL
    · rw [stored, if_pos hvalue, Option.some.injEq] at hstored
      rw [hvalue, nulled_null, ← hstored]
      rfl
    · rw [stored, if_neg hvalue, if_neg hint, if_neg hreal, Option.some.injEq] at hstored
      rw [nulled_of_ne hvalue, ← hstored]
      rfl

theorem gatherValues_fits (hfits : c.Fits) (contentValues : ContentValues) :
    gatherValues p contentValues c.request = putOf p contentValues c := by
  have hset : c.dataType = DataType.INTEGER ∨ c.dataType = DataType.REAL ∨
      c.dataType = DataType.TEXT := by
    have h := hfits.1
    rwa [SetType, Option.some.injEq, Option.some.injEq, Option.some.injEq] at h
  simp only [gatherValues, Cell.request, addCell, if_pos hset]
  rfl

/-- A number that cannot be read is refused. -/
theorem not_convertible (h : stored p c = none) :
    ¬Convertible p (some c.dataType) (nulled (some c.value)) := by
  rintro ⟨t, ht, hint, hreal⟩
  obtain rfl := Option.some.inj ht
  rw [stored] at h
  split at h
  · cases h
  next hvalue =>
    rw [nulled_of_ne hvalue] at hint hreal
    split at h
    next htype =>
      obtain ⟨n, hn⟩ := hint htype
      rw [Option.bind_some] at hn
      rw [hn] at h
      cases h
    next =>
      split at h
      next htype =>
        obtain ⟨d, hd⟩ := hreal htype
        rw [Option.bind_some] at hd
        rw [hd] at h
        cases h
      next => cases h

theorem fits_of_convertible (hset : SetType (some c.dataType))
    (h : Convertible p (some c.dataType) (nulled (some c.value))) : c.Fits := by
  refine ⟨hset, fun hvalue => ?_⟩
  obtain ⟨t, ht, hint, hreal⟩ := h
  obtain rfl := Option.some.inj ht
  rw [hvalue, nulled_null] at hint hreal
  rw [SetType, Option.some.injEq, Option.some.injEq, Option.some.injEq] at hset
  rcases hset with htype | htype | htype
  · obtain ⟨n, hn⟩ := hint htype
    cases hn
  · obtain ⟨d, hd⟩ := hreal htype
    cases hd
  · exact htype

/-- A cell is put or left out by its type. -/
theorem length_putOf {contentValues after : ContentValues}
    (h : putOf p contentValues c = .ok after) :
    after.length = contentValues.length + if SetType (some c.dataType) then 1 else 0 := by
  rw [putOf] at h
  by_cases hint : c.dataType = DataType.INTEGER
  · have hset : SetType (some c.dataType) := Or.inl (congrArg some hint)
    rw [if_pos hset]
    cases hvalue : (nulled (some c.value)).bind longValueOf with
    | none => simp [putCell, hint, hvalue] at h
    | some n =>
      simp only [putCell, hint, if_true, hvalue, Except.ok.injEq] at h
      rw [← h, List.length_cons]
  · by_cases hreal : c.dataType = DataType.REAL
    · have hset : SetType (some c.dataType) := Or.inr (Or.inl (congrArg some hreal))
      rw [if_pos hset]
      cases hvalue : nulled (some c.value) with
      | none => simp [putCell, hreal, real_ne_integer, hvalue] at h
      | some s =>
        cases hd : p.doubleValueOf s with
        | none => simp [putCell, hreal, real_ne_integer, hvalue, hd] at h
        | some d =>
          simp only [putCell, hreal, real_ne_integer, if_false, if_true, hvalue, hd,
            Except.ok.injEq] at h
          rw [← h, List.length_cons]
    · rw [putCell_other p hint hreal, Except.ok.injEq] at h
      have hset : SetType (some c.dataType) ↔ c.dataType = DataType.TEXT := by
        simp [SetType, hint, hreal]
      by_cases htext : c.dataType = DataType.TEXT
      · rw [if_pos htext] at h
        rw [if_pos (hset.mpr htext), ← h, List.length_cons]
      · rw [if_neg htext] at h
        rw [if_neg fun h => htext (hset.mp h), ← h]
        rfl

/-! All cells. -/

theorem length_foldlM {contentValues after : ContentValues}
    (h : cells.foldlM (putOf p) contentValues = .ok after) :
    after.length = contentValues.length + cells.countP fun c => SetType (some c.dataType) := by
  induction cells generalizing contentValues with
  | nil =>
    obtain rfl := Except.ok.inj h
    rfl
  | cons c cells ih =>
    obtain ⟨next, hfirst, hrest⟩ := foldlM_cons_ok_iff.mp h
    rw [ih hrest, length_putOf hfirst, List.countP_cons]
    simp only [decide_eq_true_eq]
    omega

theorem addValues_ok_iff : (∃ contentValues, addValues p cells = .ok contentValues) ↔
    ∀ c ∈ cells, Convertible p (some c.dataType) (nulled (some c.value)) := by
  rw [addValues, foldlM_ok_iff (gatherValues_ok_iff p), List.forall_mem_map]
  simp [Cell.request]

theorem updateValues_ok_iff : (∃ contentValues, updateValues p cells = .ok contentValues) ↔
    ∀ c ∈ cells, Convertible p (some c.dataType) (nulled (some c.value)) := by
  have hstep : ∀ contentValues c, (∃ after, putOf p contentValues c = .ok after) ↔
      Convertible p (some c.dataType) (nulled (some c.value)) :=
    fun contentValues c => putCell_ok_iff p contentValues c.title _ _
  rw [updateValues_eq, foldlM_ok_iff hstep]

theorem error_of_not_ok {ε α : Type*} {x : Except ε α} (h : ¬∃ a, x = .ok a) :
    ∃ e, x = .error e := by
  cases x with
  | error e => exact ⟨e, rfl⟩
  | ok a => exact absurd ⟨a, rfl⟩ h

/-- The two put the same values or fail both, just when some number cannot be read or every cell
is of a type that both switches know and a null is a text. -/
theorem storedAlike_iff : StoredAlike p tableName cells ↔
    (∃ c ∈ cells, stored p c = none) ∨ ∀ c ∈ cells, c.Fits := by
  constructor
  · rintro (⟨values, hvalues, -, hupdate⟩ | ⟨hunread, -⟩)
    · right
      have hconvertible := updateValues_ok_iff.mp ⟨_, hupdate⟩
      rw [updateValues_eq] at hupdate
      have hlength := length_foldlM hupdate
      have hsame := congrArg List.length hvalues
      rw [List.length_map, List.length_map] at hsame
      rw [puts, List.length_reverse, List.length_zip, List.length_map, ← hsame, Nat.min_self,
        List.length_nil, Nat.zero_add, eq_comm, List.countP_eq_length] at hlength
      intro c hc
      exact fits_of_convertible (of_decide_eq_true (hlength c hc)) (hconvertible c hc)
    · exact Or.inl hunread
  · intro h
    by_cases hunread : ∃ c ∈ cells, stored p c = none
    · right
      have hnot : ¬∀ c ∈ cells, Convertible p (some c.dataType) (nulled (some c.value)) := by
        obtain ⟨c, hc, hnone⟩ := hunread
        exact fun hall => not_convertible hnone (hall c hc)
      obtain ⟨e, hadd⟩ := error_of_not_ok fun hok => hnot (addValues_ok_iff.mp hok)
      obtain ⟨e', hupdate⟩ := error_of_not_ok fun hok => hnot (updateValues_ok_iff.mp hok)
      refine ⟨hunread, ⟨e, ?_⟩, e', ?_⟩
      · rw [addRow_values, hadd]
        rfl
      · rw [updateRow_values, hupdate]
        rfl
    · left
      have hfits := h.resolve_left hunread
      have hread : ∀ c ∈ cells, stored p c = some ((stored p c).getD .null) := by
        intro c hc
        cases hvalue : stored p c with
        | none => exact absurd ⟨c, hc, hvalue⟩ hunread
        | some v => rfl
      have hput : ∀ c ∈ cells, ∀ contentValues, putOf p contentValues c =
          .ok ((c.title, (stored p c).getD .null) :: contentValues) :=
        fun c hc => putOf_fits (hfits c hc) (hread c hc)
      refine ⟨cells.map fun c => (stored p c).getD .null, ?_, ?_, ?_⟩
      · rw [List.map_map]
        exact List.map_congr_left hread
      · rw [addValues, List.foldlM_map, foldlM_puts fun c hc contentValues =>
          (gatherValues_fits (hfits c hc) contentValues).trans (hput c hc contentValues)]
        rw [puts, List.zip_map', List.append_nil]
      · rw [updateValues_eq, foldlM_puts hput, puts, List.zip_map', List.append_nil]

/-- A platform without doubles. -/
def noDoubles : Platform := ⟨fun _ => "", fun _ => none, fun _ => none⟩

def numCells : List Cell := [⟨"id", "integer", "1"⟩, ⟨"size", "num", "7"⟩]

/-- The insert stores the size as a text, the update leaves it out. -/
theorem num_cell_left_out : ¬StoredAlike noDoubles "t" numCells := by
  have hupdate : updateValues noDoubles numCells = .ok [("id", .integer 1)] := by decide +kernel
  rintro (⟨values, hvalues, -, hsame⟩ | ⟨-, -, e, herror⟩)
  · rw [hupdate, Except.ok.injEq] at hsame
    have hlength := congrArg List.length hvalues
    have hputs := congrArg List.length hsame
    rw [puts, List.length_reverse, List.length_zip] at hputs
    simp only [List.length_map, numCells, List.length_cons, List.length_nil] at hlength hputs
    omega
  · rw [updateRow_values, hupdate] at herror
    cases herror

end InsertUpdate
