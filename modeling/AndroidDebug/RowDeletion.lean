import AndroidDebug.RowEditing

/-! Deleting one row of a table through the page: getTableData shows it, the page sends the texts of
its dialog back, and deleteRow runs one DELETE. -/
namespace RowDeletion

open CheckedFold JavaText SqlUpdate DatabaseHelper RowForm RowEditing

section Deletion

variable (w : Surroundings)

structure ShownRow (s : Schema) where
  rows : List Row
  index : ℕ
  row : Row
  shown : rows[index]? = some row

variable {s : Schema}

def ShownRow.requests (e : ShownRow s) : Option (List RowDataRequest) :=
  rowDataRequests s.tableInfos (deleteRowData
    (w.inputs (openDeleteModal w s.tableInfos (s.cells w.toPlatform e.row))))

def ShownRow.run (tableName : String) (requests : List RowDataRequest) (e : ShownRow s) :
    Except JavaException (Bool × List Row) := do
  match ← DatabaseHelper.deleteRow (some tableName) (some (requests.map some)) with
  | (isSuccessful, some (.delete table whereClause whereArgs)) =>
    return (isSuccessful, ← executeDelete w table whereClause whereArgs e.rows)
  | (isSuccessful, _) => return (isSuccessful, e.rows)

/-- Without a request, or after an exception, the table stays and nothing is successful. -/
def ShownRow.after (tableName : String) (e : ShownRow s) : Bool × List Row :=
  match e.requests w with
  | none => (false, e.rows)
  | some requests =>
    match e.run w tableName requests with
    | .ok result => result
    | .error _ => (false, e.rows)

/-- The row goes and no other, and success is reported only if the row went. -/
structure ShownRow.Exact (tableName : String) (e : ShownRow s) : Prop where
  removes : (e.after w tableName).2 = e.rows.eraseIdx e.index
  reports : (e.after w tableName).1 = true → e.row ∉ (e.after w tableName).2

def ShownRow.sent (e : ShownRow s) : List RowDataRequest := (e.requests w).getD []

/-- The WHERE clause of the key's name and of the text sent for it holds of the row. -/
def ShownRow.Picks (e : ShownRow s) (ρ : Row) : Prop :=
  whereHolds w.toPlatform (keyClause s) (keyArgs (e.sent w)) ρ = true

/-- There is a first column of the key, the dialog gives a text for each column, the clause that
names the key compiles, and the text sent for it picks the shown row and no other. -/
structure ShownRow.Safe (tableName : String) (e : ShownRow s) : Prop where
  key : keyColumns s ≠ []
  sent : (e.requests w).isSome
  compiles : w.compiles
    (.delete (getQuotedTableName tableName) (keyClause s) (keyArgs (e.sent w))) = true
  own : e.Picks w e.row
  others : ∀ j ρ, j ≠ e.index → e.rows[j]? = some ρ → ¬e.Picks w ρ

variable {w}

theorem gatherKeys_request (g : Gathered) (q : RowDataRequest) :
    gatherKeys g (some q) = .ok
      ⟨g.contentValues,
        if q.isPrimary then some (extendClause g.whereClause (q.title.getD NULL))
          else g.whereClause,
        g.whereArgsList ++ if q.isPrimary then [nulled q.value] else []⟩ := by
  cases hq : q.isPrimary with
  | true =>
    simp only [gatherKeys, hq, if_true]
    rfl
  | false => simp [gatherKeys, hq]

theorem gatherKeys_requests (requests : List RowDataRequest) (g : Gathered) :
    (requests.map some).foldlM gatherKeys g = .ok
      ⟨g.contentValues,
        ((requests.filter RowDataRequest.isPrimary).map fun q => q.title.getD NULL).foldl
          (fun clause title => some (extendClause clause title)) g.whereClause,
        g.whereArgsList ++ keyArgs requests⟩ := by
  induction requests generalizing g with
  | nil => simp [keyArgs, pure, Except.pure]
  | cons q requests ih =>
    rw [List.map_cons, List.foldlM_cons, gatherKeys_request, ok_bind, ih]
    cases hq : q.isPrimary <;> simp [keyArgs, hq]

variable (e : ShownRow s)

theorem requests_sent (h : (e.requests w).isSome) : e.requests w = some (e.sent w) := by
  obtain ⟨requests, hrequests⟩ := Option.isSome_iff_exists.mp h
  rw [ShownRow.sent, hrequests, Option.getD_some]

theorem deleteRow_sent (h : (e.requests w).isSome) (tableName : String) :
    DatabaseHelper.deleteRow (some tableName) (some ((e.sent w).map some)) =
      .ok (true, if keyColumns s = [] then none
        else some (.delete (getQuotedTableName tableName) (keyClause s) (keyArgs (e.sent w)))) := by
  have hclause : ((e.sent w).filter RowDataRequest.isPrimary).map (fun q => q.title.getD NULL) =
      (keyColumns s).map Column.name := by
    obtain ⟨hlength, heq⟩ := sent_eq (requests_sent e h)
    rw [heq, primary_zip hlength]
    rfl
  have hargs : keyArgs (e.sent w) = [] ↔ keyColumns s = [] := by
    rw [← List.length_eq_zero_iff, length_keyArgs_sent (requests_sent e h), List.length_eq_zero_iff]
  rw [DatabaseHelper.deleteRow, gatherKeys_requests, hclause, ok_bind]
  simp only [List.nil_append]
  by_cases hkey : keyColumns s = []
  · rw [if_pos hkey, if_pos (hargs.mpr hkey)]
  · rw [if_neg hkey, if_neg fun hnil => hkey (hargs.mp hnil)]
    rfl

theorem after_eq (h : (e.requests w).isSome) (tableName : String) :
    e.after w tableName =
      if keyColumns s = [] then (true, e.rows)
      else if w.compiles (.delete (getQuotedTableName tableName) (keyClause s)
          (keyArgs (e.sent w))) then
        (true, SqlUpdate.delete (whereHolds w.toPlatform (keyClause s) (keyArgs (e.sent w))) e.rows)
      else (false, e.rows) := by
  rw [ShownRow.after, requests_sent e h]
  simp only [ShownRow.run, deleteRow_sent e h]
  by_cases hkey : keyColumns s = []
  · rw [if_pos hkey, if_pos hkey]
    rfl
  · rw [if_neg hkey, if_neg hkey]
    cases hcompiles : w.compiles (.delete (getQuotedTableName tableName) (keyClause s)
        (keyArgs (e.sent w))) <;>
      simp [executeDelete, hcompiles, bind, Except.bind, pure, Except.pure]

theorem rows_ne_eraseIdx : e.rows ≠ e.rows.eraseIdx e.index := by
  intro h
  obtain ⟨hlt, -⟩ := List.getElem?_eq_some_iff.mp e.shown
  have hlength := congrArg List.length h
  rw [List.length_eraseIdx_of_lt hlt] at hlength
  omega

/-- The shown row goes and no other, as the answer says, if and only if the first column of its
key tells it apart. -/
theorem deletes_row_iff (w : Surroundings) {s : Schema} (tableName : String) (e : ShownRow s) :
    e.Exact w tableName ↔ e.Safe w tableName := by
  by_cases hsent : (e.requests w).isSome
  · have hafter := after_eq e hsent tableName
    by_cases hkey : keyColumns s = []
    · rw [if_pos hkey] at hafter
      refine iff_of_false (fun h => rows_ne_eraseIdx e ?_) (fun h => h.key hkey)
      simpa [hafter] using h.removes
    · rw [if_neg hkey] at hafter
      by_cases hcompiles : w.compiles (.delete (getQuotedTableName tableName) (keyClause s)
          (keyArgs (e.sent w))) = true
      · rw [if_pos hcompiles] at hafter
        constructor
        · intro h
          have hremoves := h.removes
          rw [hafter, delete_eq_eraseIdx_iff e.shown] at hremoves
          exact ⟨hkey, hsent, hcompiles, hremoves.1,
            fun j ρ hj hρ => Bool.not_eq_true _ ▸ hremoves.2 j ρ hj hρ⟩
        · intro h
          constructor
          · rw [hafter, delete_eq_eraseIdx_iff e.shown]
            exact ⟨h.own, fun j ρ hj hρ => Bool.not_eq_true _ ▸ h.others j ρ hj hρ⟩
          · intro _ hmem
            rw [hafter] at hmem
            have hnot := (List.mem_filter.mp hmem).2
            have hown : whereHolds w.toPlatform (keyClause s) (keyArgs (e.sent w)) e.row = true :=
              h.own
            simp [hown] at hnot
      · rw [if_neg hcompiles] at hafter
        refine iff_of_false (fun h => rows_ne_eraseIdx e ?_) (fun h => hcompiles h.compiles)
        simpa [hafter] using h.removes
  · refine iff_of_false (fun h => rows_ne_eraseIdx e ?_) (fun h => hsent h.sent)
    have hnone : e.requests w = none := by simpa using hsent
    simpa [ShownRow.after, hnone] using h.removes

/-- An INTEGER key of one column tells the rows apart as long as the dialog gives it back. -/
theorem safe_of_integer_key {tableName : String} {k : Column} {n : Int64}
    (hkey : keyColumns s = [k]) (hplain : '=' ∉ k.name.toList) (hsent : (e.requests w).isSome)
    (hcompiles : w.compiles
      (.delete (getQuotedTableName tableName) (keyClause s) (keyArgs (e.sent w))) = true)
    (hargs : keyArgs (e.sent w) = [some (longToString n)]) (hn : e.row k.name = .integer n)
    (hints : ∀ (j : ℕ) (ρ : Row), e.rows[j]? = some ρ → ∃ m, ρ k.name = .integer m)
    (hdistinct : ∀ (j : ℕ) (ρ : Row), j ≠ e.index → e.rows[j]? = some ρ →
      ρ k.name ≠ .integer n) : e.Safe w tableName := by
  have hpicks : ∀ ρ : Row, e.Picks w ρ ↔
      textual w.toPlatform (ρ k.name) = some (longToString n) := by
    intro ρ
    rw [ShownRow.Picks, whereHolds_keyClause_iff w.toPlatform
      (length_keyArgs_sent (requests_sent e hsent)) (by simpa [hkey] using hplain), hkey, hargs]
    simp
  refine ⟨by simp [hkey], hsent, hcompiles, ?_, ?_⟩
  · rw [hpicks, hn, textual]
  · intro j ρ hj hρ hpick
    obtain ⟨m, hm⟩ := hints j ρ hρ
    rw [hpicks, hm, textual] at hpick
    have hsame := longToString_injective (Option.some.inj hpick)
    exact hdistinct j ρ hj hρ (by rw [hm, hsame])

end Deletion

section Failures

def compositeKey : ShownRow (schemaOf 1 2 first_lt second_lt) where
  rows := [rowOf (.text "x") (.text "v"), rowOf (.text "x") (.text "w")]
  index := 0
  row := rowOf (.text "x") (.text "v")
  shown := rfl

def withoutKey : ShownRow (schemaOf 0 0 outside_lt outside_lt) where
  rows := [rowOf (.text "x") (.text "v")]
  index := 0
  row := rowOf (.text "x") (.text "v")
  shown := rfl

/-- The dialog cuts the first key at its apostrophe. -/
def apostropheKey : ShownRow (schemaOf 1 0 first_lt outside_lt) where
  rows := [rowOf (.text "it's") .null, rowOf (.text "it") .null]
  index := 0
  row := rowOf (.text "it's") .null
  shown := rfl

/-- The page has no number between 9007199254740992 and 9007199254740994. -/
def largeKey : ShownRow (schemaOf 1 0 first_lt outside_lt) where
  rows := [rowOf (.integer 9007199254740993) .null, rowOf (.integer 9007199254740992) .null]
  index := 0
  row := rowOf (.integer 9007199254740993) .null
  shown := rfl

/-- Both rows that share the first column of the key go; without a key none goes and yet success
is reported; and a large key, or one with an apostrophe, has another row deleted. -/
theorem deletes_other_rows :
    (compositeKey.after plain "t").2.length = 0 ∧
      ((withoutKey.after plain "t").1 = true ∧ (withoutKey.after plain "t").2.length = 1) ∧
      (largeKey.after plain "t").2.map (fun r => r "a") = [.integer 9007199254740993] ∧
      (apostropheKey.after plain "t").2.map (fun r => r "a") = [.text "it's"] ∧
      ¬∀ w s tableName (e : ShownRow s), DistinctKeys s e.rows → e.Exact w tableName := by
  refine ⟨by decide +kernel, ⟨by decide +kernel, by decide +kernel⟩, by decide +kernel,
    by decide +kernel, fun h => ?_⟩
  have hkeys : DistinctKeys (schemaOf 1 2 first_lt second_lt) compositeKey.rows := by
    constructor
    · simp [compositeKey, rowOf, schemaOf, textColumn]
    · intro _
      simp [compositeKey, rowOf, schemaOf, textColumn]
  have hlength := congrArg List.length (h plain _ "t" compositeKey hkeys).removes
  exact absurd hlength (by decide +kernel)

end Failures

end RowDeletion
