import AndroidDebug.RowForm
import Mathlib.Data.List.Induction
import Mathlib.Data.List.Nodup

/-! Editing one row of a table through the page: getTableData shows it, the page sends the texts of
its dialog back, and updateRow runs one UPDATE. -/
namespace RowEditing

open CheckedFold JavaText SqlUpdate DatabaseHelper RowForm

inductive NewValue where
  | integer (n : Int64)
  | text (s : String)
  deriving DecidableEq, Repr

def NewValue.toValue : NewValue → Value
  | .integer n => .integer n
  | .text s => .text s

def NewValue.shown : NewValue → String
  | .integer n => longToString n
  | .text s => s

def keyColumns (s : Schema) : List Column := s.columns.filter fun c => c.pk = 1

def setColumns (s : Schema) : List Column := s.columns.filter fun c => c.pk ≠ 1

/-- A row of a table, as it is shown, and new values for some of its cells outside the key. -/
structure RowEdit (s : Schema) where
  rows : List Row
  keys : DistinctKeys s rows
  index : ℕ
  row : Row
  shown : rows[index]? = some row
  edits : String → Option NewValue
  edits_nonPrimary : ∀ c v, edits c = some v → ∃ col ∈ s.columns, col.name = c ∧ col.pk = 0

variable {s : Schema} (w : Surroundings)

def RowEdit.edited (e : RowEdit s) : Row := fun c =>
  match e.edits c with
  | some v => v.toValue
  | none => e.row c

/-- What the page sends when the new values are typed into the dialog and saved. -/
def RowEdit.requests (e : RowEdit s) : Option (List RowDataRequest) :=
  let inputs := w.inputs (openEditModal w s.tableInfos (s.cells w.toPlatform e.row))
  let texts := s.columns.map fun c => (e.edits c.name).map NewValue.shown
  rowDataRequests s.tableInfos (editRowData (typed w texts inputs))

/-- The table afterwards; an exception leaves it. -/
def RowEdit.saved (tableName : String) (e : RowEdit s) : List Row :=
  match e.requests w with
  | none => e.rows
  | some requests =>
    match updateRow w.toPlatform (some tableName) (some (requests.map some)) with
    | .ok (_, some u) => (executeUpdate w s u e.rows).toOption.getD e.rows
    | _ => e.rows

/-- The edited cells get their values; every other cell and every other row stays. -/
def RowEdit.Exact (tableName : String) (e : RowEdit s) : Prop :=
  e.saved w tableName = e.rows.set e.index e.edited

section Condition

def valueOf (p : Platform) (dataType value : Option String) : Option Value :=
  if dataType = some DataType.INTEGER then (value.bind longValueOf).map .integer
  else if dataType = some DataType.REAL then (value.bind p.doubleValueOf).map .real
  else if dataType = some DataType.TEXT then some ((value.map Value.text).getD .null)
  else none

/-- What the column of a request is set to. -/
def newValue (p : Platform) (q : RowDataRequest) : Option Value :=
  if q.isPrimary then none else valueOf p q.dataType (nulled q.value)

def assignments (p : Platform) (requests : List RowDataRequest) : ContentValues :=
  (requests.filterMap fun q => (newValue p q).map fun v => (q.title.getD NULL, v)).reverse

def keyArgs (requests : List RowDataRequest) : List (Option String) :=
  (requests.filter RowDataRequest.isPrimary).map fun q => nulled q.value

def extendClause (clause : Option String) (title : String) : String :=
  match clause with
  | none => title ++ "=? "
  | some clause => clause ++ "and " ++ title ++ "=? "

def keyClause (s : Schema) : Option String :=
  ((keyColumns s).map Column.name).foldl (fun clause title => some (extendClause clause title)) none

variable (e : RowEdit s)

def RowEdit.sent : List RowDataRequest := (e.requests w).getD []

def RowEdit.written (name : String) : Option Value :=
  (assignments w.toPlatform (e.sent w)).lookup name

/-- The WHERE clause of the key's name and of the text sent for it holds of the row. -/
def RowEdit.Picks (ρ : Row) : Prop :=
  whereHolds w.toPlatform (keyClause s) (keyArgs (e.sent w)) ρ = true

def RowEdit.left (ρ : Row) : Row :=
  SqlUpdate.updateRow (whereHolds w.toPlatform (keyClause s) (keyArgs (e.sent w))) (e.written w) ρ

/-- The dialog gives a text for each column; those of the types integer and real outside the key are
numbers; something is set; and SQLite compiles the statement, which keeps the keys apart and the
other constraints of the table. -/
structure RowEdit.Runs (tableName : String) : Prop where
  sent : (e.requests w).isSome
  numbers : ∀ q ∈ e.sent w, q.isPrimary = false →
    Convertible w.toPlatform q.dataType (nulled q.value)
  sets : ∃ q ∈ e.sent w, (newValue w.toPlatform q).isSome
  compiles : w.compiles (.update ⟨getQuotedTableName tableName,
    assignments w.toPlatform (e.sent w), keyClause s, keyArgs (e.sent w)⟩) = true
  keys : KeysApart s (e.rows.map (e.left w))
  allowed : w.allows (e.rows.map (e.left w)) = true

/-- What is written gives the shown row its edited cells, if the key's text picks it; otherwise
nothing is edited. Any other row that the text picks has what is written already. -/
structure RowEdit.Safe (tableName : String) : Prop where
  refused : ¬e.Runs w tableName → e.edited = e.row
  picked : e.Runs w tableName → e.Picks w e.row →
    ∀ c ∈ setColumns s, (e.written w c.name).getD (e.row c.name) = e.edited c.name
  missed : e.Runs w tableName → ¬e.Picks w e.row → e.edited = e.row
  others : e.Runs w tableName → ∀ j ρ, j ≠ e.index → e.rows[j]? = some ρ → e.Picks w ρ →
    ∀ c ∈ setColumns s, ∀ v, e.written w c.name = some v → v = ρ c.name

end Condition

section Request

theorem getInt_pk (c : Column) : getInt (.integer (Int64.ofNat c.pk)) = c.pk := by
  rw [getInt, Int64.toInt32_ofNat', Int32.toInt_ofNat_of_lt c.pk_lt]

theorem tableInfo_pragma (cid : ℕ) (c : Column) :
    tableInfo (c.pragma cid) = ⟨some c.name, decide (c.pk = 1)⟩ := by
  simp [tableInfo, Column.pragma, getString, getInt_pk]

theorem tableInfos_eq (s : Schema) :
    s.tableInfos = s.columns.map fun c => ⟨some c.name, decide (c.pk = 1)⟩ := by
  rw [Schema.tableInfos, getTableInfo, List.map_map]
  have hpragma : (tableInfo ∘ fun x : Column × ℕ => x.1.pragma x.2) =
      (fun c : Column => (⟨some c.name, decide (c.pk = 1)⟩ : TableInfo)) ∘ Prod.fst := by
    funext x
    exact tableInfo_pragma x.2 x.1
  rw [hpragma, ← List.map_map, List.zipIdx_map_fst]

def requestOf (c : Column) (field : String × Option String) : RowDataRequest :=
  ⟨some c.name, decide (c.pk = 1), field.2, some field.1⟩

theorem rowDataRequests_eq (s : Schema) (data : List (String × Option String)) :
    rowDataRequests s.tableInfos data =
      if data.length < s.columns.length then none
      else some (List.zipWith requestOf s.columns data) := by
  rw [rowDataRequests, tableInfos_eq, List.length_map, List.zipWith_map_left]
  rfl

theorem sent_eq {data : List (String × Option String)} {requests : List RowDataRequest}
    (h : rowDataRequests s.tableInfos data = some requests) :
    s.columns.length ≤ data.length ∧ requests = List.zipWith requestOf s.columns data := by
  rw [rowDataRequests_eq] at h
  split at h
  · cases h
  · exact ⟨by omega, (Option.some.inj h).symm⟩

theorem primary_zip {cs : List Column} {data : List (String × Option String)}
    (h : cs.length ≤ data.length) :
    ((List.zipWith requestOf cs data).filter RowDataRequest.isPrimary).map
        (fun q => q.title.getD NULL) = (cs.filter fun c => c.pk = 1).map Column.name := by
  induction cs generalizing data with
  | nil => simp
  | cons c cs ih =>
    cases data with
    | nil => simp at h
    | cons field data =>
      have hrest := ih (Nat.le_of_succ_le_succ h)
      by_cases hc : c.pk = 1 <;> simp [requestOf, hc, ← hrest]

theorem length_keyArgs_zip {cs : List Column} {data : List (String × Option String)}
    (h : cs.length ≤ data.length) :
    (keyArgs (List.zipWith requestOf cs data)).length = (cs.filter fun c => c.pk = 1).length := by
  have hprimary := congrArg List.length (primary_zip h)
  rw [List.length_map, List.length_map] at hprimary
  rwa [keyArgs, List.length_map]

theorem length_keyArgs_sent {data : List (String × Option String)} {requests : List RowDataRequest}
    (h : rowDataRequests s.tableInfos data = some requests) :
    (keyArgs requests).length = (keyColumns s).length := by
  obtain ⟨hlength, rfl⟩ := sent_eq h
  exact length_keyArgs_zip hlength

end Request

section Loop

variable (p : Platform)

theorem toList_extendClause (clause : Option String) (title : String) :
    (extendClause clause title).toList =
      (match clause with
        | none => []
        | some clause => clause.toList ++ ['a', 'n', 'd', ' ']) ++ term title.toList := by
  cases clause <;> simp [extendClause, term, String.toList_append]

/-- The clause of some titles is the conjunction of their terms. -/
theorem clause_of_titles {titles : List String} (hne : titles ≠ []) :
    ∃ clause, titles.foldl (fun clause title => some (extendClause clause title)) none =
      some clause ∧ clause.toList = conjunction (titles.map String.toList) := by
  induction titles using List.reverseRecOn with
  | nil => exact absurd rfl hne
  | append_singleton titles title ih =>
    rw [List.foldl_append]
    by_cases h : titles = []
    · subst h
      exact ⟨extendClause none title, rfl, by simp [toList_extendClause, conjunction]⟩
    · obtain ⟨clause, hclause, hlist⟩ := ih h
      refine ⟨extendClause (some clause) title, by rw [hclause]; rfl, ?_⟩
      have hmap : titles.map String.toList ≠ [] := by simpa using h
      rw [toList_extendClause, List.map_append, List.map_singleton, conjunction_append hmap,
        ← hlist]

end Loop

section Clause

variable (p : Platform)

theorem equals_iff (v : Value) (arg : Option String) :
    equals p v arg = true ↔ ∃ t, arg = some t ∧ textual p v = some t := by
  cases arg with
  | none => simp [equals]
  | some t => simp [equals]

/-- Unless a name of the key has an equals sign in it, the clause compares each column of the key
with its argument. -/
theorem whereHolds_keyClause_iff {args : List (Option String)}
    (hlength : args.length = (keyColumns s).length)
    (hplain : ∀ c ∈ keyColumns s, '=' ∉ c.name.toList) (ρ : Row) :
    whereHolds p (keyClause s) args ρ = true ↔
      ∀ x ∈ (keyColumns s).zip args, ∃ t, x.2 = some t ∧ textual p (ρ x.1.name) = some t := by
  by_cases hkey : keyColumns s = []
  · simp [keyClause, whereHolds, hkey]
  · have htitles : (keyColumns s).map Column.name ≠ [] := by simpa using hkey
    obtain ⟨clause, hclause, hlist⟩ := clause_of_titles htitles
    have hnames : ∀ n ∈ ((keyColumns s).map Column.name).map String.toList, '=' ∉ n := by
      intro n hn
      simp only [List.mem_map] at hn
      obtain ⟨_, ⟨c, hc, rfl⟩, rfl⟩ := hn
      exact hplain c hc
    have hterms : terms clause.toList = (keyColumns s).map fun c => c.name.toList := by
      rw [hlist, terms_conjunction (by simpa using hkey) hnames, List.map_map]
      rfl
    rw [keyClause, hclause]
    simp only [whereHolds, hterms, List.length_map, hlength, le_refl, decide_true, Bool.true_and,
      List.zip_map_left, List.all_map, List.all_eq_true, Function.comp_apply, Prod.map_fst,
      Prod.map_snd, equals_iff, String.ofList_toList, id_eq]

end Clause

section Update

variable (e : RowEdit s)

theorem requests_sent (h : (e.requests w).isSome) : e.requests w = some (e.sent w) := by
  obtain ⟨requests, hrequests⟩ := Option.isSome_iff_exists.mp h
  rw [RowEdit.sent, hrequests, Option.getD_some]

/-- The rows picked are those that have the texts sent for the key. -/
theorem picks_iff (hsent : (e.requests w).isSome)
    (hplain : ∀ c ∈ keyColumns s, '=' ∉ c.name.toList) (ρ : Row) :
    e.Picks w ρ ↔ ∀ x ∈ (keyColumns s).zip (keyArgs (e.sent w)),
      ∃ t, x.2 = some t ∧ textual w.toPlatform (ρ x.1.name) = some t :=
  whereHolds_keyClause_iff w.toPlatform (length_keyArgs_sent (requests_sent w e hsent)) hplain ρ

/-- Rows that differ in an INTEGER key are told apart, so only what the cells are written back as
matters. -/
theorem safe_of_integer_key {tableName : String} {k : Column} {n : Int64}
    (hruns : e.Runs w tableName) (hkey : keyColumns s = [k]) (hplain : '=' ∉ k.name.toList)
    (hn : e.row k.name = .integer n) (hsent : keyArgs (e.sent w) = [some (longToString n)])
    (hints : ∀ (j : ℕ) (ρ : Row), e.rows[j]? = some ρ → ∃ m, ρ k.name = .integer m)
    (hdistinct : ∀ (j : ℕ) (ρ : Row), j ≠ e.index → e.rows[j]? = some ρ → ρ k.name ≠ .integer n)
    (hcells : ∀ c ∈ setColumns s, (e.written w c.name).getD (e.row c.name) = e.edited c.name) :
    e.Safe w tableName := by
  have hpicks : ∀ ρ : Row, e.Picks w ρ ↔
      textual w.toPlatform (ρ k.name) = some (longToString n) := by
    intro ρ
    rw [picks_iff w e hruns.sent (by simpa [hkey] using hplain), hkey, hsent]
    simp
  refine ⟨fun h => absurd hruns h, fun _ _ => hcells, fun _ hmissed => ?_,
    fun _ j ρ hj hρ hpick => ?_⟩
  · exact absurd ((hpicks e.row).mpr (by rw [hn, textual])) hmissed
  · obtain ⟨m, hm⟩ := hints j ρ hρ
    rw [hpicks, hm, textual, Option.some.injEq] at hpick
    exact absurd (hm.trans (congrArg _ (longToString_injective hpick))) (hdistinct j ρ hj hρ)

end Update

section Failures

def textColumn (name : String) (pk : ℕ) (hpk : pk < 2147483648) : Column :=
  ⟨name, "TEXT", false, none, pk, hpk⟩

/-- Two columns a and b with places `m` and `n` in the key. -/
def schemaOf (m n : ℕ) (hm : m < 2147483648) (hn : n < 2147483648) : Schema where
  columns := [textColumn "a" m hm, textColumn "b" n hn]
  distinct := by simp [textColumn]

def rowOf (a b : Value) : Row := fun c => if c = "a" then a else if c = "b" then b else .null

theorem first_lt : 1 < 2147483648 := by decide
theorem second_lt : 2 < 2147483648 := by decide
theorem outside_lt : 0 < 2147483648 := by decide

/-- Nothing is edited in a row whose second cell is `b`. -/
def unchanged (b : Value) : RowEdit (schemaOf 1 0 first_lt outside_lt) where
  rows := [rowOf (.text "x") b]
  keys := by simp [DistinctKeys, schemaOf, textColumn, rowOf]
  index := 0
  row := rowOf (.text "x") b
  shown := rfl
  edits _ := none
  edits_nonPrimary c v h := by cases h

end Failures

end RowEditing
