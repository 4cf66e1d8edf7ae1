import AndroidDebug.DatabaseHandler

/-! Which store a request to change a table writes to. The handler decides by what was selected
last, by whichever client; the request names a store of its own. -/
namespace StoreRouting

open DatabaseHelper DatabaseHandler RequestMachine

inductive Store where
  | database (file : File)
  | sharedPreferences (name : String)
  deriving DecidableEq, Repr

def modifiedStore : Modification → Store
  | .statement file _ => .database file
  | .edit name _ => .sharedPreferences name

structure WriteRequest where
  op : Operation
  dbName : Option String
  tableName : Option String
  data : Option String

def writeRequest : Request → Option WriteRequest
  | .addTableData dbName tableName data => some ⟨.add, dbName, tableName, data⟩
  | .updateTableData dbName tableName data => some ⟨.update, dbName, tableName, data⟩
  | .deleteTableData dbName tableName data => some ⟨.delete, dbName, tableName, data⟩
  | _ => none

def listed (e : Event) (s : State) : Files := (getDBList e.world s).2

/-- Where the request names a listed database only that file is modified, and where it names the
preferences only those of its table. -/
def Named (e : Event) (s : State) (wr : WriteRequest) (a : WriteAnswer) : Prop :=
  ∀ m, a.modification = some m →
    (∀ file, find (listed e s) wr.dbName = some file → modifiedStore m = .database file) ∧
    (wr.dbName = some Constants.APP_SHARED_PREFERENCES →
      ∃ t, wr.tableName = some t ∧ modifiedStore m = .sharedPreferences t)

def Right (s : State) (e : Event) (a : Answer) : Prop :=
  ∀ wr wa, writeRequest e.request = some wr → a = .written wa → Named e s wr wa

section Conditions

variable (sv : Services)

/-- The rows are ones that shared preferences can be edited with. -/
def Edits (op : Operation) (tableName : Option String)
    (rows : Option (List (Option RowDataRequest))) : Prop :=
  ∃ t, tableName = some t ∧ sv.device.validName t ∧
    match op with
    | .delete => ∃ key rest, rows = some (some key :: rest)
    | _ => ∃ key value rest, rows = some (some key :: some value :: rest) ∧
        PrefHelper.Readable sv.device value.dataType (nulled value.value)

/-- The rows are ones that a statement can be made of. -/
def Runs (op : Operation) (tableName : Option String)
    (rows : Option (List (Option RowDataRequest))) : Prop :=
  ∃ t l, tableName = some t ∧ rows = some l ∧
    match op with
    | .add => ∀ r ∈ l, ∃ q, r = some q ∧ Convertible sv.platform q.dataType (nulled q.value)
    | .update =>
      (∀ r ∈ l, ∃ q, r = some q ∧
        (q.isPrimary = false → Convertible sv.platform q.dataType (nulled q.value))) ∧
      ∃ q, some q ∈ l ∧ q.isPrimary = false ∧ SetType q.dataType
    | .delete => (∀ r ∈ l, ∃ q, r = some q) ∧ ∃ q, some q ∈ l ∧ q.isPrimary = true

/-- Preferences are selected and the request names a listed database, or they are not and a
database is listed under the name that stands for them. -/
def Astray (selected : Option String) (e : Event) (s : State) (wr : WriteRequest) : Prop :=
  ∃ rows, sv.fromJson wr.data = .ok rows ∧
    (selected = some Constants.APP_SHARED_PREFERENCES ∧
        (∃ file, find (listed e s) wr.dbName = some file) ∧ Edits sv wr.op wr.tableName rows ∨
      selected ≠ some Constants.APP_SHARED_PREFERENCES ∧
        wr.dbName = some Constants.APP_SHARED_PREFERENCES ∧
        (∃ file, find (listed e s) wr.dbName = some file ∧ e.world.opens file) ∧
        Runs sv wr.op wr.tableName rows)

theorem edit_iff (op : Operation) (tableName : Option String)
    (rows : Option (List (Option RowDataRequest))) :
    (∃ ok name ed, op.edit sv.device tableName rows = .ok (ok, some (name, ed))) ↔
      Edits sv op tableName rows := by
  cases op with
  | add | update =>
    constructor
    · rintro ⟨ok, name, ed, h⟩
      exact ⟨name,
        (PrefHelper.addOrUpdateRow_edits_iff sv.device tableName rows name).mp ⟨ok, ed, h⟩⟩
    · rintro ⟨name, h⟩
      obtain ⟨ok, ed, h'⟩ :=
        (PrefHelper.addOrUpdateRow_edits_iff sv.device tableName rows name).mpr h
      exact ⟨ok, name, ed, h'⟩
  | delete =>
    constructor
    · rintro ⟨ok, name, ed, h⟩
      exact ⟨name, (PrefHelper.deleteRow_edits_iff sv.device tableName rows name).mp ⟨ok, ed, h⟩⟩
    · rintro ⟨name, h⟩
      obtain ⟨ok, ed, h'⟩ := (PrefHelper.deleteRow_edits_iff sv.device tableName rows name).mpr h
      exact ⟨ok, name, ed, h'⟩

theorem edit_name {op : Operation} {tableName : Option String}
    {rows : Option (List (Option RowDataRequest))} {ok : Bool} {name : String}
    {ed : PrefHelper.Edit} (h : op.edit sv.device tableName rows = .ok (ok, some (name, ed))) :
    tableName = some name := by
  cases op with
  | add | update =>
    exact ((PrefHelper.addOrUpdateRow_edits_iff sv.device tableName rows name).mp ⟨ok, ed, h⟩).1
  | delete =>
    exact ((PrefHelper.deleteRow_edits_iff sv.device tableName rows name).mp ⟨ok, ed, h⟩).1

theorem statement_iff (op : Operation) (tableName : Option String)
    (rows : Option (List (Option RowDataRequest))) :
    (∃ ok st, op.statement sv.platform tableName rows = .ok (ok, some st)) ↔
      Runs sv op tableName rows := by
  cases op with
  | add => exact addRow_runs_iff sv.platform tableName rows
  | delete => exact deleteRow_runs_iff tableName rows
  | update =>
    refine Iff.trans ?_ (updateRow_runs_iff sv.platform tableName rows)
    simp only [Operation.statement]
    cases updateRow sv.platform tableName rows with
    | error e => simp [Except.map]
    | ok r =>
      obtain ⟨ok, u⟩ := r
      cases u <;> simp [Except.map]

end Conditions

section Step

variable (sv : Services) (s : State) (e : Event) (wr : WriteRequest)

def writeAnswer : WriteAnswer :=
  (tableDataAndGetResponse sv e.world s wr.op wr.dbName wr.tableName wr.data).2

theorem answer_write {wr : WriteRequest} (h : writeRequest e.request = some wr) :
    (answer sv s e).2 = .written (writeAnswer sv s e wr) := by
  obtain ⟨w, r⟩ := e
  cases r <;> cases h <;> rfl

/-- With preferences selected, what is modified is the preferences of the table. -/
theorem modification_selected {m : Modification}
    (hsel : s.mSelectedDatabase = some Constants.APP_SHARED_PREFERENCES) :
    (writeAnswer sv s e wr).modification = some m ↔
      ∃ rows ok name ed, sv.fromJson wr.data = .ok rows ∧
        wr.op.edit sv.device wr.tableName rows = .ok (ok, some (name, ed)) ∧ m = .edit name ed := by
  simp only [writeAnswer, tableDataAndGetResponse, hsel, if_true]
  cases hj : sv.fromJson wr.data with
  | error x => simp [WriteAnswer.failed]
  | ok rows =>
    cases hed : wr.op.edit sv.device wr.tableName rows with
    | error x => simp [WriteAnswer.failed, hed]
    | ok r =>
      obtain ⟨ok, _ | ⟨name, ed⟩⟩ := r
      · simp [hed]
      · cases ok <;> simp [hed, eq_comm]

/-- Otherwise it is the database that the request names. -/
theorem modification_unselected {m : Modification}
    (hsel : s.mSelectedDatabase ≠ some Constants.APP_SHARED_PREFERENCES) :
    (writeAnswer sv s e wr).modification = some m ↔
      ∃ rows ok file st, sv.fromJson wr.data = .ok rows ∧
        (find (listed e s) wr.dbName = some file ∧ e.world.opens file) ∧
        wr.op.statement sv.platform wr.tableName rows = .ok (ok, some st) ∧
        m = .statement file st := by
  simp only [writeAnswer, tableDataAndGetResponse, hsel, if_false, listed, ← openDatabase_ok_iff]
  cases hj : sv.fromJson wr.data with
  | error x => simp [WriteAnswer.failed]
  | ok rows =>
    cases hopen : openDatabase e.world s wr.dbName with
    | mk t r =>
      cases r with
      | error x => simp [WriteAnswer.failed]
      | ok file =>
        cases hst : wr.op.statement sv.platform wr.tableName rows with
        | error x => simp [WriteAnswer.failed, hst]
        | ok r =>
          obtain ⟨ok, _ | st⟩ := r
          · simp [hst]
          · cases ok <;> simp [hst, eq_comm]

/-- A write modifies nothing but the store it names if and only if it does not go astray. -/
theorem named_iff :
    Named e s wr (writeAnswer sv s e wr) ↔ ¬ Astray sv s.mSelectedDatabase e s wr := by
  by_cases hsel : s.mSelectedDatabase = some Constants.APP_SHARED_PREFERENCES
  · constructor
    · rintro hnamed ⟨rows, hj, ⟨-, ⟨file, hfile⟩, hedits⟩ | ⟨hne, -⟩⟩
      · obtain ⟨ok, name, ed, hed⟩ := (edit_iff sv wr.op wr.tableName rows).mpr hedits
        have hm := (modification_selected sv s e wr hsel).mpr ⟨rows, ok, name, ed, hj, hed, rfl⟩
        have hstore := (hnamed _ hm).1 file hfile
        cases hstore
      · exact hne hsel
    · intro hnot m hm
      obtain ⟨rows, ok, name, ed, hj, hed, rfl⟩ := (modification_selected sv s e wr hsel).mp hm
      have hedits := (edit_iff sv wr.op wr.tableName rows).mp ⟨ok, name, ed, hed⟩
      constructor
      · intro file hfile
        exact absurd ⟨rows, hj, Or.inl ⟨hsel, ⟨file, hfile⟩, hedits⟩⟩ hnot
      · intro _
        exact ⟨name, edit_name sv hed, rfl⟩
  · constructor
    · rintro hnamed ⟨rows, hj, ⟨heq, -⟩ | ⟨-, hdb, ⟨file, hfile⟩, hruns⟩⟩
      · exact hsel heq
      · obtain ⟨ok, st, hst⟩ := (statement_iff sv wr.op wr.tableName rows).mpr hruns
        have hm := (modification_unselected sv s e wr hsel).mpr
          ⟨rows, ok, file, st, hj, hfile, hst, rfl⟩
        obtain ⟨t, -, hstore⟩ := (hnamed _ hm).2 hdb
        cases hstore
    · intro hnot m hm
      obtain ⟨rows, ok, file, st, hj, hfile, hst, rfl⟩ :=
        (modification_unselected sv s e wr hsel).mp hm
      have hruns := (statement_iff sv wr.op wr.tableName rows).mp ⟨ok, st, hst⟩
      constructor
      · intro file' hfile'
        rw [hfile.1] at hfile'
        obtain rfl := Option.some.inj hfile'
        rfl
      · intro hdb
        exact absurd ⟨rows, hj, Or.inr ⟨hsel, hdb, ⟨file, hfile⟩, hruns⟩⟩ hnot

theorem right_iff :
    Right s e (answer sv s e).2 ↔
      ∀ wr, writeRequest e.request = some wr → ¬ Astray sv s.mSelectedDatabase e s wr := by
  constructor
  · intro h wr hwr
    exact (named_iff sv s e wr).mp (h wr _ hwr (answer_write sv s e hwr))
  · intro h wr wa hwr hwa
    rw [answer_write sv s e hwr] at hwa
    obtain rfl := Answer.written.inj hwa
    exact (named_iff sv s e wr).mpr (h wr hwr)

end Step

section Run

/-- What a listing that does not fail selects. -/
def selection (s : State) (e : Event) : Option String :=
  match e.request with
  | .getTableList (some database) =>
    if database = "" then none
    else match (getTableListResponse e.world s (some database)).2 with
      | .error _ => none
      | .ok _ => some (if database = Constants.STORAGE_ANR then Constants.STORAGE else database)
  | _ => none

theorem selected_by_listing (w : World) (s : State) (database : String) :
    (getTableListResponse w s (some database)).1.mSelectedDatabase =
      (selection s ⟨w, .getTableList (some database)⟩).or s.mSelectedDatabase := by
  have happ : Constants.APP_SHARED_PREFERENCES ≠ Constants.STORAGE_ANR := by decide
  have hstorage : Constants.STORAGE ≠ Constants.STORAGE_ANR := by decide
  by_cases hempty : database = ""
  · simp [selection, getTableListResponse, hempty]
  by_cases hprefs : database = Constants.APP_SHARED_PREFERENCES
  · subst hprefs
    cases hrows : w.prefTableNames <;>
      simp [selection, getTableListResponse, hempty, hrows, happ]
  by_cases hdir : database = Constants.STORAGE ∨ database = Constants.STORAGE_ANR
  · simp only [selection, getTableListResponse, hempty, hprefs, hdir, if_true, if_false]
    cases w.fileNames (if database = Constants.STORAGE then Constants.ROOT_PATH
        else Constants.ANR_PATH) with
    | error x => rfl
    | ok rows =>
      rcases hdir with rfl | rfl
      · rw [if_neg hstorage]
        rfl
      · rw [if_pos rfl]
        rfl
  · have hfiles : database ≠ Constants.STORAGE := fun h => hdir (Or.inl h)
    have hanr : database ≠ Constants.STORAGE_ANR := fun h => hdir (Or.inr h)
    have hkeep := openDatabase_mSelectedDatabase w s (some database)
    simp only [selection, getTableListResponse, hempty, hprefs, hfiles, hanr, or_self, if_false]
    cases hopen : openDatabase w s (some database) with
    | mk t r =>
      rw [hopen] at hkeep
      cases r with
      | error x => simpa using hkeep
      | ok file =>
        cases hrows : w.tableNames file with
        | error x => simpa [hrows] using hkeep
        | ok rows => simp [hrows]

theorem selected_step (sv : Services) (s : State) (e : Event) :
    (answer sv s e).1.mSelectedDatabase = (selection s e).or s.mSelectedDatabase := by
  obtain ⟨w, r⟩ := e
  cases r with
  | getTableList database =>
    cases database with
    | none => rfl
    | some database => exact selected_by_listing w s database
  | setCustomDatabaseFiles | getAllDataFromTheTable => rfl
  | getDBList | getSelectedDBFile => exact getDBList_mSelectedDatabase w s
  | addDB dbPath => exact addDBResponse_mSelectedDatabase w s dbPath
  | executeQuery dbName query =>
    cases query with
    | none => rfl
    | some q => exact openDatabase_mSelectedDatabase w s dbName
  | addTableData dbName tableName data =>
    exact tableDataAndGetResponse_mSelectedDatabase w s sv .add dbName tableName data
  | updateTableData dbName tableName data =>
    exact tableDataAndGetResponse_mSelectedDatabase w s sv .update dbName tableName data
  | deleteTableData dbName tableName data =>
    exact tableDataAndGetResponse_mSelectedDatabase w s sv .delete dbName tableName data

theorem selected_after (sv : Services) (es : List Event) :
    ((handler sv).stateAfter es).mSelectedDatabase = (handler sv).lastSelection selection es :=
  field_stateAfter (f := State.mSelectedDatabase) (selected_step sv) rfl es

/-- A write to what is selected does not go astray, unless a database has the name that stands for
the preferences. -/
theorem not_astray_of_selected {sv : Services} {e : Event} {s : State} {wr : WriteRequest}
    (hfree : Constants.APP_SHARED_PREFERENCES ∉ listed e s) : ¬ Astray sv wr.dbName e s wr := by
  rintro ⟨rows, -, ⟨hprefs, ⟨file, hfile⟩, -⟩ | ⟨hne, hprefs, -⟩⟩
  · rw [find, hprefs, Option.bind_some] at hfile
    have hnone := AList.lookup_eq_none.mpr hfree
    rw [hfile] at hnone
    cases hnone
  · exact hne hprefs

/-- Clients that write only to what was selected last, whoever selected it, get what they name. -/
theorem right_of_last_selected (sv : Services) {es : List Event}
    (h : ∀ pre e post wr, es = pre ++ e :: post → writeRequest e.request = some wr →
      wr.dbName = (handler sv).lastSelection selection pre ∧
        Constants.APP_SHARED_PREFERENCES ∉ listed e ((handler sv).stateAfter pre)) :
    (handler sv).Throughout Right es := by
  rw [throughout_iff (right_iff sv)]
  intro pre e post hes wr hwr
  obtain ⟨hsel, hfree⟩ := h pre e post wr hes hwr
  rw [selected_after, ← hsel]
  exact not_astray_of_selected hfree

/-- Through any run, every write modifies nothing but the store it names if and only if none goes
astray by what was selected last before it. -/
theorem writes_right_iff (sv : Services) (es : List Event) :
    (handler sv).Throughout Right es ↔
      ∀ pre e post, es = pre ++ e :: post → ∀ wr, writeRequest e.request = some wr →
        ¬ Astray sv ((handler sv).lastSelection selection pre) e
          ((handler sv).stateAfter pre) wr := by
  rw [throughout_iff (right_iff sv)]
  simp only [selected_after]

end Run

section Failure

def userRows : List (Option RowDataRequest) :=
  [some ⟨some "id", true, some "text", some "7"⟩,
    some ⟨some "name", false, some "text", some "bob"⟩]

def userJson : String :=
  "[\x7b\"title\":\"id\",\"isPrimary\":true,\"dataType\":\"text\",\"value\":\"7\"\x7d," ++
    "\x7b\"title\":\"name\",\"isPrimary\":false,\"dataType\":\"text\",\"value\":\"bob\"\x7d]"

def plainServices : Services where
  platform := ⟨fun _ => "", fun _ => none, fun _ => none⟩
  device := ⟨fun _ => none, fun _ => none, fun name => !name.toList.contains '/'⟩
  fromJson data := if data = some userJson then .ok (some userRows) else .error .illegalArgument

def appDb : File := ⟨"/data/data/app/databases/app.db"⟩

def plainWorld : World where
  appFiles := AList.singleton "app.db" appDb
  isFile _ := true
  opens _ := true
  runs _ _ := true
  tableNames _ := .ok ["users"]
  prefTableNames := .ok ["settings"]
  fileNames _ := .ok []

/-- One client opens the database and another looks at the preferences. -/
def selections : List Event :=
  [⟨plainWorld, .getTableList (some "app.db")⟩,
    ⟨plainWorld, .getTableList (some Constants.APP_SHARED_PREFERENCES)⟩]

def addUser : WriteRequest := ⟨.add, some "app.db", some "users", some userJson⟩

def addition : Event := ⟨plainWorld, .addTableData (some "app.db") (some "users") (some userJson)⟩

/-- The first client's new row is put into the preferences `users`. -/
theorem writes_right_fails :
    ¬ (handler plainServices).Throughout Right (selections ++ [addition]) := by
  intro h
  have hnamed : Named addition ((handler plainServices).stateAfter selections) addUser
      (writeAnswer plainServices ((handler plainServices).stateAfter selections) addition
        addUser) :=
    h selections addition [] rfl addUser _ rfl rfl
  have hedit : (writeAnswer plainServices ((handler plainServices).stateAfter selections) addition
      addUser).modification = some (.edit "users" (.put (some "7") (.string (some "bob")))) := by
    decide +kernel
  have hlisted : find (listed addition ((handler plainServices).stateAfter selections))
      addUser.dbName = some appDb := by decide +kernel
  have hstore := (hnamed _ hedit).1 appDb hlisted
  cases hstore

end Failure

end StoreRouting
