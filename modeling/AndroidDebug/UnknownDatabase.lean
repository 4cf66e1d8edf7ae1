import AndroidDebug.DatabaseNames

/-! Requests that name a database which cannot be opened. openDatabase closes the open one
before it looks for the other. -/
namespace UnknownDatabase

open DatabaseHelper DatabaseHandler RequestMachine SelectedDatabase DatabaseNames

section Answers

/-- isSuccessful of what getTableData or exec answers to a query. -/
abbrev Answers := File → String → Except JavaException Bool

variable (sv : Services) (answers : Answers) (w : World) (s : State)

/-- The response that executeQueryAndGetResponse sends, by its isSuccessful. -/
def executeQuery (dbName query : Option String) : State × Bool :=
  match query with
  | none => (s, false)
  | some q =>
    match openDatabase w s dbName with
    | (s, .error _) => (s, false)
    | (s, .ok file) =>
      match answers file q with
      | .error _ => (s, false)
      | .ok isSuccessful => (s, isSuccessful)

theorem executeQuery_state (dbName query : Option String) :
    (executeQuery answers w s dbName query).1 = executeQueryAndGetResponse w s dbName query := by
  cases query with
  | none => rfl
  | some q =>
    simp only [executeQuery, executeQueryAndGetResponse]
    cases openDatabase w s dbName with
    | mk u r =>
      cases r with
      | error x => rfl
      | ok file => cases h : answers file q <;> simp [h]

/-- An exception of getTableListResponse reaches its caller, and an empty name gets an empty
response. -/
def isSuccessful : Request → Bool
  | .getTableList none => false
  | .getTableList (some database) =>
    database ≠ "" && (getTableListResponse w s (some database)).2.isOk
  | .executeQuery dbName query => (executeQuery answers w s dbName query).2
  | .addTableData dbName tableName data =>
    (addTableDataAndGetResponse sv w s dbName tableName data).2.isSuccessful
  | .updateTableData dbName tableName data =>
    (updateTableDataAndGetResponse sv w s dbName tableName data).2.isSuccessful
  | .deleteTableData dbName tableName data =>
    (deleteTableDataAndGetResponse sv w s dbName tableName data).2.isSuccessful
  | _ => true

/-- The request names a database that is not listed or whose file does not open. The views of
getTableListResponse are no databases. -/
def NamesUnknown : Request → Prop
  | .getTableList none => True
  | .getTableList (some database) => database ∉ views ∧ opened w s (some database) = none
  | .executeQuery dbName _ => opened w s dbName = none
  | .addTableData dbName _ _ => opened w s dbName = none
  | .updateTableData dbName _ _ => opened w s dbName = none
  | .deleteTableData dbName _ _ => opened w s dbName = none
  | _ => False

/-- The request fails and leaves handle, flag and selection, so that the next table is read from
the same store. -/
structure Intact (r : Request) : Prop where
  fails : isSuccessful sv answers w s r = false
  mDatabase : (answer sv s ⟨w, r⟩).1.mDatabase = s.mDatabase
  isDbOpened : (answer sv s ⟨w, r⟩).1.isDbOpened = s.isDbOpened
  mSelectedDatabase : (answer sv s ⟨w, r⟩).1.mSelectedDatabase = s.mSelectedDatabase
  sameStore : ∀ tableName, getAllDataFromTheTableResponse (answer sv s ⟨w, r⟩).1 tableName =
    getAllDataFromTheTableResponse s tableName

/-! The condition. -/

def Reaches : Request → Prop
  | .getTableList (some database) => database ≠ ""
  | r => (opens s sv r).isSome = true

/-- With the preferences selected the changes of a table edit these, whatever database is
named. -/
def EditsPreferences : Request → Prop
  | .addTableData _ tableName data => edits .add tableName data
  | .updateTableData _ tableName data => edits .update tableName data
  | .deleteTableData _ tableName data => edits .delete tableName data
  | _ => False
where
  edits (op : Operation) (tableName data : Option String) : Prop :=
    s.mSelectedDatabase = some Constants.APP_SHARED_PREFERENCES ∧
      ∃ rows e, sv.fromJson data = .ok rows ∧ op.edit sv.device tableName rows = .ok (true, e)

def Harmless (r : Request) : Prop :=
  (Reaches sv s r → s.mDatabase = none) ∧ ¬ EditsPreferences sv s r

end Answers

variable {sv : Services} {answers : Answers} {w : World} {s : State}

theorem sameStore_of_handle {t : State} (hdb : t.mDatabase = s.mDatabase)
    (hflag : t.isDbOpened = s.isDbOpened) (tableName : Option String) :
    getAllDataFromTheTableResponse t tableName = getAllDataFromTheTableResponse s tableName := by
  simp only [getAllDataFromTheTableResponse, hdb, hflag]

theorem intact_of_open_iff (h : Held s) {r : Request} {name : Option String}
    (hname : opened w s name = none)
    (hstate : (answer sv s ⟨w, r⟩).1 = (openDatabase w s name).1)
    (hfails : isSuccessful sv answers w s r = false) :
    Intact sv answers w s r ↔ s.mDatabase = none := by
  obtain ⟨hdb, hflag, -⟩ := openDatabase_state w s name
  rw [hname] at hdb hflag
  constructor
  · intro hi
    rw [← hi.mDatabase, hstate, hdb]
  · intro hnone
    have hdb' : (answer sv s ⟨w, r⟩).1.mDatabase = s.mDatabase := by rw [hstate, hdb, hnone]
    have hflag' : (answer sv s ⟨w, r⟩).1.isDbOpened = s.isDbOpened := by
      rw [hstate, hflag, h.flag, hnone]
    refine ⟨hfails, hdb', hflag', ?_, sameStore_of_handle hdb' hflag'⟩
    rw [hstate, openDatabase_mSelectedDatabase]

theorem intact_of_same {r : Request} (hstate : (answer sv s ⟨w, r⟩).1 = s) :
    Intact sv answers w s r ↔ isSuccessful sv answers w s r = false := by
  refine ⟨Intact.fails, fun hfails => ⟨hfails, ?_, ?_, ?_, ?_⟩⟩ <;> simp [hstate]

theorem open_fails {name : Option String} (hname : opened w s name = none) :
    ∃ x, (openDatabase w s name).2 = .error x := by
  cases hopen : (openDatabase w s name).2 with
  | error x => exact ⟨x, rfl⟩
  | ok file =>
    rw [(openDatabase_ok_iff_opened w s name file).mp hopen] at hname
    cases hname

/-- With no database to open, a change succeeds only as an edit of the preferences. -/
theorem write_successful_iff {op : Operation} {dbName : Option String}
    (hname : opened w s dbName = none) (tableName data : Option String) :
    (tableDataAndGetResponse sv w s op dbName tableName data).2.isSuccessful = true ↔
      EditsPreferences.edits sv s op tableName data := by
  simp only [tableDataAndGetResponse, EditsPreferences.edits]
  cases hjson : sv.fromJson data with
  | error x => simp [WriteAnswer.failed]
  | ok rows =>
    by_cases hprefs : s.mSelectedDatabase = some Constants.APP_SHARED_PREFERENCES
    · cases hedit : op.edit sv.device tableName rows with
      | error x => simp [hprefs, hedit, WriteAnswer.failed]
      | ok r =>
        obtain ⟨ok, e⟩ := r
        simp [hprefs, hedit]
    · obtain ⟨x, hopen⟩ := open_fails hname
      cases hdb : openDatabase w s dbName with
      | mk u r =>
        rw [hdb] at hopen
        simp only at hopen
        subst hopen
        simp [hprefs, WriteAnswer.failed]

theorem write_intact_iff (h : Held s) {r : Request} {op : Operation}
    {dbName tableName data : Option String} (hname : opened w s dbName = none)
    (hstate : (answer sv s ⟨w, r⟩).1 =
      (tableDataAndGetResponse sv w s op dbName tableName data).1)
    (hsuccess : isSuccessful sv answers w s r =
      (tableDataAndGetResponse sv w s op dbName tableName data).2.isSuccessful) :
    Intact sv answers w s r ↔ ((opens.written s sv dbName data).isSome = true →
      s.mDatabase = none) ∧ ¬ EditsPreferences.edits sv s op tableName data := by
  have hedits : isSuccessful sv answers w s r = true ↔
      EditsPreferences.edits sv s op tableName data := by
    rw [hsuccess]
    exact write_successful_iff hname tableName data
  rw [write_state] at hstate
  cases hwritten : opens.written s sv dbName data with
  | none =>
    rw [hwritten] at hstate
    rw [intact_of_same hstate, ← hedits]
    simp
  | some name =>
    rw [hwritten] at hstate
    simp only [opens.written, Option.ite_none_right_eq_some, Option.some.injEq] at hwritten
    obtain ⟨⟨-, hprefs⟩, rfl⟩ := hwritten
    have hno : ¬ EditsPreferences.edits sv s op tableName data := fun he => hprefs he.1
    rw [intact_of_open_iff h hname hstate (Bool.eq_false_iff.mpr fun ht => hno (hedits.mp ht))]
    simp [hno]

theorem listing_fails {database : String} (hempty : database ≠ "") (hview : database ∉ views)
    (hname : opened w s (some database) = none) :
    (getTableListResponse w s (some database)).1 = (openDatabase w s (some database)).1 ∧
      (getTableListResponse w s (some database)).2.isOk = false := by
  simp only [views, List.mem_cons, List.not_mem_nil, or_false, not_or] at hview
  obtain ⟨hprefs, hdir⟩ := hview
  obtain ⟨x, hopen⟩ := open_fails hname
  simp only [getTableListResponse, if_neg hempty, if_neg hprefs, if_neg (not_or.mpr hdir)]
  cases hdb : openDatabase w s (some database) with
  | mk u r =>
    rw [hdb] at hopen
    simp only at hopen
    subst hopen
    exact ⟨rfl, rfl⟩

theorem intact_iff (h : Held s) {r : Request} (hr : NamesUnknown w s r) :
    Intact sv answers w s r ↔ Harmless sv s r := by
  cases r with
  | getTableList database =>
    cases database with
    | none =>
      rw [intact_of_same rfl]
      simp [isSuccessful, Harmless, Reaches, EditsPreferences, opens]
    | some database =>
      obtain ⟨hview, hname⟩ := hr
      by_cases hempty : database = ""
      · subst hempty
        rw [intact_of_same rfl]
        simp [isSuccessful, Harmless, Reaches, EditsPreferences]
      · obtain ⟨hstate, hfails⟩ := listing_fails hempty hview hname
        have hfails' : isSuccessful sv answers w s (.getTableList (some database)) = false := by
          simp [isSuccessful, hfails]
        rw [intact_of_open_iff (r := .getTableList (some database)) h hname hstate hfails']
        simp [Harmless, Reaches, EditsPreferences, hempty]
  | executeQuery dbName query =>
    cases query with
    | none =>
      rw [intact_of_same rfl]
      simp [isSuccessful, executeQuery, Harmless, Reaches, EditsPreferences, opens]
    | some q =>
      have hname : opened w s dbName = none := hr
      have hfails : isSuccessful sv answers w s (.executeQuery dbName (some q)) = false := by
        obtain ⟨x, hopen⟩ := open_fails hname
        simp only [isSuccessful, executeQuery]
        cases hdb : openDatabase w s dbName with
        | mk u r =>
          rw [hdb] at hopen
          simp only at hopen
          subst hopen
          rfl
      rw [intact_of_open_iff h hname rfl hfails]
      simp [Harmless, Reaches, EditsPreferences, opens]
  | addTableData dbName tableName data => exact write_intact_iff h hr rfl rfl
  | updateTableData dbName tableName data => exact write_intact_iff h hr rfl rfl
  | deleteTableData dbName tableName data => exact write_intact_iff h hr rfl rfl
  | _ => cases hr

theorem held_after (sv : Services) (es : List Event) : Held ((handler sv).stateAfter es) :=
  stateFrom_keeps (M := handler sv) (J := Held) (P := fun _ => True)
    (fun _ e hs _ => held_step sv hs e) (initial_consistent twoDatabases).1 es fun _ _ => trivial

/-- After any run, a request that names an unknown database leaves the handler's state intact if
and only if no database is open when it comes to open one and it does not edit the
preferences. -/
theorem unknown_database_intact_iff (sv : Services) (answers : Answers) (es : List Event)
    (w : World) (r : Request) (hr : NamesUnknown w ((handler sv).stateAfter es) r) :
    Intact sv answers w ((handler sv).stateAfter es) r ↔
      Harmless sv ((handler sv).stateAfter es) r :=
  intact_iff (held_after sv es) hr

def noAnswers : Answers := fun _ _ => .ok true

/-- Listing the preferences closes the database whose tables were listed first. -/
def preferencesShown : List Event :=
  [⟨twoDatabases, .getTableList (some "a.db")⟩,
    ⟨twoDatabases, .getTableList (some Constants.APP_SHARED_PREFERENCES)⟩]

theorem unknown_database_intact_with_preferences :
    Intact noServices noAnswers twoDatabases ((handler noServices).stateAfter preferencesShown)
      (.executeQuery (some "c.db") (some "select 1")) := by
  have hunknown : opened twoDatabases ((handler noServices).stateAfter preferencesShown)
      (some "c.db") = none := by decide +kernel
  refine (unknown_database_intact_iff noServices noAnswers preferencesShown twoDatabases
    (.executeQuery (some "c.db") (some "select 1")) hunknown).mpr ⟨fun _ => ?_, id⟩
  decide +kernel

/-- The tables of one database are listed and one that does not exist is queried. -/
theorem unknown_database_closes :
    ¬ ∀ es w r, NamesUnknown w ((handler noServices).stateAfter es) r →
      Intact noServices noAnswers w ((handler noServices).stateAfter es) r := by
  intro h
  have hunknown : opened twoDatabases ((handler noServices).stateAfter
      [⟨twoDatabases, .getTableList (some "a.db")⟩]) (some "c.db") = none := by decide +kernel
  have hi := h _ _ (.executeQuery (some "c.db") (some "select 1")) hunknown
  exact absurd hi.mDatabase (by decide +kernel)

end UnknownDatabase
