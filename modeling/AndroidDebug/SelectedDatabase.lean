import AndroidDebug.DatabaseHandler

/-! The selected database against the open one. A table listing sets both; queries and changes
of a table open the database they name and leave the selection. -/
namespace SelectedDatabase

open DatabaseHelper DatabaseHandler RequestMachine

variable (w : World) (s : State)

/-- The handle and the selection speak of the same database, or of none. -/
structure Consistent : Prop where
  handle : s.isDbOpened = true ↔ s.mDatabase ≠ none
  opened : s.isDbOpened = true → ∃ name file, s.mSelectedDatabase = some name ∧
    (getDBList w s).2.lookup name = some file ∧ s.mDatabase = some file
  closed : s.isDbOpened = false → ∀ name, s.mSelectedDatabase = some name →
    name ∉ (getDBList w s).2

def selectedFile : Option File := find (getDBList w s).2 s.mSelectedDatabase

def opened (database : Option String) : Option File :=
  (find (getDBList w s).2 database).filter w.opens

/-! The condition. -/

/-- The database that a request opens without listing its tables. -/
def opens (sv : Services) : Request → Option (Option String)
  | .executeQuery dbName (some _) => some dbName
  | .addTableData dbName _ data => written dbName data
  | .updateTableData dbName _ data => written dbName data
  | .deleteTableData dbName _ data => written dbName data
  | _ => none
where
  written (dbName data : Option String) : Option (Option String) :=
    if (sv.fromJson data).isOk ∧ s.mSelectedDatabase ≠ some Constants.APP_SHARED_PREFERENCES
    then some dbName else none

/-- The name that a file gets in the list. -/
def addedName (files : Files) (dbFile : File) : String :=
  if dbFile.getName ∈ files then
    (newName files dbFile.getName (files.keys.length + 1) 1).getD dbFile.getName
  else dbFile.getName

/-- The file is one that addDBResponse puts into the list. -/
def Addable (files : Files) (dbFile : File) : Prop :=
  w.isFile dbFile = true ∧ ∀ entry ∈ files.entries, entry.2 ≠ dbFile

/-- While no database is open, nothing is listed under the selected name. -/
def Quiet : Prop := s.isDbOpened = true ∨ selectedFile w s = none

/-- A listing that opens a database succeeds or opens what is selected; the others find no
database under the name they leave selected. -/
def FitsListing (database : String) : Prop :=
  if database = "" then Quiet w s
  else if database = Constants.APP_SHARED_PREFERENCES then
    match w.prefTableNames with
    | .error _ => Quiet w s
    | .ok _ => find (getDBList w s).2 (some Constants.APP_SHARED_PREFERENCES) = none
  else if database = Constants.STORAGE ∨ database = Constants.STORAGE_ANR then
    match w.fileNames (if database = Constants.STORAGE then Constants.ROOT_PATH
        else Constants.ANR_PATH) with
    | .error _ => selectedFile w s = none
    | .ok _ => find (getDBList w s).2 (some Constants.STORAGE) = none
  else
    (∃ file, opened w s (some database) = some file ∧ (w.tableNames file).isOk = true) ∨
      opened w s (some database) = selectedFile w s

/-- A request opens exactly what is selected, and none lists a database under the selected name
while none is open. -/
def Fits (sv : Services) (s : State) (e : Event) : Prop :=
  match opens s sv e.request with
  | some dbName => opened e.world s dbName = selectedFile e.world s
  | none =>
    match e.request with
    | .getTableList (some database) => FitsListing e.world s database
    | .addDB (some dbPath) =>
      Quiet e.world s ∧
        (s.isDbOpened = false → Addable e.world (getDBList e.world s).2 (File.ofPath dbPath) →
          s.mSelectedDatabase ≠ some (addedName (getDBList e.world s).2 (File.ofPath dbPath)))
    | .setCustomDatabaseFiles files => Quiet e.world { s with mCustomDatabaseFiles := files }
    | _ => Quiet e.world s

/-- The table data and the downloaded file come from one store. -/
def SameStore : Prop :=
  ∀ tableName, getAllDataFromTheTableResponse s tableName =
    match (getSelectedDBFile w s).2 with
    | some file => .database (some file) ("SELECT * FROM " ++ tableName.getD NULL)
    | none => .preferences tableName

/-! The handle. -/

/-- In every state reached the flag tells whether there is a handle, and the list has been read
for it. -/
structure Held : Prop where
  flag : s.isDbOpened = s.mDatabase.isSome
  read : s.mDatabase ≠ none → s.mDatabaseFiles ≠ none

variable {w s}

theorem consistent_iff (h : s.isDbOpened = s.mDatabase.isSome) :
    Consistent w s ↔ selectedFile w s = s.mDatabase := by
  constructor
  · intro hc
    cases hd : s.mDatabase with
    | none =>
      have hclosed : s.isDbOpened = false := by rw [h, hd]; rfl
      cases hsel : s.mSelectedDatabase with
      | none => simp [selectedFile, find, hsel]
      | some name =>
        have hname := hc.closed hclosed name hsel
        simpa [selectedFile, find, hsel] using AList.lookup_eq_none.mpr hname
    | some file =>
      have hopen : s.isDbOpened = true := by rw [h, hd]; rfl
      obtain ⟨name, file', hsel, hlookup, hfile⟩ := hc.opened hopen
      rw [selectedFile, find, hsel, Option.bind_some, hlookup, ← hfile, hd]
  · intro hsel
    refine ⟨?_, ?_, ?_⟩
    · rw [h, Option.isSome_iff_ne_none]
    · intro hopen
      obtain ⟨file, hfile⟩ := Option.isSome_iff_exists.mp (h ▸ hopen)
      rw [hfile] at hsel
      obtain ⟨name, hname, hlookup⟩ := Option.bind_eq_some_iff.mp hsel
      exact ⟨name, file, hname, hlookup, hfile⟩
    · intro hclosed name hname
      have hnone : s.mDatabase = none := by
        rw [h] at hclosed
        simpa using hclosed
      rw [hnone, selectedFile, find, hname, Option.bind_some] at hsel
      exact AList.lookup_eq_none.mp hsel

theorem getDBList_state (w : World) (s : State) :
    (getDBList w s).1.mDatabase = s.mDatabase ∧ (getDBList w s).1.isDbOpened = s.isDbOpened ∧
      (getDBList w s).1.mDatabaseFiles = some (getDBList w s).2 := by
  cases h : s.mDatabaseFiles <;> simp [getDBList, h]

theorem list_of_read {files : Files} (h : s.mDatabaseFiles = some files) :
    (getDBList w s).2 = files := by
  simp [getDBList, h]

@[simp] theorem list_getDBList (w : World) (s : State) :
    (getDBList w (getDBList w s).1).2 = (getDBList w s).2 :=
  list_of_read (getDBList_state w s).2.2

theorem selectedFile_getDBList (w : World) (s : State) :
    selectedFile w (getDBList w s).1 = selectedFile w s := by
  rw [selectedFile, list_getDBList, getDBList_mSelectedDatabase, selectedFile]

theorem openDatabase_state (w : World) (s : State) (database : Option String) :
    (openDatabase w s database).1.mDatabase = opened w s database ∧
      (openDatabase w s database).1.isDbOpened = (opened w s database).isSome ∧
      (openDatabase w s database).1.mDatabaseFiles = some (getDBList w s).2 := by
  obtain ⟨hdb, hflag, hread⟩ := getDBList_state w (closeDatabase s)
  rw [getDBList_closeDatabase] at hread
  simp only [openDatabase, getDBList_closeDatabase, opened]
  cases find (getDBList w s).2 database with
  | none => exact ⟨hdb, hflag, hread⟩
  | some file =>
    cases hopens : w.opens file with
    | false => simpa [Option.filter, hopens] using ⟨hdb, hflag, hread⟩
    | true => simpa [Option.filter, hopens] using hread

theorem openDatabase_ok_iff_opened (w : World) (s : State) (database : Option String)
    (file : File) :
    (openDatabase w s database).2 = .ok file ↔ opened w s database = some file := by
  rw [openDatabase_ok_iff, opened, Option.filter_eq_some_iff]

theorem selectedFile_openDatabase (w : World) (s : State) (database : Option String) :
    selectedFile w (openDatabase w s database).1 = selectedFile w s := by
  rw [selectedFile, list_of_read (openDatabase_state w s database).2.2,
    openDatabase_mSelectedDatabase, selectedFile]

theorem Held.openDatabase (w : World) (s : State) (database : Option String) :
    Held (openDatabase w s database).1 := by
  obtain ⟨hdb, hflag, hread⟩ := openDatabase_state w s database
  exact ⟨by rw [hflag, hdb], by simp [hread]⟩

/-- A request that only opens a database is followed by a consistent state exactly when it opens
what is selected. -/
theorem consistent_openDatabase (w : World) (s : State) (database : Option String) :
    Consistent w (openDatabase w s database).1 ↔
      opened w s database = selectedFile w s := by
  rw [consistent_iff (Held.openDatabase w s database).flag, selectedFile_openDatabase,
    (openDatabase_state w s database).1, eq_comm]

theorem write_state (sv : Services) (w : World) (s : State) (op : Operation)
    (dbName tableName data : Option String) :
    (tableDataAndGetResponse sv w s op dbName tableName data).1 =
      match opens.written s sv dbName data with
      | some dbName => (DatabaseHandler.openDatabase w s dbName).1
      | none => s := by
  simp only [tableDataAndGetResponse, opens.written]
  cases hjson : sv.fromJson data with
  | error x => simp [Except.isOk, Except.toBool]
  | ok rows =>
    by_cases hsel : s.mSelectedDatabase = some Constants.APP_SHARED_PREFERENCES
    · simp only [hsel, if_true]
      cases op.edit sv.device tableName rows with
      | error x => simp
      | ok r => simp
    · simp only [hsel, if_false, Except.isOk, Except.toBool, ne_eq, not_false_eq_true, and_self,
        if_true]
      cases hopen : DatabaseHandler.openDatabase w s dbName with
      | mk u r =>
        cases r with
        | error x => rfl
        | ok file =>
          simp only
          cases op.statement sv.platform tableName rows <;> rfl

theorem addDBResponse_state (w : World) (s : State) (dbPath : String) :
    (addDBResponse w s (some dbPath)).1.mDatabase = s.mDatabase ∧
      (addDBResponse w s (some dbPath)).1.isDbOpened = s.isDbOpened ∧
      (Addable w (getDBList w s).2 (File.ofPath dbPath) →
        (getDBList w (addDBResponse w s (some dbPath)).1).2 =
          (getDBList w s).2.insert (addedName (getDBList w s).2 (File.ofPath dbPath))
            (File.ofPath dbPath)) ∧
      (¬ Addable w (getDBList w s).2 (File.ofPath dbPath) →
        (getDBList w (addDBResponse w s (some dbPath)).1).2 = (getDBList w s).2) := by
  obtain ⟨hdb, hflag, hread⟩ := getDBList_state w s
  simp only [addDBResponse]
  split
  · rename_i hfile
    have hnot : ¬ Addable w (getDBList w s).2 (File.ofPath dbPath) := by
      rintro ⟨hfile', -⟩
      simp [hfile'] at hfile
    exact ⟨rfl, rfl, fun h => absurd h hnot, fun _ => rfl⟩
  · rename_i hfile
    split
    · rename_i hany
      have hnot : ¬ Addable w (getDBList w s).2 (File.ofPath dbPath) := by
        rintro ⟨-, hall⟩
        obtain ⟨entry, hentry, heq⟩ := List.any_eq_true.mp hany
        exact hall entry hentry (by simpa using heq)
      exact ⟨hdb, hflag, fun h => absurd h hnot, fun _ => list_getDBList w s⟩
    · rename_i hany
      have hadd : Addable w (getDBList w s).2 (File.ofPath dbPath) := by
        refine ⟨by simpa using hfile, ?_⟩
        intro entry hentry heq
        exact hany (List.any_eq_true.mpr ⟨entry, hentry, by simpa using heq⟩)
      exact ⟨hdb, hflag, fun _ => rfl, fun h => absurd hadd h⟩

/-! One request. -/

theorem Held.of_same {t : State} (h : Held s) (hdb : t.mDatabase = s.mDatabase)
    (hflag : t.isDbOpened = s.isDbOpened)
    (hread : s.mDatabaseFiles ≠ none → t.mDatabaseFiles ≠ none) : Held t :=
  ⟨by rw [hflag, hdb, h.flag], fun hne => hread (h.read (hdb ▸ hne))⟩

theorem Held.getDBList (h : Held s) (w : World) : Held (DatabaseHandler.getDBList w s).1 := by
  obtain ⟨hdb, hflag, hread⟩ := getDBList_state w s
  exact h.of_same hdb hflag (by simp [hread])

theorem Held.addDB (h : Held s) (w : World) (dbPath : Option String) :
    Held (addDBResponse w s dbPath).1 := by
  cases dbPath with
  | none => exact h
  | some path =>
    have hlist := h.getDBList w
    simp only [addDBResponse]
    split
    · exact h
    · split
      · exact hlist
      · exact ⟨hlist.flag, fun _ => by simp⟩

theorem Held.listing (h : Held s) (w : World) (database : Option String) :
    Held (getTableListResponse w s database).1 := by
  cases database with
  | none => exact h
  | some database =>
    simp only [getTableListResponse]
    split
    · exact h
    · split
      · split
        · exact h
        · exact ⟨rfl, fun hne => absurd rfl hne⟩
      · split
        · split <;> exact ⟨rfl, fun hne => absurd rfl hne⟩
        · have hopen := Held.openDatabase w s (some database)
          split
          · rename_i heq
            rwa [heq] at hopen
          · rename_i heq
            rw [heq] at hopen
            split
            · exact hopen
            · exact ⟨hopen.flag, hopen.read⟩

theorem Held.write (h : Held s) (sv : Services) (w : World) (op : Operation)
    (dbName tableName data : Option String) :
    Held (tableDataAndGetResponse sv w s op dbName tableName data).1 := by
  rcases tableDataAndGetResponse_state w s sv op dbName tableName data with heq | heq
  · rwa [heq]
  · rw [heq]
    exact Held.openDatabase w s dbName

theorem held_step (sv : Services) (h : Held s) (e : Event) : Held (answer sv s e).1 := by
  obtain ⟨w, r⟩ := e
  cases r with
  | setCustomDatabaseFiles files => exact ⟨h.flag, h.read⟩
  | getDBList => exact h.getDBList w
  | addDB dbPath => exact h.addDB w dbPath
  | getTableList database => exact h.listing w database
  | getAllDataFromTheTable tableName => exact h
  | executeQuery dbName query =>
    cases query with
    | none => exact h
    | some q => exact Held.openDatabase w s dbName
  | getSelectedDBFile => exact h.getDBList w
  | addTableData dbName tableName data => exact h.write sv w .add dbName tableName data
  | updateTableData dbName tableName data => exact h.write sv w .update dbName tableName data
  | deleteTableData dbName tableName data => exact h.write sv w .delete dbName tableName data

/-- An open database was opened from the list as it has been read. -/
theorem Consistent.open_selected {w₀ : World} (h : Held s) (hc : Consistent w₀ s)
    (hopen : s.isDbOpened = true) : ∃ files name file, s.mDatabaseFiles = some files ∧
      s.mSelectedDatabase = some name ∧ files.lookup name = some file ∧
      s.mDatabase = some file := by
  obtain ⟨name, file, hsel, hlookup, hfile⟩ := hc.opened hopen
  obtain ⟨files, hfiles⟩ := Option.ne_none_iff_exists'.mp (h.read (by simp [hfile]))
  rw [list_of_read hfiles] at hlookup
  exact ⟨files, name, file, hfiles, hsel, hlookup, hfile⟩

/-- A request that leaves handle and selection is followed by a consistent state exactly when
nothing is listed under the selected name, unless a database is open. -/
theorem kept_iff {t : State} (h : Held s) (hdb : t.mDatabase = s.mDatabase)
    (hflag : t.isDbOpened = s.isDbOpened)
    (hopen : s.isDbOpened = true → selectedFile w t = s.mDatabase) :
    Consistent w t ↔ s.isDbOpened = true ∨ selectedFile w t = none := by
  rw [consistent_iff (by rw [hflag, hdb, h.flag]), hdb]
  constructor
  · intro hsel
    cases hfile : s.mDatabase with
    | none => exact Or.inr (hsel.trans hfile)
    | some file => exact Or.inl (by rw [h.flag, hfile]; rfl)
  · rintro (ho | hnone)
    · exact hopen ho
    · cases hfile : s.mDatabase with
      | none => exact hnone
      | some file =>
        have ho : s.isDbOpened = true := by rw [h.flag, hfile]; rfl
        exact (hopen ho).trans hfile

theorem selectedFile_open {w₀ : World} (w : World) (h : Held s) (hc : Consistent w₀ s)
    (hopen : s.isDbOpened = true) : selectedFile w s = s.mDatabase := by
  obtain ⟨files, name, file, hfiles, hsel, hlookup, hfile⟩ := hc.open_selected h hopen
  rw [selectedFile, list_of_read hfiles, hsel, hfile]
  exact hlookup

/-- A state whose list and selection are those of `s`. -/
theorem quiet_iff {w₀ : World} {t : State} (h : Held s) (hc : Consistent w₀ s)
    (hdb : t.mDatabase = s.mDatabase) (hflag : t.isDbOpened = s.isDbOpened)
    (hsel : selectedFile w t = selectedFile w s) : Consistent w t ↔ Quiet w s := by
  rw [kept_iff h hdb hflag fun ho => hsel.trans (selectedFile_open w h hc ho), hsel, Quiet]

theorem addedName_fresh (files : Files) (dbFile : File) : addedName files dbFile ∉ files := by
  unfold addedName
  split
  · obtain ⟨name, hname⟩ := newName_isSome files dbFile.getName
    rw [hname]
    exact newName_fresh hname
  · assumption

theorem addDB_iff {w₀ : World} (h : Held s) (hc : Consistent w₀ s) (dbPath : String) :
    Consistent w (addDBResponse w s (some dbPath)).1 ↔
      Quiet w s ∧ (s.isDbOpened = false → Addable w (getDBList w s).2 (File.ofPath dbPath) →
        s.mSelectedDatabase ≠ some (addedName (getDBList w s).2 (File.ofPath dbPath))) := by
  obtain ⟨hdb, hflag, hadds, hkeeps⟩ := addDBResponse_state w s dbPath
  by_cases hadd : Addable w (getDBList w s).2 (File.ofPath dbPath)
  · have hlist := hadds hadd
    have hfresh := addedName_fresh (getDBList w s).2 (File.ofPath dbPath)
    have hselected : selectedFile w (addDBResponse w s (some dbPath)).1 =
        find ((getDBList w s).2.insert (addedName (getDBList w s).2 (File.ofPath dbPath))
          (File.ofPath dbPath)) s.mSelectedDatabase := by
      rw [selectedFile, hlist, addDBResponse_mSelectedDatabase]
    have hother : s.mSelectedDatabase ≠
        some (addedName (getDBList w s).2 (File.ofPath dbPath)) →
        selectedFile w (addDBResponse w s (some dbPath)).1 = selectedFile w s := by
      intro hne
      rw [hselected, selectedFile]
      cases hs : s.mSelectedDatabase with
      | none => rfl
      | some name =>
        rw [hs] at hne
        exact AList.lookup_insert_ne fun heq => hne (by rw [heq])
    have hopen : s.isDbOpened = true →
        selectedFile w (addDBResponse w s (some dbPath)).1 = s.mDatabase := by
      intro ho
      have hfile := selectedFile_open w h hc ho
      rw [hother, hfile]
      intro heq
      obtain ⟨name, file, hsel, hlookup, -⟩ := hc.opened ho
      rw [selectedFile, find, heq, Option.bind_some, AList.lookup_eq_none.mpr hfresh] at hfile
      rw [h.flag, ← hfile] at ho
      cases ho
    rw [kept_iff h hdb hflag hopen]
    constructor
    · rintro (ho | hnone)
      · exact ⟨Or.inl ho, fun hclosed => by rw [ho] at hclosed; cases hclosed⟩
      · have hne : s.mSelectedDatabase ≠
            some (addedName (getDBList w s).2 (File.ofPath dbPath)) := by
          intro heq
          rw [hselected, heq, find, Option.bind_some, AList.lookup_insert] at hnone
          cases hnone
        exact ⟨Or.inr ((hother hne).symm.trans hnone), fun _ _ => hne⟩
    · rintro ⟨hquiet, hne⟩
      rcases hquiet with ho | hnone
      · exact Or.inl ho
      · cases ho : s.isDbOpened with
        | true => exact Or.inl rfl
        | false => exact Or.inr ((hother (hne ho hadd)).trans hnone)
  · have hsel : selectedFile w (addDBResponse w s (some dbPath)).1 = selectedFile w s := by
      rw [selectedFile, hkeeps hadd, addDBResponse_mSelectedDatabase, selectedFile]
    rw [quiet_iff h hc hdb hflag hsel]
    exact ⟨fun hq => ⟨hq, fun _ h => absurd h hadd⟩, And.left⟩

theorem setCustom_iff {w₀ : World} (h : Held s) (hc : Consistent w₀ s) (files : Option Files) :
    Consistent w { s with mCustomDatabaseFiles := files } ↔
      Quiet w { s with mCustomDatabaseFiles := files } := by
  have hopen : s.isDbOpened = true →
      selectedFile w { s with mCustomDatabaseFiles := files } = s.mDatabase := by
    intro ho
    obtain ⟨listed, name, file, hfiles, hsel, hlookup, hfile⟩ := hc.open_selected h ho
    have hlist : (getDBList w { s with mCustomDatabaseFiles := files }).2 = listed :=
      list_of_read hfiles
    rw [selectedFile, hlist, hsel, hfile]
    exact hlookup
  exact kept_iff (s := s) h rfl rfl hopen

theorem listing_iff {w₀ : World} (h : Held s) (hc : Consistent w₀ s) (database : String) :
    Consistent w (getTableListResponse w s (some database)).1 ↔ FitsListing w s database := by
  have hclosed : ∀ t : State, t.mDatabase = none → t.isDbOpened = false →
      (getDBList w t).2 = (getDBList w s).2 →
      (Consistent w t ↔ find (getDBList w s).2 t.mSelectedDatabase = none) := by
    intro t hdb hflag hlist
    rw [consistent_iff (by rw [hflag, hdb]; rfl), hdb, selectedFile, hlist]
  have hcloses : ∀ selected path, (getDBList w
      { closeDatabase s with mSelectedDatabase := selected, mDirPath := path }).2 =
        (getDBList w s).2 := by
    intro selected path
    cases hr : s.mDatabaseFiles <;> simp [getDBList, closeDatabase, hr, readDBList]
  simp only [getTableListResponse, FitsListing]
  by_cases hempty : database = ""
  · rw [if_pos hempty, if_pos hempty]
    exact quiet_iff h hc rfl rfl rfl
  rw [if_neg hempty, if_neg hempty]
  by_cases hprefs : database = Constants.APP_SHARED_PREFERENCES
  · rw [if_pos hprefs, if_pos hprefs]
    cases w.prefTableNames with
    | error x => exact quiet_iff h hc rfl rfl rfl
    | ok rows => exact hclosed _ rfl rfl (hcloses _ s.mDirPath)
  rw [if_neg hprefs, if_neg hprefs]
  by_cases hdir : database = Constants.STORAGE ∨ database = Constants.STORAGE_ANR
  · rw [if_pos hdir, if_pos hdir]
    cases w.fileNames (if database = Constants.STORAGE then Constants.ROOT_PATH
        else Constants.ANR_PATH) with
    | error x => exact hclosed _ rfl rfl (hcloses s.mSelectedDatabase _)
    | ok rows => exact hclosed _ rfl rfl (hcloses _ _)
  rw [if_neg hdir, if_neg hdir]
  have hopens := openDatabase_ok_iff_opened w s (some database)
  have hcons := consistent_openDatabase w s (some database)
  have hstate := openDatabase_state w s (some database)
  cases hopen : openDatabase w s (some database) with
  | mk u r =>
    rw [hopen] at hopens hcons hstate
    cases r with
    | error x =>
      have hnot : ∀ file, opened w s (some database) ≠ some file := by
        intro file hfile
        cases (hopens file).mpr hfile
      rw [hcons]
      constructor
      · exact Or.inr
      · rintro (⟨file, hfile, -⟩ | heq)
        · exact absurd hfile (hnot file)
        · exact heq
    | ok file =>
      have hfile := (hopens file).mp rfl
      cases htables : w.tableNames file with
      | error x =>
        simp only [htables]
        rw [hcons]
        constructor
        · exact Or.inr
        · rintro (⟨file', hfile', hok⟩ | heq)
          · rw [hfile] at hfile'
            cases hfile'
            rw [htables] at hok
            cases hok
          · exact heq
      | ok rows =>
        simp only [htables]
        refine iff_of_true ?_ (Or.inl ⟨file, hfile, by rw [htables]; rfl⟩)
        obtain ⟨hdb, hflag, hread⟩ := hstate
        simp only at hdb hflag hread
        rw [consistent_iff (by simp [hdb, hflag])]
        have hlist : (getDBList w { u with mSelectedDatabase := some database }).2 =
            (getDBList w s).2 := list_of_read hread
        rw [selectedFile, hlist, hdb, hfile]
        exact (Option.filter_eq_some_iff.mp hfile).1

theorem consistent_step_iff (sv : Services) {w₀ : World} (h : Held s) (hc : Consistent w₀ s)
    (e : Event) : Consistent e.world (answer sv s e).1 ↔ Fits sv s e := by
  obtain ⟨w, r⟩ := e
  have hwrite : ∀ op dbName tableName data,
      Consistent w (tableDataAndGetResponse sv w s op dbName tableName data).1 ↔
        match opens.written s sv dbName data with
        | some dbName => opened w s dbName = selectedFile w s
        | none => Quiet w s := by
    intro op dbName tableName data
    rw [write_state]
    cases opens.written s sv dbName data with
    | none => exact quiet_iff h hc rfl rfl rfl
    | some dbName => exact consistent_openDatabase w s dbName
  obtain ⟨hdb, hflag, -⟩ := getDBList_state w s
  cases r with
  | setCustomDatabaseFiles files => exact setCustom_iff h hc files
  | getDBList => exact quiet_iff h hc hdb hflag (selectedFile_getDBList w s)
  | addDB dbPath =>
    cases dbPath with
    | none => exact quiet_iff h hc rfl rfl rfl
    | some path => exact addDB_iff h hc path
  | getTableList database =>
    cases database with
    | none => exact quiet_iff h hc rfl rfl rfl
    | some database => exact listing_iff h hc database
  | getAllDataFromTheTable tableName => exact quiet_iff h hc rfl rfl rfl
  | executeQuery dbName query =>
    cases query with
    | none => exact quiet_iff h hc rfl rfl rfl
    | some q => exact consistent_openDatabase w s dbName
  | getSelectedDBFile => exact quiet_iff h hc hdb hflag (selectedFile_getDBList w s)
  | addTableData dbName tableName data =>
    simp only [Fits, opens]
    exact hwrite .add dbName tableName data
  | updateTableData dbName tableName data =>
    simp only [Fits, opens]
    exact hwrite .update dbName tableName data
  | deleteTableData dbName tableName data =>
    simp only [Fits, opens]
    exact hwrite .delete dbName tableName data

/-! Runs. -/

theorem Consistent.sameStore (hc : Consistent w s) (h : Held s) : SameStore w s := by
  have hfile : (getSelectedDBFile w s).2 = s.mDatabase := by
    have hsel : (getSelectedDBFile w s).2 = selectedFile w s := by
      simp only [getSelectedDBFile, getDBList_mSelectedDatabase, selectedFile]
    rw [hsel]
    exact (consistent_iff h.flag).mp hc
  intro tableName
  rw [hfile, getAllDataFromTheTableResponse, h.flag]
  cases s.mDatabase <;> rfl

/-- After the request, handle and selection agree and the data requests use one store. -/
def Agree (sv : Services) (s : State) (e : Event) : Prop :=
  Consistent e.world (answer sv s e).1 ∧ SameStore e.world (answer sv s e).1

theorem agree_iff (sv : Services) {w₀ : World} (h : Held s) (hc : Consistent w₀ s) (e : Event) :
    Agree sv s e ↔ Fits sv s e := by
  rw [← consistent_step_iff sv h hc e]
  exact ⟨And.left, fun hcons => ⟨hcons, hcons.sameStore (held_step sv h e)⟩⟩

theorem initial_consistent (w : World) : Held State.initial ∧ Consistent w State.initial := by
  have hheld : Held State.initial := ⟨rfl, fun h => absurd rfl h⟩
  exact ⟨hheld, (consistent_iff hheld.flag).mpr rfl⟩

def twoDatabases : World where
  appFiles := AList.insert "b.db" ⟨"/data/b.db"⟩ (AList.singleton "a.db" ⟨"/data/a.db"⟩)
  isFile _ := true
  opens _ := true
  runs _ _ := true
  tableNames _ := .ok ["users"]
  prefTableNames := .ok ["settings"]
  fileNames _ := .ok []

/-- Through any run, selection and handle agree after every request if and only if every request
meets the condition. -/
theorem selection_and_handle_agree_iff (sv : Services) (es : List Event) :
    (handler sv).Throughout (fun s e _ => Agree sv s e) es ↔
      ∀ pre e post, es = pre ++ e :: post → Fits sv ((handler sv).stateAfter pre) e := by
  apply throughout_iff_of_invariant (J := fun s => Held s ∧ ∃ w, Consistent w s)
  · exact ⟨(initial_consistent twoDatabases).1, twoDatabases, (initial_consistent _).2⟩
  · rintro s e ⟨hheld, -⟩ ⟨hc, -⟩
    exact ⟨held_step sv hheld e, e.world, hc⟩
  · rintro s e ⟨hheld, w, hc⟩
    exact agree_iff sv hheld hc e

def noServices : Services where
  platform := ⟨fun _ => "", fun _ => none, fun _ => none⟩
  device := ⟨fun _ => none, fun _ => none, fun _ => true⟩
  fromJson _ := .error .illegalArgument

/-- The tables of one database are listed and another is queried. -/
def queryAnother : List Event :=
  [⟨twoDatabases, .getTableList (some "a.db")⟩,
    ⟨twoDatabases, .executeQuery (some "b.db") (some "select 1")⟩]

theorem selection_and_handle_diverge :
    ¬ (handler noServices).Throughout (fun s e _ => Agree noServices s e) queryAnother := by
  intro h
  obtain ⟨hc, -⟩ := h (queryAnother.take 1) _ [] rfl
  obtain ⟨name, file, hsel, hlookup, hfile⟩ := hc.opened (by decide +kernel)
  have hname : some name = some "a.db" := hsel.symm.trans (by decide +kernel)
  obtain rfl := Option.some.inj hname
  have hb : some file = some ⟨"/data/b.db"⟩ := hfile.symm.trans (by decide +kernel)
  have ha : some file = some ⟨"/data/a.db"⟩ := hlookup.symm.trans (by decide +kernel)
  rw [ha] at hb
  exact absurd hb (by decide +kernel)

end SelectedDatabase
