import AndroidDebug.PrefHelper
import AndroidDebug.RequestMachine
import Mathlib.Data.List.AList

/-! DatabaseHandler as a machine that answers one request after another. What the device
answers while a request runs is a World of its own. -/
namespace DatabaseHandler

open DatabaseHelper JavaText RequestMachine

namespace Constants

def ROOT_PATH : String := "/sdcard"
def ANR_PATH : String := "/data/anr"
def STORAGE_ANR : String := "ANR"
def STORAGE : String := "Storage"
def APP_SHARED_PREFERENCES : String := "APP_SHARED_PREFERENCES"

end Constants

section Files

/-- A file is the normalized path it was made from. -/
structure File where
  path : String
  deriving DecidableEq, Repr

def squeeze : List Char → List Char
  | '/' :: '/' :: rest => squeeze ('/' :: rest)
  | c :: rest => c :: squeeze rest
  | [] => []

def normalize (pathname : String) : String :=
  let path := squeeze pathname.toList
  String.ofList (if path.getLast? = some '/' ∧ path ≠ ['/'] then path.dropLast else path)

def File.ofPath (pathname : String) : File := ⟨normalize pathname⟩

def File.getName (f : File) : String :=
  String.ofList (f.path.toList.reverse.takeWhile (· ≠ '/')).reverse

abbrev Files := AList fun _ : String => File

end Files

structure World where
  appFiles : Files
  isFile : File → Bool
  opens : File → Bool
  runs : File → Statement → Bool
  tableNames : File → Except JavaException (List String)
  prefTableNames : Except JavaException (List String)
  fileNames : String → Except JavaException (List String)

/-- Gson's reading of the rows of a request, and what the two helpers rest on. -/
structure Services where
  platform : Platform
  device : PrefHelper.Device
  fromJson : Option String → Except JavaException (Option (List (Option RowDataRequest)))

structure State where
  isDbOpened : Bool
  mDatabase : Option File
  mDirPath : Option String
  mDatabaseFiles : Option Files
  mCustomDatabaseFiles : Option Files
  mSelectedDatabase : Option String

def State.initial : State := ⟨false, none, none, none, none, none⟩

section Databases

variable (w : World) (s : State)

def readDBList : Files :=
  match s.mCustomDatabaseFiles with
  | none => w.appFiles
  | some custom => custom ∪ w.appFiles

/-- The list of databases, read at its first use. -/
def getDBList : State × Files :=
  match s.mDatabaseFiles with
  | some files => (s, files)
  | none => ({ s with mDatabaseFiles := some (readDBList w s) }, readDBList w s)

def closeDatabase : State := { s with mDatabase := none, isDbOpened := false }

/-- A key may be null, but no database is listed under it. -/
def find (files : Files) (database : Option String) : Option File := database.bind files.lookup

def openDatabase (database : Option String) : State × Except JavaException File :=
  let (s, files) := getDBList w (closeDatabase s)
  match find files database with
  | none => (s, .error .nullPointer)
  | some file =>
    if w.opens file then ({ s with mDatabase := some file, isDbOpened := true }, .ok file)
    else (s, .error .sqlite)

def getDBListResponse : State × List String :=
  let (s, files) := getDBList w s
  (s, files.keys ++ [Constants.APP_SHARED_PREFERENCES, Constants.STORAGE, Constants.STORAGE_ANR])

/-- The list of databases is never null, so that there is no info_unknown_error. -/
inductive Message where
  | info_not_exist | info_db_exist
  deriving DecidableEq, Repr

def numbered (dbName : String) (index : ℕ) : String := dbName ++ "-" ++ toString index

/-- The search for a name that is not taken, over at most `fuel` numbers. -/
def newName (files : Files) (dbName : String) : ℕ → ℕ → Option String
  | 0, _ => none
  | fuel + 1, index =>
    if numbered dbName index ∈ files then newName files dbName fuel (index + 1)
    else some (numbered dbName index)

/-- A null path raises an exception; otherwise the answer is the new name or a message. -/
def addDBResponse (dbPath : Option String) :
    State × Except JavaException (Except Message String) :=
  match dbPath with
  | none => (s, .error .nullPointer)
  | some dbPath =>
    let dbFile := File.ofPath dbPath
    if !w.isFile dbFile then (s, .ok (.error .info_not_exist))
    else
      let (s, files) := getDBList w s
      let dbName := dbFile.getName
      if files.entries.any fun entry => entry.2 = dbFile then (s, .ok (.error .info_db_exist))
      else
        let dbName := if dbName ∈ files then
          (newName files dbName (files.keys.length + 1) 1).getD dbName else dbName
        ({ s with mDatabaseFiles := some (files.insert dbName dbFile) }, .ok (.ok dbName))

end Databases

section Listing

variable (w : World) (s : State)

def getTableListResponse (database : Option String) : State × Except JavaException (List String) :=
  match database with
  | none => (s, .ok [])
  | some database =>
    if database = "" then (s, .ok [])
    else if database = Constants.APP_SHARED_PREFERENCES then
      match w.prefTableNames with
      | .error e => (s, .error e)
      | .ok rows =>
        ({ closeDatabase s with mSelectedDatabase := some Constants.APP_SHARED_PREFERENCES },
          .ok rows)
    else if database = Constants.STORAGE ∨ database = Constants.STORAGE_ANR then
      let path := if database = Constants.STORAGE then Constants.ROOT_PATH else Constants.ANR_PATH
      let s := { closeDatabase s with mDirPath := some path }
      match w.fileNames path with
      | .error e => (s, .error e)
      | .ok rows => ({ s with mSelectedDatabase := some Constants.STORAGE }, .ok rows)
    else
      match openDatabase w s (some database) with
      | (s, .error e) => (s, .error e)
      | (s, .ok file) =>
        match w.tableNames file with
        | .error e => (s, .error e)
        | .ok rows => ({ s with mSelectedDatabase := some database }, .ok rows)

/-- The store that a listing of a table is read from. -/
inductive Source where
  | database (file : Option File) (sql : String)
  | preferences (tag : Option String)
  deriving DecidableEq, Repr

def getAllDataFromTheTableResponse (tableName : Option String) : Source :=
  if s.isDbOpened then .database s.mDatabase ("SELECT * FROM " ++ tableName.getD NULL)
  else .preferences tableName

/-- Any exception after the query is seen is caught. -/
def executeQueryAndGetResponse (dbName query : Option String) : State :=
  match query with
  | none => s
  | some _ => (openDatabase w s dbName).1

def getSelectedDBFile : State × Option File :=
  let (s, files) := getDBList w s
  (s, find files s.mSelectedDatabase)

end Listing

section Writing

inductive Modification where
  | statement (file : File) (st : Statement)
  | edit (name : String) (e : PrefHelper.Edit)
  deriving DecidableEq, Repr

inductive Operation where
  | add | update | delete
  deriving DecidableEq, Repr

def Operation.statement (p : Platform) :
    Operation → Option String → Option (List (Option RowDataRequest)) →
      Except JavaException (Bool × Option Statement)
  | .add, tableName, rows => addRow p tableName rows
  | .update, tableName, rows =>
    (updateRow p tableName rows).map fun (ok, u) => (ok, u.map Statement.update)
  | .delete, tableName, rows => deleteRow tableName rows

def Operation.edit (dev : PrefHelper.Device) :
    Operation → Option String → Option (List (Option RowDataRequest)) →
      Except JavaException (Bool × Option (String × PrefHelper.Edit))
  | .add, tableName, rows => PrefHelper.addOrUpdateRow dev tableName rows
  | .update, tableName, rows => PrefHelper.addOrUpdateRow dev tableName rows
  | .delete, tableName, rows => PrefHelper.deleteRow dev tableName rows

structure WriteAnswer where
  isSuccessful : Bool
  modification : Option Modification
  deriving DecidableEq, Repr

def WriteAnswer.failed : WriteAnswer := ⟨false, none⟩

variable (sv : Services) (w : World) (s : State)

/-- The three requests that change a table differ in the operation only. -/
def tableDataAndGetResponse (op : Operation) (dbName tableName data : Option String) :
    State × WriteAnswer :=
  match sv.fromJson data with
  | .error _ => (s, .failed)
  | .ok rowDataRequests =>
    if s.mSelectedDatabase = some Constants.APP_SHARED_PREFERENCES then
      match op.edit sv.device tableName rowDataRequests with
      | .error _ => (s, .failed)
      | .ok (ok, edit) => (s, ⟨ok, edit.map fun (name, e) => .edit name e⟩)
    else
      match openDatabase w s dbName with
      | (s, .error _) => (s, .failed)
      | (s, .ok file) =>
        match op.statement sv.platform tableName rowDataRequests with
        | .error _ => (s, .failed)
        | .ok (ok, st) => (s, ⟨ok && st.all (w.runs file), st.map (.statement file)⟩)

def addTableDataAndGetResponse := tableDataAndGetResponse sv w s .add
def updateTableDataAndGetResponse := tableDataAndGetResponse sv w s .update
def deleteTableDataAndGetResponse := tableDataAndGetResponse sv w s .delete

end Writing

inductive Request where
  | setCustomDatabaseFiles (files : Option Files)
  | getDBList
  | addDB (dbPath : Option String)
  | getTableList (database : Option String)
  | getAllDataFromTheTable (tableName : Option String)
  | executeQuery (dbName query : Option String)
  | getSelectedDBFile
  | addTableData (dbName tableName addData : Option String)
  | updateTableData (dbName tableName updatedData : Option String)
  | deleteTableData (dbName tableName deleteData : Option String)

inductive Answer where
  | done
  | dbList (rows : List String)
  | added (result : Except JavaException (Except Message String))
  | tableList (result : Except JavaException (List String))
  | tableData (source : Source)
  | dbFile (file : Option File)
  | written (answer : WriteAnswer)

/-- A request and the world while it runs. -/
structure Event where
  world : World
  request : Request

def answer (sv : Services) (s : State) (e : Event) : State × Answer :=
  match e.request with
  | .setCustomDatabaseFiles files => ({ s with mCustomDatabaseFiles := files }, .done)
  | .getDBList => (getDBListResponse e.world s).map id .dbList
  | .addDB dbPath => (addDBResponse e.world s dbPath).map id .added
  | .getTableList database => (getTableListResponse e.world s database).map id .tableList
  | .getAllDataFromTheTable tableName =>
    (s, .tableData (getAllDataFromTheTableResponse s tableName))
  | .executeQuery dbName query => (executeQueryAndGetResponse e.world s dbName query, .done)
  | .getSelectedDBFile => (getSelectedDBFile e.world s).map id .dbFile
  | .addTableData dbName tableName addData =>
    (addTableDataAndGetResponse sv e.world s dbName tableName addData).map id .written
  | .updateTableData dbName tableName updatedData =>
    (updateTableDataAndGetResponse sv e.world s dbName tableName updatedData).map id .written
  | .deleteTableData dbName tableName deleteData =>
    (deleteTableDataAndGetResponse sv e.world s dbName tableName deleteData).map id .written

section Names

theorem numbered_injective (dbName : String) : Function.Injective (numbered dbName) := by
  intro i j h
  have happend : (dbName ++ "-").toList ++ (toString i).toList =
      (dbName ++ "-").toList ++ (toString j).toList := by
    rw [← String.toList_append, ← String.toList_append]
    exact congrArg String.toList h
  exact natToString_injective (String.toList_injective (List.append_cancel_left happend))

theorem newName_eq_none_iff (files : Files) (dbName : String) (fuel index : ℕ) :
    newName files dbName fuel index = none ↔ ∀ i < fuel, numbered dbName (index + i) ∈ files := by
  induction fuel generalizing index with
  | zero => simp [newName]
  | succ fuel ih =>
    by_cases hname : numbered dbName index ∈ files
    · have hstep : newName files dbName (fuel + 1) index = newName files dbName fuel (index + 1) :=
        if_pos hname
      rw [hstep, ih]
      constructor
      · intro h i hi
        cases i with
        | zero => exact hname
        | succ i =>
          have hi' := h i (by omega)
          rwa [Nat.add_assoc, Nat.add_comm 1] at hi'
      · intro h i hi
        have hi' := h (i + 1) (by omega)
        rwa [Nat.add_comm i, ← Nat.add_assoc] at hi'
    · have hstep : newName files dbName (fuel + 1) index = some (numbered dbName index) :=
        if_neg hname
      rw [hstep]
      constructor
      · intro h
        cases h
      · intro h
        exact absurd (h 0 (by omega)) hname

theorem newName_fresh {files : Files} {dbName name : String} {fuel index : ℕ}
    (h : newName files dbName fuel index = some name) : name ∉ files := by
  induction fuel generalizing index with
  | zero => cases h
  | succ fuel ih =>
    by_cases hname : numbered dbName index ∈ files
    · exact ih ((if_pos hname).symm.trans h)
    · obtain rfl : numbered dbName index = name := Option.some.inj ((if_neg hname).symm.trans h)
      exact hname

/-- One name more than there are databases is enough for the search. -/
theorem newName_isSome (files : Files) (dbName : String) :
    ∃ name, newName files dbName (files.keys.length + 1) 1 = some name := by
  rw [← Option.isSome_iff_exists, Option.isSome_iff_ne_none, Ne, newName_eq_none_iff]
  intro hall
  have hsub : (List.range (files.keys.length + 1)).map (fun i => numbered dbName (1 + i)) ⊆
      files.keys := by
    intro name hname
    obtain ⟨i, hi, rfl⟩ := List.mem_map.mp hname
    exact hall i (List.mem_range.mp hi)
  have hnodup : ((List.range (files.keys.length + 1)).map
      fun i => numbered dbName (1 + i)).Nodup := by
    refine List.Nodup.map ?_ List.nodup_range
    exact (numbered_injective dbName).comp fun i j (h : 1 + i = 1 + j) => by omega
  have hlength := (List.subperm_of_subset hnodup hsub).length_le
  rw [List.length_map, List.length_range] at hlength
  omega

end Names

section Fields

variable (w : World) (s : State)

@[simp] theorem getDBList_mSelectedDatabase :
    (getDBList w s).1.mSelectedDatabase = s.mSelectedDatabase := by
  cases h : s.mDatabaseFiles <;> simp [getDBList, h]

@[simp] theorem getDBList_closeDatabase :
    (getDBList w (closeDatabase s)).2 = (getDBList w s).2 := by
  cases h : s.mDatabaseFiles <;> simp [getDBList, closeDatabase, h, readDBList]

@[simp] theorem openDatabase_mSelectedDatabase (database : Option String) :
    (openDatabase w s database).1.mSelectedDatabase = s.mSelectedDatabase := by
  have hlist : (getDBList w (closeDatabase s)).1.mSelectedDatabase = s.mSelectedDatabase :=
    getDBList_mSelectedDatabase w (closeDatabase s)
  simp only [openDatabase]
  split
  · exact hlist
  · split <;> exact hlist

theorem openDatabase_ok_iff (database : Option String) (file : File) :
    (openDatabase w s database).2 = .ok file ↔
      find (getDBList w s).2 database = some file ∧ w.opens file := by
  simp only [openDatabase, getDBList_closeDatabase]
  cases find (getDBList w s).2 database with
  | none => simp
  | some f =>
    by_cases hf : f = file
    · subst hf
      cases hopens : w.opens f <;> simp [hopens]
    · cases hopens : w.opens f <;> simp [hopens, hf]

@[simp] theorem addDBResponse_mSelectedDatabase (dbPath : Option String) :
    (addDBResponse w s dbPath).1.mSelectedDatabase = s.mSelectedDatabase := by
  cases dbPath with
  | none => rfl
  | some path =>
    simp only [addDBResponse]
    split
    · rfl
    · split <;> exact getDBList_mSelectedDatabase w s

/-- A write leaves the state, or opens the database it names. -/
theorem tableDataAndGetResponse_state (sv : Services) (op : Operation)
    (dbName tableName data : Option String) :
    (tableDataAndGetResponse sv w s op dbName tableName data).1 = s ∨
      (tableDataAndGetResponse sv w s op dbName tableName data).1 =
        (openDatabase w s dbName).1 := by
  simp only [tableDataAndGetResponse]
  split
  · exact Or.inl rfl
  · split
    · split <;> exact Or.inl rfl
    · split
      · rename_i hopen
        exact Or.inr (by rw [hopen])
      · rename_i hopen
        split <;> exact Or.inr (by rw [hopen])

@[simp] theorem tableDataAndGetResponse_mSelectedDatabase (sv : Services) (op : Operation)
    (dbName tableName data : Option String) :
    (tableDataAndGetResponse sv w s op dbName tableName data).1.mSelectedDatabase =
      s.mSelectedDatabase := by
  rcases tableDataAndGetResponse_state w s sv op dbName tableName data with h | h
  · rw [h]
  · rw [h, openDatabase_mSelectedDatabase]

end Fields

def handler (sv : Services) : Machine State Event Answer := ⟨.initial, answer sv⟩

end DatabaseHandler
