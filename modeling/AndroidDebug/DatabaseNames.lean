import AndroidDebug.SelectedDatabase

/-! Which databases are listed, and under which names. The list is read once and then only
grows; three names, and the empty one, are answered without it. -/
namespace DatabaseNames

open DatabaseHandler RequestMachine SelectedDatabase

/-- The names for which getTableListResponse opens no database. -/
def Reserved (name : String) : Prop :=
  name = "" ∨ name = Constants.APP_SHARED_PREFERENCES ∨ name = Constants.STORAGE ∨
    name = Constants.STORAGE_ANR

instance (name : String) : Decidable (Reserved name) :=
  inferInstanceAs (Decidable (_ = _ ∨ _ = _ ∨ _ = _ ∨ _ = _))

/-- The name is listed for the file, whenever the list is asked for. -/
def Lists (s : State) (name : String) (file : File) : Prop :=
  ∀ w, (getDBList w s).2.lookup name = some file

/-- A listing of the name's tables opens the file, if it can be opened at all, and answers with
its tables. -/
def Opens (s : State) (name : String) (file : File) : Prop :=
  ∀ w : World, w.opens file = true →
    (getTableListResponse w s (some name)).1.mDatabase = some file ∧
      (getTableListResponse w s (some name)).2 = w.tableNames file

variable {w : World} {s : State} {name : String} {file : File}

theorem getTableList_opens (hname : ¬ Reserved name)
    (hfile : (getDBList w s).2.lookup name = some file) (hopens : w.opens file = true) :
    (getTableListResponse w s (some name)).1.mDatabase = some file ∧
      (getTableListResponse w s (some name)).2 = w.tableNames file := by
  simp only [Reserved, not_or] at hname
  obtain ⟨hempty, hprefs, hstorage, hanr⟩ := hname
  have hok : (openDatabase w s (some name)).2 = .ok file :=
    (openDatabase_ok_iff w s (some name) file).mpr ⟨hfile, hopens⟩
  have hdb : (openDatabase w s (some name)).1.mDatabase = some file := by
    rw [(openDatabase_state w s (some name)).1, ← openDatabase_ok_iff_opened]
    exact hok
  have hdir : ¬(name = Constants.STORAGE ∨ name = Constants.STORAGE_ANR) :=
    not_or.mpr ⟨hstorage, hanr⟩
  simp only [getTableListResponse, if_neg hempty, if_neg hprefs, if_neg hdir]
  cases hopen : openDatabase w s (some name) with
  | mk u r =>
    rw [hopen] at hok hdb
    simp only at hok hdb
    subst hok
    cases htables : w.tableNames file with
    | error x => simp [htables, hdb]
    | ok rows => simp [htables, hdb]

/-- Whatever the app's own files and the answers of the device, the list of `w` is asked. -/
def answering (w : World) (tables : List String) : World :=
  { w with
    opens := fun _ => true
    tableNames := fun _ => .ok tables
    prefTableNames := .ok []
    fileNames := fun _ => .ok [] }

theorem list_answering (w : World) (s : State) (tables : List String) :
    (getDBList (answering w tables) s).2 = (getDBList w s).2 := by
  cases h : s.mDatabaseFiles <;> simp [getDBList, h, readDBList, answering]

theorem not_opens_reserved (w : World) (h : Reserved name) : ¬ Opens s name file := by
  intro hopens
  have htables := (hopens (answering w ["t"]) rfl).2
  simp only [getTableListResponse, answering] at htables
  by_cases hempty : name = ""
  · simp [hempty] at htables
  rw [if_neg hempty] at htables
  by_cases hprefs : name = Constants.APP_SHARED_PREFERENCES
  · simp [hprefs] at htables
  rw [if_neg hprefs] at htables
  have hdir : name = Constants.STORAGE ∨ name = Constants.STORAGE_ANR := by
    rcases h with h | h | h
    · exact absurd h hempty
    · exact absurd h hprefs
    · exact h
  rw [if_pos hdir] at htables
  simp at htables

theorem opens_iff (w₀ : World) : Opens s name file ↔ ¬ Reserved name ∧ Lists s name file := by
  constructor
  · intro h
    have hname : ¬ Reserved name := fun hr => not_opens_reserved w₀ hr h
    refine ⟨hname, fun w => ?_⟩
    obtain ⟨hdb, -⟩ := h (answering w []) rfl
    simp only [Reserved, not_or] at hname
    obtain ⟨hempty, hprefs, hstorage, hanr⟩ := hname
    have hdir : ¬(name = Constants.STORAGE ∨ name = Constants.STORAGE_ANR) :=
      not_or.mpr ⟨hstorage, hanr⟩
    have hopened : opened (answering w []) s (some name) = some file := by
      rw [← (openDatabase_state _ s (some name)).1]
      simp only [getTableListResponse, if_neg hempty, if_neg hprefs, if_neg hdir] at hdb
      cases hopen : openDatabase (answering w []) s (some name) with
      | mk u r =>
        rw [hopen] at hdb
        cases r with
        | error x => exact hdb
        | ok f => simpa [answering] using hdb
    rw [opened, list_answering] at hopened
    exact (Option.filter_eq_some_iff.mp hopened).1
  · rintro ⟨hname, hlists⟩ w hopens
    exact getTableList_opens hname (hlists w) hopens

theorem lists_of_read {files : Files} (h : s.mDatabaseFiles = some files) :
    Lists s name file ↔ files.lookup name = some file := by
  constructor
  · intro hl
    have hw := hl twoDatabases
    rwa [list_of_read h] at hw
  · intro hf w
    rw [list_of_read h]
    exact hf

theorem lists_of_unread (h : s.mDatabaseFiles = none) {custom : Files}
    (hcustom : s.mCustomDatabaseFiles = some custom) (hf : custom.lookup name = some file) :
    Lists s name file := by
  intro w
  have hmem : name ∈ custom := by
    rw [← AList.lookup_isSome, hf]
    rfl
  simp only [getDBList, h, readDBList, hcustom]
  rw [AList.lookup_union_left hmem, hf]

/-! How the list grows. -/

theorem addDBResponse_cases (w : World) (s : State) (dbPath : String) :
    (w.isFile (File.ofPath dbPath) = false ∧
      addDBResponse w s (some dbPath) = (s, .ok (.error .info_not_exist))) ∨
    ((∃ entry ∈ (getDBList w s).2.entries, entry.2 = File.ofPath dbPath) ∧
      addDBResponse w s (some dbPath) = ((getDBList w s).1, .ok (.error .info_db_exist))) ∨
    (Addable w (getDBList w s).2 (File.ofPath dbPath) ∧
      addDBResponse w s (some dbPath) =
        ({ (getDBList w s).1 with
            mDatabaseFiles := some ((getDBList w s).2.insert
              (addedName (getDBList w s).2 (File.ofPath dbPath)) (File.ofPath dbPath)) },
          .ok (.ok (addedName (getDBList w s).2 (File.ofPath dbPath))))) := by
  cases hfile : w.isFile (File.ofPath dbPath) with
  | false => exact Or.inl ⟨rfl, by simp [addDBResponse, hfile]⟩
  | true =>
    right
    by_cases hany : (getDBList w s).2.entries.any fun entry => entry.2 = File.ofPath dbPath
    · left
      obtain ⟨entry, hentry, heq⟩ := List.any_eq_true.mp hany
      exact ⟨⟨entry, hentry, by simpa using heq⟩, by simp [addDBResponse, hfile, hany]⟩
    · right
      refine ⟨⟨hfile, fun entry hentry heq => ?_⟩, ?_⟩
      · exact hany (List.any_eq_true.mpr ⟨entry, hentry, by simpa using heq⟩)
      · simp only [addDBResponse, hfile, Bool.not_true, Bool.false_eq_true, if_false, hany,
          addedName]

/-- The list after a request: not touched, read, or read and one entry longer. -/
inductive ListChange (w : World) (s t : State) : Prop where
  | same : t.mDatabaseFiles = s.mDatabaseFiles →
      t.mCustomDatabaseFiles = s.mCustomDatabaseFiles → ListChange w s t
  | read : t.mDatabaseFiles = some (getDBList w s).2 → ListChange w s t
  | added (f : File) : t.mDatabaseFiles =
      some ((getDBList w s).2.insert (addedName (getDBList w s).2 f) f) → ListChange w s t

theorem openDatabase_change (w : World) (s : State) (database : Option String) :
    ListChange w s (openDatabase w s database).1 :=
  .read (openDatabase_state w s database).2.2

theorem getTableList_change (w : World) (s : State) (database : Option String) :
    ListChange w s (getTableListResponse w s database).1 := by
  cases database with
  | none => exact .same rfl rfl
  | some database =>
    simp only [getTableListResponse]
    split
    · exact .same rfl rfl
    · split
      · split <;> exact .same rfl rfl
      · split
        · split <;> exact .same rfl rfl
        · have hopen := (openDatabase_state w s (some database)).2.2
          split
          · rename_i heq
            rw [heq] at hopen
            exact .read hopen
          · rename_i heq
            rw [heq] at hopen
            split <;> exact .read hopen

theorem tableData_change (sv : Services) (w : World) (s : State) (op : Operation)
    (dbName tableName data : Option String) :
    ListChange w s (tableDataAndGetResponse sv w s op dbName tableName data).1 := by
  rcases tableDataAndGetResponse_state w s sv op dbName tableName data with h | h
  · rw [h]
    exact .same rfl rfl
  · rw [h]
    exact openDatabase_change w s dbName

theorem list_change (sv : Services) (s : State) (w : World) {r : Request}
    (hr : ∀ files, r ≠ .setCustomDatabaseFiles files) :
    ListChange w s (answer sv s ⟨w, r⟩).1 := by
  have hread := (getDBList_state w s).2.2
  cases r with
  | setCustomDatabaseFiles files => exact absurd rfl (hr files)
  | getDBList => exact .read hread
  | addDB dbPath =>
    cases dbPath with
    | none => exact .same rfl rfl
    | some path =>
      show ListChange w s (addDBResponse w s (some path)).1
      rcases addDBResponse_cases w s path with ⟨-, h⟩ | ⟨-, h⟩ | ⟨-, h⟩
      · rw [h]
        exact .same rfl rfl
      · rw [h]
        exact .read hread
      · rw [h]
        exact .added _ rfl
  | getTableList database => exact getTableList_change w s database
  | getAllDataFromTheTable tableName => exact .same rfl rfl
  | executeQuery dbName query =>
    cases query with
    | none => exact .same rfl rfl
    | some q => exact openDatabase_change w s dbName
  | getSelectedDBFile => exact .read hread
  | addTableData dbName tableName data => exact tableData_change sv w s .add dbName tableName data
  | updateTableData dbName tableName data =>
    exact tableData_change sv w s .update dbName tableName data
  | deleteTableData dbName tableName data =>
    exact tableData_change sv w s .delete dbName tableName data

theorem lookup_added {files : Files} (h : files.lookup name = some file) (f : File) :
    (files.insert (addedName files f) f).lookup name = some file := by
  have hne : name ≠ addedName files f := by
    rintro rfl
    rw [AList.lookup_eq_none.mpr (addedName_fresh files f)] at h
    cases h
  rw [AList.lookup_insert_ne hne, h]

theorem Lists.kept {t : State} (h : Lists s name file) (hc : ListChange w s t) :
    Lists t name file := by
  cases hc with
  | same hfiles hcustom =>
    intro w'
    have hlist : (getDBList w' t).2 = (getDBList w' s).2 := by
      cases hf : s.mDatabaseFiles with
      | none => simp [getDBList, hfiles, hf, readDBList, hcustom]
      | some files => simp [getDBList, hfiles, hf]
    rw [hlist]
    exact h w'
  | read hread => exact (lists_of_read hread).mpr (h w)
  | added f hread => exact (lists_of_read hread).mpr (lookup_added (h w) f)

def Customizes : Request → Prop
  | .setCustomDatabaseFiles _ => True
  | _ => False

theorem Lists.answer (sv : Services) (h : Lists s name file) {e : Event}
    (he : ¬ Customizes e.request) : Lists (DatabaseHandler.answer sv s e).1 name file := by
  apply h.kept (w := e.world)
  apply list_change
  rintro files hr
  rw [hr] at he
  exact he trivial

/-- Once the list has been read, custom databases that come later do not change it. -/
theorem listed_answer (sv : Services)
    (h : ∃ files, s.mDatabaseFiles = some files ∧ files.lookup name = some file) (e : Event) :
    ∃ files, (answer sv s e).1.mDatabaseFiles = some files ∧ files.lookup name = some file := by
  obtain ⟨files, hread, hf⟩ := h
  by_cases hset : ∃ custom, e.request = .setCustomDatabaseFiles custom
  · obtain ⟨custom, hr⟩ := hset
    refine ⟨files, ?_, hf⟩
    simp only [answer, hr]
    exact hread
  · have hlist : (getDBList e.world s).2.lookup name = some file := by
      rw [list_of_read hread, hf]
    have hchange := list_change sv s e.world (r := e.request) fun custom hr => hset ⟨custom, hr⟩
    rcases hchange with ⟨hsame, -⟩ | hsame | ⟨f, hsame⟩
    · exact ⟨files, hsame.trans hread, hf⟩
    · exact ⟨_, hsame, hlist⟩
    · exact ⟨_, hsame, lookup_added hlist f⟩

/-! Custom databases. -/

/-- The name is a row of the list of databases. -/
def Shown (s : State) (name : String) : Prop := ∀ w, name ∈ (getDBListResponse w s).2

theorem Lists.shown (h : Lists s name file) : Shown s name := by
  intro w
  have hmem : name ∈ (getDBList w s).2 := by
    rw [← AList.lookup_isSome, h w]
    rfl
  exact List.mem_append_left _ hmem

/-- Custom databases stay listed until others are set, and added ones always. -/
structure Kept (sv : Services) (es : List Event) : Prop where
  custom : ∀ pre w custom mid post,
    es = pre ++ ⟨w, .setCustomDatabaseFiles (some custom)⟩ :: (mid ++ post) →
    (∀ e ∈ mid, ¬ Customizes e.request) → ∀ name file, custom.lookup name = some file →
    let t := (handler sv).stateAfter (pre ++ ⟨w, .setCustomDatabaseFiles (some custom)⟩ :: mid)
    Shown t name ∧ Opens t name file
  added : ∀ pre w path mid post name, es = pre ++ ⟨w, .addDB (some path)⟩ :: (mid ++ post) →
    (addDBResponse w ((handler sv).stateAfter pre) (some path)).2 = .ok (.ok name) →
    let t := (handler sv).stateAfter (pre ++ ⟨w, .addDB (some path)⟩ :: mid)
    Shown t name ∧ Lists t name (File.ofPath path)

/-- Custom databases come before the list is read, or are in it; none has a reserved name. -/
def Timely (s : State) : Request → Prop
  | .setCustomDatabaseFiles (some custom) =>
    (∀ name ∈ custom, ¬ Reserved name) ∧
      ∀ files, s.mDatabaseFiles = some files → ∀ name file, custom.lookup name = some file →
        files.lookup name = some file
  | _ => True

theorem lists_custom {custom : Files} (hcustom : s.mCustomDatabaseFiles = some custom)
    (hf : custom.lookup name = some file) :
    Lists s name file ↔
      ∀ files, s.mDatabaseFiles = some files → files.lookup name = some file := by
  cases hread : s.mDatabaseFiles with
  | none => exact iff_of_true (lists_of_unread hread hcustom hf) fun _ h => by cases h
  | some files =>
    rw [lists_of_read hread]
    constructor
    · rintro h _ ⟨⟩
      exact h
    · exact fun h => h files rfl

theorem added_listed (h : (addDBResponse w s (some path)).2 = .ok (.ok name)) :
    ∃ files, (addDBResponse w s (some path)).1.mDatabaseFiles = some files ∧
      files.lookup name = some (File.ofPath path) := by
  rcases addDBResponse_cases w s path with ⟨-, heq⟩ | ⟨-, heq⟩ | ⟨-, heq⟩
  · rw [heq] at h
    cases h
  · rw [heq] at h
    cases h
  · rw [heq] at h ⊢
    obtain rfl := Except.ok.inj (Except.ok.inj h)
    exact ⟨_, rfl, AList.lookup_insert _⟩

/-- Through any run, custom databases are kept if and only if each request that sets them comes
before the list is read, or names what is listed already, and uses no reserved name. -/
theorem custom_databases_kept_iff (sv : Services) (es : List Event) :
    Kept sv es ↔ ∀ pre e post, es = pre ++ e :: post →
      Timely ((handler sv).stateAfter pre) e.request := by
  constructor
  · intro h pre e post hes
    obtain ⟨w, r⟩ := e
    cases r with
    | setCustomDatabaseFiles files =>
      cases files with
      | none => trivial
      | some custom =>
        have hopens : ∀ name file, custom.lookup name = some file → ¬ Reserved name ∧ Lists
            { (handler sv).stateAfter pre with mCustomDatabaseFiles := some custom } name file := by
          intro name file hf
          have hkept := (h.custom pre w custom [] post hes (by simp) name file hf).2
          rw [stateAfter_concat] at hkept
          exact (opens_iff w).mp hkept
        constructor
        · intro name hname
          obtain ⟨file, hf⟩ := Option.isSome_iff_exists.mp (AList.lookup_isSome.mpr hname)
          exact (hopens name file hf).1
        · intro files hread name file hf
          exact (lists_custom rfl hf).mp (hopens name file hf).2 files hread
    | _ => trivial
  · intro h
    constructor
    · intro pre w custom mid post hes hmid name file hf
      obtain ⟨hreserved, hlisted⟩ := h pre _ (mid ++ post) hes
      have hmem : name ∈ custom := by
        rw [← AList.lookup_isSome, hf]
        rfl
      have hset : Lists { (handler sv).stateAfter pre with mCustomDatabaseFiles := some custom }
          name file := (lists_custom rfl hf).mpr fun files hread => hlisted files hread name file hf
      have hlists : Lists ((handler sv).stateAfter
          (pre ++ ⟨w, .setCustomDatabaseFiles (some custom)⟩ :: mid)) name file := by
        rw [stateAfter_append]
        exact stateFrom_keeps (J := fun t => Lists t name file)
          (fun s e hs he => Lists.answer sv hs he) hset mid hmid
      exact ⟨hlists.shown, (opens_iff w).mpr ⟨hreserved name hmem, hlists⟩⟩
    · intro pre w path mid post name _ hadded
      have hlists : Lists ((handler sv).stateAfter (pre ++ ⟨w, .addDB (some path)⟩ :: mid)) name
          (File.ofPath path) := by
        rw [stateAfter_append]
        obtain ⟨files, hread, hf⟩ := stateFrom_keeps (M := handler sv)
          (J := fun t => ∃ files, t.mDatabaseFiles = some files ∧
            files.lookup name = some (File.ofPath path)) (P := fun _ => True)
          (fun s e hs _ => listed_answer sv hs e) (added_listed hadded) mid fun _ _ => trivial
        exact (lists_of_read hread).mpr hf
      exact ⟨hlists.shown, hlists⟩

/-- The list of databases is asked for before the app sets one of its own. -/
def setAfterListing : List Event :=
  [⟨twoDatabases, .getDBList⟩,
    ⟨twoDatabases, .setCustomDatabaseFiles (some (AList.singleton "c.db" ⟨"/sdcard/c.db"⟩))⟩]

theorem custom_database_lost : ¬ Kept noServices setAfterListing := by
  intro h
  have hkept := h.custom (setAfterListing.take 1) twoDatabases _ [] [] rfl (by simp) "c.db"
    ⟨"/sdcard/c.db"⟩ (by decide +kernel)
  exact absurd (hkept.1 twoDatabases) (by decide +kernel)

/-! Added databases. -/

def views : List String :=
  [Constants.APP_SHARED_PREFERENCES, Constants.STORAGE, Constants.STORAGE_ANR]

theorem reserved_iff (name : String) : Reserved name ↔ name = "" ∨ name ∈ views := by
  simp [Reserved, views]

theorem rows_nodup_iff (w : World) (s : State) :
    (getDBListResponse w s).2.Nodup ↔ ∀ name ∈ views, name ∉ (getDBList w s).2 := by
  have hviews : views.Nodup := by decide
  have hrows : (getDBListResponse w s).2 = (getDBList w s).2.keys ++ views := rfl
  rw [hrows, List.nodup_append]
  constructor
  · rintro ⟨-, -, hdisjoint⟩ name hview hmem
    exact hdisjoint name (AList.mem_keys.mpr hmem) name hview rfl
  · intro h
    refine ⟨AList.keys_nodup _, hviews, ?_⟩
    rintro name hkey _ hview rfl
    exact h name hview (AList.mem_keys.mp hkey)

theorem newName_numbered {files : Files} {dbName : String} {fuel index : ℕ}
    (h : newName files dbName fuel index = some name) : ∃ i, name = numbered dbName i := by
  induction fuel generalizing index with
  | zero => cases h
  | succ fuel ih =>
    rw [newName] at h
    split at h
    · exact ih h
    · exact ⟨index, (Option.some.inj h).symm⟩

theorem numbered_not_reserved (dbName : String) (i : ℕ) : ¬ Reserved (numbered dbName i) := by
  have hdash : '-' ∈ (numbered dbName i).toList := by
    simp [numbered, String.toList_append]
  intro h
  rcases h with h | h | h | h <;> exact absurd (h ▸ hdash) (by decide)

theorem addedName_reserved_iff (files : Files) (f : File) :
    Reserved (addedName files f) ↔ f.getName ∉ files ∧ Reserved f.getName := by
  unfold addedName
  split
  · rename_i hmem
    obtain ⟨name, hname⟩ := newName_isSome files f.getName
    obtain ⟨i, rfl⟩ := newName_numbered hname
    rw [hname]
    exact iff_of_false (numbered_not_reserved f.getName i) fun h => h.1 hmem
  · rename_i hmem
    exact ⟨fun h => ⟨hmem, h⟩, And.right⟩

/-- Calls of addDBResponse only, on a list that has been read. -/
def adding (files : Files) :
    Machine State (World × String)
      (Except DatabaseHelper.JavaException (Except Message String)) where
  initial := { State.initial with mDatabaseFiles := some files }
  answer s e := addDBResponse e.1 s (some e.2)

/-- One call keeps what is listed, refuses a listed file, finds a name for another, and leaves
the rows distinct. -/
structure Fair (w : World) (s : State) (path : String) : Prop where
  kept : ∀ name file, Lists s name file → Lists (addDBResponse w s (some path)).1 name file
  refused : ∀ name, Lists s name (File.ofPath path) →
    ∃ m, (addDBResponse w s (some path)).2 = .ok (.error m)
  searched : ∀ dbName, ∃ fuel name, newName (getDBList w s).2 dbName fuel 1 = some name
  fresh : ∀ name, (addDBResponse w s (some path)).2 = .ok (.ok name) →
    name ∉ (getDBList w s).2 ∧ Lists (addDBResponse w s (some path)).1 name (File.ofPath path)
  distinct : ∀ w', (getDBListResponse w' (addDBResponse w s (some path)).1).2.Nodup

/-- Every call is fair, and from then on the accepted file opens under the name it was given. -/
structure Unambiguous (files : Files) (es : List (World × String)) : Prop where
  call : ∀ pre w path post, es = pre ++ (w, path) :: post →
    Fair w ((adding files).stateAfter pre) path
  opens : ∀ pre w path mid post name, es = pre ++ (w, path) :: (mid ++ post) →
    (addDBResponse w ((adding files).stateAfter pre) (some path)).2 = .ok (.ok name) →
    Opens ((adding files).stateAfter (pre ++ (w, path) :: mid)) name (File.ofPath path)

/-- Nothing listed at first has the name of a view, and no accepted file that keeps its own name
has a reserved one. -/
def Plain (files : Files) (es : List (World × String)) : Prop :=
  (es ≠ [] → ∀ name ∈ views, name ∉ files) ∧
    ∀ pre w path post, es = pre ++ (w, path) :: post →
      Addable w (getDBList w ((adding files).stateAfter pre)).2 (File.ofPath path) →
      (File.ofPath path).getName ∉ (getDBList w ((adding files).stateAfter pre)).2 →
      ¬ Reserved (File.ofPath path).getName

variable {files : Files}

theorem adding_change (w : World) (s : State) (path : String) :
    ListChange w s (addDBResponse w s (some path)).1 := by
  rcases addDBResponse_cases w s path with ⟨-, h⟩ | ⟨-, h⟩ | ⟨-, h⟩
  · rw [h]
    exact .same rfl rfl
  · rw [h]
    exact .read (getDBList_state w s).2.2
  · rw [h]
    exact .added _ rfl

theorem adding_lists (h : Lists s name file) (es : List (World × String)) :
    Lists ((adding files).stateFrom s es) name file :=
  stateFrom_keeps (J := fun t => Lists t name file) (P := fun _ => True)
    (fun s e hs _ => hs.kept (adding_change e.1 s e.2)) h es fun _ _ => trivial

theorem lists_mem (h : Lists s name file) (w : World) : name ∈ (getDBList w s).2 := by
  rw [← AList.lookup_isSome, h w]
  rfl

theorem accepted_name (h : (addDBResponse w s (some path)).2 = .ok (.ok name)) :
    Addable w (getDBList w s).2 (File.ofPath path) ∧
      name = addedName (getDBList w s).2 (File.ofPath path) := by
  rcases addDBResponse_cases w s path with ⟨-, heq⟩ | ⟨-, heq⟩ | ⟨hadd, heq⟩
  · rw [heq] at h
    cases h
  · rw [heq] at h
    cases h
  · rw [heq] at h
    exact ⟨hadd, (Except.ok.inj (Except.ok.inj h)).symm⟩

theorem addable_accepted (h : Addable w (getDBList w s).2 (File.ofPath path)) :
    (addDBResponse w s (some path)).2 =
      .ok (.ok (addedName (getDBList w s).2 (File.ofPath path))) := by
  rcases addDBResponse_cases w s path with ⟨hno, -⟩ | ⟨⟨entry, hentry, hfile⟩, -⟩ | ⟨-, heq⟩
  · rw [h.1] at hno
    cases hno
  · exact absurd hfile (h.2 entry hentry)
  · rw [heq]

/-- What holds of every call, whatever the names. -/
theorem fair_iff :
    Fair w s path ↔ ∀ w', (getDBListResponse w' (addDBResponse w s (some path)).1).2.Nodup := by
  refine ⟨Fair.distinct, fun hdistinct => ⟨?_, ?_, ?_, ?_, hdistinct⟩⟩
  · exact fun name file h => h.kept (adding_change w s path)
  · intro name h
    have hentry := AList.mem_lookup_iff.mp (h w)
    rcases addDBResponse_cases w s path with ⟨-, heq⟩ | ⟨-, heq⟩ | ⟨hadd, -⟩
    · exact ⟨_, by rw [heq]⟩
    · exact ⟨_, by rw [heq]⟩
    · exact absurd rfl (hadd.2 _ hentry)
  · intro dbName
    exact ⟨_, newName_isSome (getDBList w s).2 dbName⟩
  · intro name h
    obtain ⟨-, rfl⟩ := accepted_name h
    obtain ⟨listed', hread', hf⟩ := added_listed h
    exact ⟨addedName_fresh _ _, (lists_of_read hread').mpr hf⟩

/-- The name of a view gets into the list only with an accepted file that keeps it. -/
theorem clear_after (h : Plain files es) (hes : es ≠ []) (pre post : List (World × String))
    (hpre : es = pre ++ post) :
    ∀ name ∈ views, ∀ w, name ∉ (getDBList w ((adding files).stateAfter pre)).2 := by
  induction pre using List.reverseRecOn generalizing post with
  | nil => exact fun name hname _ => h.1 hes name hname
  | append_singleton pre e ih =>
    obtain ⟨w, path⟩ := e
    rw [List.append_assoc] at hpre
    have hold := ih _ hpre
    intro name hname w'
    rw [stateAfter_concat]
    show name ∉ (getDBList w' (addDBResponse w ((adding files).stateAfter pre) (some path)).1).2
    rcases addDBResponse_cases w ((adding files).stateAfter pre) path with
      ⟨-, heq⟩ | ⟨-, heq⟩ | ⟨hadd, heq⟩
    · rw [heq]
      exact hold name hname w'
    · rw [heq, list_of_read (getDBList_state w _).2.2]
      exact hold name hname w
    · rw [heq, list_of_read rfl, AList.mem_insert]
      rintro (rfl | hmem)
      · obtain ⟨hnew, hres⟩ :=
          (addedName_reserved_iff _ _).mp ((reserved_iff _).mpr (Or.inr hname))
        exact h.2 pre w path post hpre hadd hnew hres
      · exact hold name hname w hmem

/-- Names stay unambiguous through a run of additions if and only if no view's name is listed at
first and no accepted file keeps a reserved name of its own. -/
theorem names_unambiguous_iff (files : Files) (es : List (World × String)) :
    Unambiguous files es ↔ Plain files es := by
  constructor
  · intro h
    refine ⟨?_, ?_⟩
    · intro hes name hview hmem
      obtain ⟨⟨w, path⟩, post, rfl⟩ := List.exists_cons_of_ne_nil hes
      have hfair := h.call [] w path post rfl
      obtain ⟨file, hf⟩ := Option.isSome_iff_exists.mp (AList.lookup_isSome.mpr hmem)
      have hread : ((adding files).stateAfter []).mDatabaseFiles = some files := rfl
      have hlists : Lists ((adding files).stateAfter []) name file := (lists_of_read hread).mpr hf
      exact (rows_nodup_iff w _).mp (hfair.distinct w) name hview
        (lists_mem (hfair.kept name file hlists) w)
    · intro pre w path post hes hadd hnew hres
      have hopens := h.opens pre w path [] post _ hes (addable_accepted hadd)
      exact ((opens_iff w).mp hopens).1 ((addedName_reserved_iff _ _).mpr ⟨hnew, hres⟩)
  · intro h
    constructor
    · intro pre w path post hes
      rw [fair_iff]
      intro w'
      have hclear := clear_after h (by simp [hes]) (pre ++ [(w, path)]) post (by simp [hes])
      rw [stateAfter_concat] at hclear
      exact (rows_nodup_iff w' _).mpr fun name hname => hclear name hname w'
    · intro pre w path mid post name hes hname
      obtain ⟨hadd, rfl⟩ := accepted_name hname
      obtain ⟨listed, hread, hf⟩ := added_listed hname
      rw [opens_iff w, stateAfter_append]
      refine ⟨fun hres => ?_, adding_lists ((lists_of_read hread).mpr hf) mid⟩
      obtain ⟨hnew, hown⟩ := (addedName_reserved_iff _ _).mp hres
      exact h.2 pre w path (mid ++ post) hes hadd hnew hown

/-- A database file with the name of a view is added. -/
theorem database_named_like_a_view :
    ¬ Unambiguous ∅ [(twoDatabases, "/sdcard/Storage")] := by
  intro h
  have hfair := h.call [] twoDatabases "/sdcard/Storage" [] rfl
  exact absurd (hfair.distinct twoDatabases) (by decide +kernel)

end DatabaseNames
