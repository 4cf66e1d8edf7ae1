import AndroidDebug.FileTree
import AndroidDebug.PathRequests

/-! The handler that deletes a file, or a directory with what is in it. -/
namespace FileDeletion

open JavaText FileTree
open FilePaths (Location)

def IsFileName (s : JString) : Prop :=
  s ≠ [] ∧ slash ∉ s ∧ s ≠ ofString "." ∧ s ≠ ofString ".."

instance (s : JString) : Decidable (IsFileName s) := inferInstanceAs (Decidable (_ ∧ _))

abbrev FileName := {s : JString // IsFileName s}

/-- A normalised absolute path. -/
abbrev File := Location FileName

variable {C : Type*}

abbrev Files (C : Type*) := Tree FileName C

def namesPath (file : File) : JString := file.flatMap fun name => slash :: name.val

def getAbsolutePath (file : File) : JString := if file = [] then [slash] else namesPath file

def fileName (s : JString) : Option FileName := if h : IsFileName s then some ⟨s, h⟩ else none

/-- The file of a normalised absolute path. -/
def newFile (path : JString) : File := (path.splitOn slash).filterMap fileName

def isDirectory : Option (Node C) → Bool
  | some .directory => true
  | _ => false

def APP_DIR_NAME : JString := ofString "/.ws/"

/-- The path of a directory gets a slash at its end. -/
def hasWsDir (f : File) (node : Option (Node C)) : Bool :=
  let path := if isDirectory node then getAbsolutePath f ++ [slash] else getAbsolutePath f
  APP_DIR_NAME <:+: path

def listFiles (t : Files C) (file : File) : Option (List File) :=
  if isDirectory (t.node file) then some (t.children file) else none

/-- `none` stands for a recursion that is deeper than `fuel`. -/
def deleteFile : ℕ → Files C → File → Option (Files C)
  | 0, _, _ => none
  | fuel + 1, t, file =>
    if isDirectory (t.node file) then do
      let t ← match listFiles t file with
        | some files => files.foldlM (deleteFile fuel) t
        | none => some t
      return if hasWsDir file (t.node file) then t else t.delete file
    else some (if hasWsDir file (t.node file) then t else t.delete file)

inductive Response where
  | refused (answer : PathRequests.Answer)
  | entity (text : String)
  deriving DecidableEq, Repr

def handle (fuel : ℕ) (s : PathRequests.Setting) (t : Files C)
    (request : PathRequests.HttpRequest) : Option (Files C × Response) :=
  match PathRequests.HttpDelHandler.handle s request with
  | .acts (.deleteFile path) => do
    let file := newFile path
    let t ← deleteFile fuel t file
    return (t, .entity (if (t.node file).isSome then "1" else "0"))
  | answer => some (t, .refused answer)

/-- It is, or lies below, a directory named .ws. -/
def Protected (t : Files C) (l : File) : Prop :=
  ∃ above name, above ++ [name] <+: l ∧ name.val = ofString ".ws" ∧
    t.node (above ++ [name]) = some .directory

theorem APP_DIR_NAME_eq : APP_DIR_NAME = slash :: (ofString ".ws" ++ [slash]) := rfl

theorem prefix_slash_iff {a b rest : JString} (ha : slash ∉ a) (hb : slash ∉ b) :
    a ++ [slash] <+: b ++ slash :: rest ↔ a = b := by
  induction a generalizing b with
  | nil =>
    cases b with
    | nil => simp
    | cons v b =>
      have hv : slash ≠ v := fun h => hb (h ▸ List.mem_cons_self)
      simp [List.cons_prefix_cons, hv]
  | cons u a ih =>
    have hu : u ≠ slash := fun h => ha (h ▸ List.mem_cons_self)
    cases b with
    | nil => simp [List.cons_prefix_cons, hu]
    | cons v b =>
      have hrest := ih (fun h => ha (List.mem_cons_of_mem u h))
        (fun h => hb (List.mem_cons_of_mem v h))
      simp only [List.cons_append, List.cons_prefix_cons, hrest, List.cons.injEq]

theorem infix_append_iff {n p rest : JString} (hn : slash ∉ n) :
    slash :: p <:+: n ++ rest ↔ slash :: p <:+: rest := by
  induction n with
  | nil => rfl
  | cons u n ih =>
    have hu : slash ≠ u := fun h => hn (h ▸ List.mem_cons_self)
    rw [List.cons_append, List.infix_cons_iff, ih fun h => hn (List.mem_cons_of_mem u h)]
    simp [List.cons_prefix_cons, hu]

/-- The directory's name is one of those that a slash follows. -/
theorem infix_namesPath_iff (l : File) {last : JString} (hlast : slash ∉ last) :
    APP_DIR_NAME <:+: namesPath l ++ slash :: last ↔ ∃ name ∈ l, name.val = ofString ".ws" := by
  have hws : slash ∉ ofString ".ws" := by decide
  induction l with
  | nil =>
    have hnot : ¬APP_DIR_NAME <:+: slash :: last := by
      rw [APP_DIR_NAME_eq, List.infix_cons_iff, List.cons_prefix_cons]
      rintro (⟨-, hstarts⟩ | hlater)
      · exact hlast (hstarts.subset (by simp))
      · exact hlast (hlater.subset List.mem_cons_self)
    simpa [namesPath] using hnot
  | cons name l ih =>
    obtain ⟨rest, hrest⟩ : ∃ rest, namesPath l ++ slash :: last = slash :: rest := by
      cases l with
      | nil => exact ⟨last, rfl⟩
      | cons name' l => exact ⟨name'.val ++ (namesPath l ++ slash :: last), by simp [namesPath]⟩
    have hpath : namesPath (name :: l) ++ slash :: last = slash :: (name.val ++ slash :: rest) := by
      rw [← hrest]
      simp [namesPath]
    have hlater : APP_DIR_NAME <:+: name.val ++ slash :: rest ↔
        ∃ name ∈ l, name.val = ofString ".ws" := by
      rw [hrest] at ih
      exact (infix_append_iff name.property.2.1).trans ih
    rw [hpath, List.infix_cons_iff, hlater, APP_DIR_NAME_eq, List.cons_prefix_cons,
      prefix_slash_iff hws name.property.2.1]
    simp [eq_comm]

theorem namesPath_concat (l : File) (name : FileName) :
    namesPath (l ++ [name]) = namesPath l ++ slash :: name.val := by simp [namesPath]

theorem hasWsDir_directory (l : File) :
    hasWsDir l (some (.directory : Node C)) = true ↔ ∃ name ∈ l, name.val = ofString ".ws" := by
  rw [← infix_namesPath_iff l List.not_mem_nil]
  cases l with
  | nil =>
    have hroot : ¬APP_DIR_NAME <:+: [slash, slash] := by decide
    have hempty : ¬APP_DIR_NAME <:+: [slash] := by decide
    simpa [hasWsDir, isDirectory, getAbsolutePath, namesPath, hroot] using hempty
  | cons name l => simp [hasWsDir, isDirectory, getAbsolutePath]

theorem hasWsDir_file {l : File} {node : Option (Node C)} (h : isDirectory node = false) :
    hasWsDir l node = true ↔ ∃ name ∈ l.dropLast, name.val = ofString ".ws" := by
  rw [hasWsDir, h, decide_eq_true_eq, if_neg Bool.false_ne_true]
  rcases List.eq_nil_or_concat l with rfl | ⟨l, name, rfl⟩
  · simp only [List.dropLast_nil, List.not_mem_nil, false_and, exists_false, iff_false]
    decide
  · rw [List.concat_eq_append, List.dropLast_concat, ← infix_namesPath_iff l name.property.2.1,
      ← namesPath_concat, getAbsolutePath, if_neg (by simp)]

variable {t t' : Files C} {file l : File}

theorem isDirectory_iff {node : Option (Node C)} :
    isDirectory node = true ↔ node = some .directory := by
  cases node with
  | none => simp [isDirectory]
  | some node => cases node <;> simp [isDirectory]

/-- A directory named .ws on the way to a node protects it. -/
theorem protected_above {above below : File} {name : FileName} (hbelow : below ≠ [])
    (h : t.node (above ++ name :: below) ≠ none) (hws : name.val = ofString ".ws") :
    Protected t (above ++ name :: below) := by
  have hsplit : above ++ name :: below = (above ++ [name]) ++ below := by simp
  obtain ⟨n, x, rfl⟩ := List.exists_cons_of_ne_nil hbelow
  refine ⟨above, name, ⟨n :: x, hsplit.symm⟩, hws, ?_⟩
  rw [hsplit] at h
  exact Tree.node_above h

/-- The test on the path finds the protected nodes. -/
theorem hasWsDir_iff (h : t.node l ≠ none) : hasWsDir l (t.node l) = true ↔ Protected t l := by
  by_cases hdir : t.node l = some .directory
  · rw [hdir, hasWsDir_directory]
    constructor
    · rintro ⟨name, hname, hws⟩
      obtain ⟨above, below, rfl⟩ := List.append_of_mem hname
      by_cases hbelow : below = []
      · subst hbelow
        exact ⟨above, name, List.prefix_refl _, hws, hdir⟩
      · exact protected_above hbelow h hws
    · rintro ⟨above, name, habove, hws, -⟩
      exact ⟨name, habove.subset (by simp), hws⟩
  · have hnot : isDirectory (t.node l) = false := by rwa [← Bool.not_eq_true, isDirectory_iff]
    rw [hasWsDir_file hnot]
    constructor
    · rintro ⟨name, hname, hws⟩
      have hne : l ≠ [] := by
        rintro rfl
        cases hname
      obtain ⟨above, below, hsplit⟩ := List.append_of_mem hname
      have hl : l = above ++ name :: (below ++ [l.getLast hne]) := by
        rw [← List.cons_append, ← List.append_assoc, ← hsplit, List.dropLast_append_getLast]
      rw [hl] at h ⊢
      exact protected_above (by simp) h hws
    · rintro ⟨above, name, ⟨below, rfl⟩, hws, hnode⟩
      have hbelow : below ≠ [] := by
        rintro rfl
        rw [List.append_nil] at hdir
        exact hdir hnode
      refine ⟨name, ?_, hws⟩
      rw [List.dropLast_append_of_ne_nil hbelow]
      simp

theorem kept_iff : Kept hasWsDir t l ↔ ∃ q, l <+: q ∧ t.node q ≠ none ∧ Protected t q := by
  constructor
  · rintro ⟨q, hq, hnode, hkeep⟩
    exact ⟨q, hq, hnode, (hasWsDir_iff hnode).mp hkeep⟩
  · rintro ⟨q, hq, hnode, hprotected⟩
    exact ⟨q, hq, hnode, (hasWsDir_iff hnode).mpr hprotected⟩

/-! The recursion. -/

theorem newFile_getAbsolutePath (file : File) : newFile (getAbsolutePath file) = file := by
  have hnames : ∀ l : File, (namesPath l).splitOn slash = [] :: l.map Subtype.val := by
    intro l
    induction l using List.reverseRecOn with
    | nil => rfl
    | append_singleton l name ih =>
      rw [namesPath_concat, List.splitOn_append_cons_self, ih,
        List.splitOn_eq_singleton name.property.2.1]
      simp
  have hback : ∀ l : File, (l.map Subtype.val).filterMap fileName = l := by
    intro l
    induction l with
    | nil => rfl
    | cons name l ih =>
      have hname : fileName name.val = some name := dif_pos name.property
      rw [List.map_cons, List.filterMap_cons, hname, ih]
  rw [newFile, getAbsolutePath]
  split
  · rename_i hroot
    subst hroot
    decide
  · rw [hnames, List.filterMap_cons, hback]
    rfl

end FileDeletion
