import AndroidDebug.TransitionSystem
import AndroidDebug.ZipArchive

/-! The web pages are copied out of the assets by CopyUtil.assetsCopy, one system call a step, any
of which may fail, at every start of the application. A file that exists is left as it is, however
it came about. -/
namespace AssetInstall

open TransitionSystem JavaText FileTree FileDeletion ZipArchive

def BUFFER_LENGTH : ℕ := 4096

/-- Joins two path components, adding a separator only if necessary. -/
def join (front suffix : JString) : JString :=
  if front.getLast? = some slash ∨ suffix.head? = some slash then front ++ suffix
  else front ++ slash :: suffix

/-- What is not a directory is a file; there are no empty directories. -/
structure AssetManager where
  list : File → List FileName
  content : File → Bytes

/-- A call of assetsCopy that is to come or under way. -/
structure Frame where
  assetsPath : JString
  dirPath : JString

namespace Frame

def asset (f : Frame) : File := newFile f.assetsPath

def file (f : Frame) : File := newFile f.dirPath

def child (f : Frame) (path : FileName) : Frame :=
  ⟨join f.assetsPath path.val, join f.dirPath path.val⟩

end Frame

/-- The next system call of a run; `copying` holds what is left of the asset. -/
inductive Phase where
  | idle
  | listing
  | checking
  | making
  | opening
  | truncating
  | copying (left : Bytes)
  | finished
  deriving DecidableEq

inductive Act where
  | start
  | list
  | checkExists
  | mkdir (l : File)
  | createNewFile
  | openAsset
  | openOutput
  | copy (n : ℕ)
  | close
  | fail (k : ℕ)

abbrev Files := File → Option (Node Bytes)

/-- The files and the calls of assetsCopy still to be made in this run. -/
structure State where
  files : Files
  stack : List Frame
  phase : Phase

def inDirectory (files : Files) (l : File) : Prop :=
  l.dropLast = [] ∨ files l.dropLast = some .directory

instance (files : Files) (l : File) : Decidable (inDirectory files l) :=
  inferInstanceAs (Decidable (_ ∨ _))

def append (files : Files) (l : File) (piece : Bytes) : Files :=
  match files l with
  | some (.file content) => Function.update files l (some (.file (content ++ piece)))
  | _ => files

/-- The call is done and the next one is looked at. -/
def pop (files : Files) : List Frame → State
  | [] => ⟨files, [], .finished⟩
  | f :: rest => ⟨files, f :: rest, .listing⟩

section Copying

variable (am : AssetManager) (isSmart : Bool) (root dir : JString)

/-- A failure ends the run, after `k` bytes of a write. -/
def advance (s : State) (a : Act) : Option State :=
  match s.phase, s.stack, a with
  | .idle, _, .start | .finished, _, .start => some ⟨s.files, [⟨root, dir⟩], .listing⟩
  | .listing, f :: rest, .list =>
    match am.list f.asset with
    | [] => some ⟨s.files, f :: rest, .checking⟩
    | paths => some ⟨s.files, paths.map f.child ++ rest, .listing⟩
  | .checking, f :: rest, .checkExists =>
    if !isSmart || (s.files f.file).isNone then some ⟨s.files, f :: rest, .making⟩
    else some (pop s.files rest)
  | .making, f :: rest, .mkdir l =>
    if l ≠ [] ∧ l <+: f.file.dropLast ∧ s.files l = none ∧ inDirectory s.files l then
      some ⟨Function.update s.files l (some .directory), f :: rest, .making⟩
    else none
  | .making, f :: rest, .createNewFile =>
    if inDirectory s.files f.file then
      some ⟨if (s.files f.file).isNone then Function.update s.files f.file (some (.file []))
        else s.files, f :: rest, .opening⟩
    else none
  | .opening, f :: rest, .openAsset => some ⟨s.files, f :: rest, .truncating⟩
  | .truncating, f :: rest, .openOutput =>
    if s.files f.file = some .directory then none
    else some ⟨Function.update s.files f.file (some (.file [])), f :: rest,
      .copying (am.content f.asset)⟩
  | .copying left, f :: rest, .copy n =>
    if 0 < n ∧ n ≤ BUFFER_LENGTH ∧ n ≤ left.length then
      some ⟨append s.files f.file (left.take n), f :: rest, .copying (left.drop n)⟩
    else none
  | .copying [], _ :: rest, .close => some (pop s.files rest)
  | .copying left, f :: _, .fail k =>
    if k ≤ BUFFER_LENGTH ∧ k ≤ left.length then
      some ⟨append s.files f.file (left.take k), [], .idle⟩
    else none
  | _, [], .fail _ => none
  | _, _, .fail k => if k = 0 then some ⟨s.files, [], .idle⟩ else none
  | _, _, _ => none

def system : System State Act where
  initial s := s.phase = .idle ∧ s.stack = []
  Enabled s a := (advance am isSmart root dir s a).isSome
  next s a := (advance am isSmart root dir s a).getD s

instance (s : State) (a : Act) : Decidable ((system am isSmart root dir).Enabled s a) :=
  inferInstanceAs (Decidable (_ = true))

/-- What of the asset under way is not written to its file yet. -/
def State.pending (s : State) : Bytes :=
  match s.phase, s.stack with
  | .opening, f :: _ | .truncating, f :: _ => am.content f.asset
  | .copying left, _ => left
  | _, _ => []

/-- The names lead from one asset to another. -/
def Below (a : File) : List FileName → Prop
  | [] => True
  | n :: x => n ∈ am.list a ∧ Below (a ++ [n]) x

/-- A file among the assets, by its place below the root. -/
structure IsAsset (x : List FileName) : Prop where
  below : Below am (newFile root) x
  leaf : am.list (newFile root ++ x) = []

/-- Every asset is there as it was or as it should be, and nothing else has changed but that the
directories above the assets are there. -/
structure Installed (before after : Files) : Prop where
  existing : ∀ x, IsAsset am root x → before (newFile dir ++ x) ≠ none →
    after (newFile dir ++ x) = before (newFile dir ++ x)
  missing : ∀ x, IsAsset am root x → before (newFile dir ++ x) = none →
    after (newFile dir ++ x) = some (.file (am.content (newFile root ++ x)))
  others : ∀ l, (∀ x, IsAsset am root x → l ≠ newFile dir ++ x) →
    after l = before l ∨ before l = none ∧ after l = some .directory ∧
      ∃ x, IsAsset am root x ∧ l <+: newFile dir ++ x

end Copying

theorem newFile_val (n : FileName) : newFile n.val = [n] := by
  have h := newFile_name n []
  rwa [namesPath, List.flatMap_nil, List.append_nil] at h

/-- The separator is never doubled and never left out. -/
theorem newFile_join (front : JString) (n : FileName) :
    newFile (join front n.val) = newFile front ++ [n] := by
  have hhead : n.val.head? ≠ some slash := fun h => n.property.2.1 (List.mem_of_head? h)
  by_cases hlast : front.getLast? = some slash
  · obtain ⟨front, rfl⟩ := List.getLast?_eq_some_iff.mp hlast
    rw [join, if_pos (Or.inl hlast), List.append_assoc, List.singleton_append, newFile_slash,
      newFile_slash, newFile_val, newFile_nil, List.append_nil]
  · rw [join, if_neg (by simp [hlast, hhead]), newFile_slash, newFile_val]

section Steps

variable {am : AssetManager} {root dir : JString} {before files : Files} {s t : State} {a : Act}
  {f : Frame} {rest : List Frame} {l : File} {x y : List FileName}

inductive Effect (am : AssetManager) (root dir : JString) : State → Act → State → Prop where
  | starts {s : State} (h : s.phase = .idle ∨ s.phase = .finished) :
      Effect am root dir s .start ⟨s.files, [⟨root, dir⟩], .listing⟩
  | enters {files : Files} {f : Frame} {rest : List Frame} (h : am.list f.asset ≠ []) :
      Effect am root dir ⟨files, f :: rest, .listing⟩ .list
        ⟨files, (am.list f.asset).map f.child ++ rest, .listing⟩
  | reaches {files : Files} {f : Frame} {rest : List Frame} (h : am.list f.asset = []) :
      Effect am root dir ⟨files, f :: rest, .listing⟩ .list ⟨files, f :: rest, .checking⟩
  | skips {files : Files} {f : Frame} {rest : List Frame} (h : files f.file ≠ none) :
      Effect am root dir ⟨files, f :: rest, .checking⟩ .checkExists (pop files rest)
  | misses {files : Files} {f : Frame} {rest : List Frame} (h : files f.file = none) :
      Effect am root dir ⟨files, f :: rest, .checking⟩ .checkExists ⟨files, f :: rest, .making⟩
  | makes {files : Files} {f : Frame} {rest : List Frame} {l : File} (hl : l ≠ [])
      (habove : l <+: f.file.dropLast) (h : files l = none) :
      Effect am root dir ⟨files, f :: rest, .making⟩ (.mkdir l)
        ⟨Function.update files l (some .directory), f :: rest, .making⟩
  | creates {files : Files} {f : Frame} {rest : List Frame} (h : files f.file = none) :
      Effect am root dir ⟨files, f :: rest, .making⟩ .createNewFile
        ⟨Function.update files f.file (some (.file [])), f :: rest, .opening⟩
  | finds {files : Files} {f : Frame} {rest : List Frame} (h : files f.file ≠ none) :
      Effect am root dir ⟨files, f :: rest, .making⟩ .createNewFile ⟨files, f :: rest, .opening⟩
  | opens {files : Files} {f : Frame} {rest : List Frame} :
      Effect am root dir ⟨files, f :: rest, .opening⟩ .openAsset ⟨files, f :: rest, .truncating⟩
  | empties {files : Files} {f : Frame} {rest : List Frame} :
      Effect am root dir ⟨files, f :: rest, .truncating⟩ .openOutput
        ⟨Function.update files f.file (some (.file [])), f :: rest, .copying (am.content f.asset)⟩
  | copies {files : Files} {f : Frame} {rest : List Frame} {left : Bytes} (n : ℕ) :
      Effect am root dir ⟨files, f :: rest, .copying left⟩ (.copy n)
        ⟨append files f.file (left.take n), f :: rest, .copying (left.drop n)⟩
  | closes {files : Files} {f : Frame} {rest : List Frame} :
      Effect am root dir ⟨files, f :: rest, .copying []⟩ .close (pop files rest)
  | tears {files : Files} {f : Frame} {rest : List Frame} {left : Bytes} {k : ℕ}
      (h : k ≤ left.length) :
      Effect am root dir ⟨files, f :: rest, .copying left⟩ (.fail k)
        ⟨append files f.file (left.take k), [], .idle⟩
  | breaks {s : State} (h : ∀ left, s.phase ≠ .copying left) :
      Effect am root dir s (.fail 0) ⟨s.files, [], .idle⟩

/-- A failure outside of the copying leaves the files as they are. -/
theorem fail_effect {k : ℕ} (hphase : ∀ left, s.phase ≠ .copying left)
    (h : advance am true root dir s (.fail k) = some t) : Effect am root dir s (.fail k) t := by
  obtain ⟨files, stack, phase⟩ := s
  have hzero : k = 0 ∧ (⟨files, [], .idle⟩ : State) = t := by
    cases stack with
    | nil => cases phase <;> simp only [advance, reduceCtorEq] at h
    | cons f rest =>
      cases phase with
      | copying left => exact absurd rfl (hphase left)
      | idle | listing | checking | making | opening | truncating | finished =>
        simpa only [advance, Option.ite_none_right_eq_some, Option.some.injEq] using h
  obtain ⟨rfl, rfl⟩ := hzero
  exact .breaks hphase

/-- The directories above a file and the file itself. -/
theorem making_effect {stack : List Frame}
    (h : advance am true root dir ⟨files, stack, .making⟩ a = some t) :
    Effect am root dir ⟨files, stack, .making⟩ a t := by
  cases a with
  | fail k => exact fail_effect (fun _ => nofun) h
  | mkdir l =>
    cases stack with
    | nil => simp only [advance, reduceCtorEq] at h
    | cons f rest =>
      simp only [advance, Option.ite_none_right_eq_some, Option.some.injEq] at h
      obtain ⟨⟨hl, habove, hmissing, -⟩, rfl⟩ := h
      exact .makes hl habove hmissing
  | createNewFile =>
    cases stack with
    | nil => simp only [advance, reduceCtorEq] at h
    | cons f rest =>
      simp only [advance, Option.ite_none_right_eq_some, Option.some.injEq] at h
      obtain ⟨-, rfl⟩ := h
      cases hfile : files f.file with
      | none => exact .creates hfile
      | some node => exact .finds (by rw [hfile]; exact Option.some_ne_none _)
  | start | list | checkExists | openAsset | openOutput | copy | close =>
    cases stack <;> simp only [advance, reduceCtorEq] at h

theorem advance_effect (h : advance am true root dir s a = some t) : Effect am root dir s a t := by
  obtain ⟨files, stack, phase⟩ := s
  cases phase with
  | idle =>
    cases a with
    | fail k => exact fail_effect (fun _ => nofun) h
    | start =>
      simp only [advance, Option.some.injEq] at h
      subst h
      exact .starts (Or.inl rfl)
    | list | checkExists | mkdir | createNewFile | openAsset | openOutput | copy | close =>
      simp only [advance, reduceCtorEq] at h
  | finished =>
    cases a with
    | fail k => exact fail_effect (fun _ => nofun) h
    | start =>
      simp only [advance, Option.some.injEq] at h
      subst h
      exact .starts (Or.inr rfl)
    | list | checkExists | mkdir | createNewFile | openAsset | openOutput | copy | close =>
      simp only [advance, reduceCtorEq] at h
  | listing =>
    cases a with
    | fail k => exact fail_effect (fun _ => nofun) h
    | list =>
      cases stack with
      | nil => simp only [advance, reduceCtorEq] at h
      | cons f rest =>
        cases hlist : am.list f.asset with
        | nil =>
          simp only [advance, hlist, Option.some.injEq] at h
          subst h
          exact .reaches hlist
        | cons path paths =>
          simp only [advance, hlist, Option.some.injEq] at h
          subst h
          rw [← hlist]
          exact .enters (by rw [hlist]; exact List.cons_ne_nil _ _)
    | start | checkExists | mkdir | createNewFile | openAsset | openOutput | copy | close =>
      cases stack <;> simp only [advance, reduceCtorEq] at h
  | checking =>
    cases a with
    | fail k => exact fail_effect (fun _ => nofun) h
    | checkExists =>
      cases stack with
      | nil => simp only [advance, reduceCtorEq] at h
      | cons f rest =>
        cases hfile : files f.file with
        | none =>
          simp [advance, hfile] at h
          subst h
          exact .misses hfile
        | some node =>
          simp [advance, hfile] at h
          subst h
          exact .skips (by rw [hfile]; exact Option.some_ne_none _)
    | start | list | mkdir | createNewFile | openAsset | openOutput | copy | close =>
      cases stack <;> simp only [advance, reduceCtorEq] at h
  | making => exact making_effect h
  | opening =>
    cases a with
    | fail k => exact fail_effect (fun _ => nofun) h
    | openAsset =>
      cases stack with
      | nil => simp only [advance, reduceCtorEq] at h
      | cons f rest =>
        simp only [advance, Option.some.injEq] at h
        subst h
        exact .opens
    | start | list | checkExists | mkdir | createNewFile | openOutput | copy | close =>
      cases stack <;> simp only [advance, reduceCtorEq] at h
  | truncating =>
    cases a with
    | fail k => exact fail_effect (fun _ => nofun) h
    | openOutput =>
      cases stack with
      | nil => simp only [advance, reduceCtorEq] at h
      | cons f rest =>
        simp only [advance, Option.ite_none_left_eq_some, Option.some.injEq] at h
        obtain ⟨-, rfl⟩ := h
        exact .empties
    | start | list | checkExists | mkdir | createNewFile | openAsset | copy | close =>
      cases stack <;> simp only [advance, reduceCtorEq] at h
  | copying left =>
    cases stack with
    | nil => cases a <;> simp only [advance, reduceCtorEq] at h
    | cons f rest =>
      cases a with
      | fail k =>
        simp only [advance, Option.ite_none_right_eq_some, Option.some.injEq] at h
        obtain ⟨⟨-, hk⟩, rfl⟩ := h
        exact .tears hk
      | copy n =>
        simp only [advance, Option.ite_none_right_eq_some, Option.some.injEq] at h
        obtain ⟨-, rfl⟩ := h
        exact .copies n
      | close =>
        cases left with
        | nil =>
          simp only [advance, Option.some.injEq] at h
          subst h
          exact .closes
        | cons b left => simp only [advance, reduceCtorEq] at h
      | start | list | checkExists | mkdir | createNewFile | openAsset | openOutput =>
        simp only [advance, reduceCtorEq] at h

theorem below_append {p : File} : Below am p (x ++ y) ↔ Below am p x ∧ Below am (p ++ x) y := by
  induction x generalizing p with
  | nil => simp [Below]
  | cons n x ih => simp [Below, ih, and_assoc]

/-- Nothing lies below a file of the assets. -/
theorem IsAsset.eq_of_prefix (hx : IsAsset am root x) (hy : Below am (newFile root) y)
    (h : x <+: y) : x = y := by
  obtain ⟨z, rfl⟩ := h
  cases z with
  | nil => exact (List.append_nil x).symm
  | cons n z =>
    have hn : n ∈ am.list (newFile root ++ x) := (below_append.mp hy).2.1
    rw [hx.leaf] at hn
    cases hn

def Placed (am : AssetManager) (root dir : JString) (f : Frame) : Prop :=
  ∃ x, Below am (newFile root) x ∧ f.asset = newFile root ++ x ∧ f.file = newFile dir ++ x

theorem Placed.child (h : Placed am root dir f) {n : FileName} (hn : n ∈ am.list f.asset) :
    Placed am root dir (f.child n) := by
  obtain ⟨x, hx, hasset, hfile⟩ := h
  refine ⟨x ++ [n], below_append.mpr ⟨hx, ?_, trivial⟩, ?_, ?_⟩
  · rwa [← hasset]
  · rw [Frame.asset, Frame.child, newFile_join, ← Frame.asset, hasset, List.append_assoc]
  · rw [Frame.file, Frame.child, newFile_join, ← Frame.file, hfile, List.append_assoc]

theorem Placed.isAsset (h : Placed am root dir f) (hleaf : am.list f.asset = []) :
    ∃ x, IsAsset am root x ∧ f.asset = newFile root ++ x ∧ f.file = newFile dir ++ x := by
  obtain ⟨x, hx, hasset, hfile⟩ := h
  exact ⟨x, ⟨hx, hasset ▸ hleaf⟩, hasset, hfile⟩

/-- What a run may make where nothing was. -/
def Allowed (am : AssetManager) (root dir : JString) (l : File) (node : Node Bytes) : Prop :=
  (∃ x, IsAsset am root x ∧ l = newFile dir ++ x ∧ ∃ content, node = .file content) ∨
    node = .directory ∧ ∃ x, IsAsset am root x ∧ l <+: newFile dir ++ x ∧ l ≠ newFile dir ++ x

structure Grown (am : AssetManager) (root dir : JString) (before files : Files) : Prop where
  kept : ∀ l, before l ≠ none → files l = before l
  made : ∀ l, before l = none → files l = none ∨
    ∃ node, files l = some node ∧ Allowed am root dir l node

theorem Grown.before_none (h : Grown am root dir before files) (hl : files l = none) :
    before l = none := by
  by_contra hsome
  rw [h.kept l hsome] at hl
  exact hsome hl

theorem Grown.update (h : Grown am root dir before files) (hl : before l = none)
    {node : Node Bytes} (hnode : Allowed am root dir l node) :
    Grown am root dir before (Function.update files l (some node)) := by
  constructor
  · intro m hm
    have hne : m ≠ l := by
      rintro rfl
      exact hm hl
    rw [Function.update_of_ne hne, h.kept m hm]
  · intro m hm
    by_cases heq : m = l
    · subst heq
      exact Or.inr ⟨node, Function.update_self .., hnode⟩
    · rw [Function.update_of_ne heq]
      exact h.made m hm

/-- Every asset that is not there yet is still to be come to. -/
def Covered (am : AssetManager) (root dir : JString) (files : Files) (stack : List Frame) : Prop :=
  ∀ x, IsAsset am root x → files (newFile dir ++ x) ≠ none ∨
    ∃ f ∈ stack, f.file <+: newFile dir ++ x

theorem Covered.update {stack : List Frame} (h : Covered am root dir files stack)
    (node : Node Bytes) : Covered am root dir (Function.update files l (some node)) stack := by
  intro x hx
  refine (h x hx).imp_left fun hsome => ?_
  by_cases heq : newFile dir ++ x = l
  · rw [heq, Function.update_self]
    exact Option.some_ne_none _
  · rwa [Function.update_of_ne heq]

theorem Covered.pop (h : Covered am root dir files (f :: rest)) (hf : Placed am root dir f)
    (hleaf : am.list f.asset = []) (hfile : files f.file ≠ none) :
    Covered am root dir files rest := by
  intro x hx
  rcases h x hx with hsome | ⟨g, hg, hbelow⟩
  · exact Or.inl hsome
  · rcases List.mem_cons.mp hg with rfl | hg
    · obtain ⟨y, hy, -, heq⟩ := hf.isAsset hleaf
      rw [heq, List.prefix_append_right_inj] at hbelow
      rw [heq, hy.eq_of_prefix hx.below hbelow] at hfile
      exact Or.inl hfile
    · exact Or.inr ⟨g, hg, hbelow⟩

theorem Covered.enter (h : Covered am root dir files (f :: rest)) (hf : Placed am root dir f)
    (hlist : am.list f.asset ≠ []) :
    Covered am root dir files ((am.list f.asset).map f.child ++ rest) := by
  intro x hx
  rcases h x hx with hsome | ⟨g, hg, hbelow⟩
  · exact Or.inl hsome
  · right
    rcases List.mem_cons.mp hg with rfl | hg
    · obtain ⟨y, hy, hasset, hfile⟩ := hf
      rw [hfile, List.prefix_append_right_inj] at hbelow
      obtain ⟨z, rfl⟩ := hbelow
      cases z with
      | nil =>
        have hleaf := hx.leaf
        rw [List.append_nil, ← hasset] at hleaf
        exact absurd hleaf hlist
      | cons n z =>
        have hn : n ∈ am.list g.asset := by
          rw [hasset]
          exact (below_append.mp hx.below).2.1
        refine ⟨g.child n, List.mem_append_left _ (List.mem_map_of_mem hn), z, ?_⟩
        rw [Frame.file, Frame.child, newFile_join, ← Frame.file, hfile]
        simp
    · exact ⟨g, List.mem_append_right _ hg, hbelow⟩

/-- How far the file of the call under way is. -/
def Current (am : AssetManager) (before files : Files) (f : Frame) : Phase → Prop
  | .checking => am.list f.asset = []
  | .making => am.list f.asset = [] ∧ files f.file = none
  | .opening | .truncating =>
    am.list f.asset = [] ∧ before f.file = none ∧ files f.file = some (.file [])
  | .copying left => am.list f.asset = [] ∧ before f.file = none ∧
    ∃ done, am.content f.asset = done ++ left ∧ files f.file = some (.file done)
  | .idle | .listing | .finished => True

structure Inv (am : AssetManager) (root dir : JString) (before : Files) (s : State) : Prop where
  placed : ∀ f ∈ s.stack, Placed am root dir f
  grown : Grown am root dir before s.files
  current : ∀ f rest, s.stack = f :: rest → Current am before s.files f s.phase
  covered : s.phase ≠ .idle → Covered am root dir s.files s.stack
  emptied : s.phase = .finished → s.stack = []

theorem inv_idle (h : Grown am root dir before files) :
    Inv am root dir before ⟨files, [], .idle⟩ :=
  ⟨by simp, h, by simp, fun hidle => absurd rfl hidle, by simp⟩

theorem inv_pop (h : Grown am root dir before files) (hplaced : ∀ f ∈ rest, Placed am root dir f)
    (hcovered : Covered am root dir files rest) : Inv am root dir before (pop files rest) := by
  cases rest with
  | nil => exact ⟨hplaced, h, by simp [pop], fun _ => hcovered, fun _ => rfl⟩
  | cons f rest => exact ⟨hplaced, h, fun _ _ _ => trivial, fun _ => hcovered, nofun⟩

theorem append_eq {content : Bytes} (h : files l = some (.file content)) (piece : Bytes) :
    append files l piece = Function.update files l (some (.file (content ++ piece))) := by
  rw [append, h]

theorem allowed_file (hf : Placed am root dir f) (hleaf : am.list f.asset = []) (content : Bytes) :
    Allowed am root dir f.file (.file content) := by
  obtain ⟨x, hx, -, hfile⟩ := hf.isAsset hleaf
  exact Or.inl ⟨x, hx, hfile, content, rfl⟩

theorem allowed_above (hf : Placed am root dir f) (hleaf : am.list f.asset = []) (hl : l ≠ [])
    (habove : l <+: f.file.dropLast) : Allowed am root dir l .directory := by
  obtain ⟨x, hx, -, hfile⟩ := hf.isAsset hleaf
  refine Or.inr ⟨rfl, x, hx, ?_, ?_⟩
  · rw [← hfile]
    exact habove.trans (List.dropLast_prefix _)
  · rw [← hfile]
    rintro rfl
    have hlength := habove.length_le
    have hpos := List.length_pos_of_ne_nil hl
    rw [List.length_dropLast] at hlength
    omega

theorem above_ne (hl : l ≠ []) (habove : l <+: f.file.dropLast) : f.file ≠ l := by
  rintro rfl
  have hlength := habove.length_le
  have hpos := List.length_pos_of_ne_nil hl
  rw [List.length_dropLast] at hlength
  omega

theorem Inv.step (h : Inv am root dir before s) (heffect : Effect am root dir s a t) :
    Inv am root dir before t := by
  cases heffect with
  | starts _ =>
    refine ⟨fun f hf => ?_, h.grown, fun _ _ _ => trivial, fun _ x _ => Or.inr ?_, nofun⟩
    · obtain rfl := List.mem_singleton.mp hf
      exact ⟨[], trivial, (List.append_nil _).symm, (List.append_nil _).symm⟩
    · exact ⟨_, List.mem_singleton_self _, List.prefix_append _ x⟩
  | enters hlist =>
    have hf := h.placed _ List.mem_cons_self
    refine ⟨fun g hg => ?_, h.grown, fun _ _ _ => trivial, fun _ => ?_, nofun⟩
    · rcases List.mem_append.mp hg with hg | hg
      · obtain ⟨n, hn, rfl⟩ := List.mem_map.mp hg
        exact hf.child hn
      · exact h.placed g (List.mem_cons_of_mem _ hg)
    · exact (h.covered nofun).enter hf hlist
  | reaches hlist =>
    refine ⟨h.placed, h.grown, fun f rest hstack => ?_, fun _ => h.covered nofun, nofun⟩
    obtain ⟨rfl, rfl⟩ := List.cons.inj hstack
    exact hlist
  | skips hfile =>
    exact inv_pop h.grown (fun g hg => h.placed g (List.mem_cons_of_mem _ hg))
      ((h.covered nofun).pop (h.placed _ List.mem_cons_self) (h.current _ _ rfl) hfile)
  | misses hfile =>
    refine ⟨h.placed, h.grown, fun f rest hstack => ?_, fun _ => h.covered nofun, nofun⟩
    obtain ⟨rfl, rfl⟩ := List.cons.inj hstack
    exact ⟨h.current _ _ rfl, hfile⟩
  | makes hl habove hmissing =>
    obtain ⟨hleaf, hfile⟩ := h.current _ _ rfl
    have hf := h.placed _ List.mem_cons_self
    refine ⟨h.placed, h.grown.update (h.grown.before_none hmissing)
      (allowed_above hf hleaf hl habove), fun f rest hstack => ?_,
      fun _ => (h.covered nofun).update _, nofun⟩
    obtain ⟨rfl, rfl⟩ := List.cons.inj hstack
    exact ⟨hleaf, (Function.update_of_ne (above_ne hl habove) ..).trans hfile⟩
  | creates hfile =>
    obtain ⟨hleaf, -⟩ := h.current _ _ rfl
    have hnone := h.grown.before_none hfile
    have hf := h.placed _ List.mem_cons_self
    refine ⟨h.placed, h.grown.update hnone (allowed_file hf hleaf _), fun f rest hstack => ?_,
      fun _ => (h.covered nofun).update _, nofun⟩
    obtain ⟨rfl, rfl⟩ := List.cons.inj hstack
    exact ⟨hleaf, hnone, Function.update_self ..⟩
  | finds hfile =>
    obtain ⟨-, hnone⟩ := h.current _ _ rfl
    exact absurd hnone hfile
  | opens =>
    refine ⟨h.placed, h.grown, fun f rest hstack => ?_, fun _ => h.covered nofun, nofun⟩
    obtain ⟨rfl, rfl⟩ := List.cons.inj hstack
    exact h.current _ _ rfl
  | empties =>
    obtain ⟨hleaf, hnone, -⟩ := h.current _ _ rfl
    have hf := h.placed _ List.mem_cons_self
    refine ⟨h.placed, h.grown.update hnone (allowed_file hf hleaf _), fun f rest hstack => ?_,
      fun _ => (h.covered nofun).update _, nofun⟩
    obtain ⟨rfl, rfl⟩ := List.cons.inj hstack
    exact ⟨hleaf, hnone, [], rfl, Function.update_self ..⟩
  | copies n =>
    obtain ⟨hleaf, hnone, done, hcontent, hfile⟩ := h.current _ _ rfl
    have hf := h.placed _ List.mem_cons_self
    rw [append_eq hfile]
    refine ⟨h.placed, h.grown.update hnone (allowed_file hf hleaf _), fun f rest hstack => ?_,
      fun _ => (h.covered nofun).update _, nofun⟩
    obtain ⟨rfl, rfl⟩ := List.cons.inj hstack
    refine ⟨hleaf, hnone, _, ?_, Function.update_self ..⟩
    rw [hcontent, List.append_assoc, List.take_append_drop]
  | closes =>
    obtain ⟨hleaf, -, done, -, hfile⟩ := h.current _ _ rfl
    exact inv_pop h.grown (fun g hg => h.placed g (List.mem_cons_of_mem _ hg))
      ((h.covered nofun).pop (h.placed _ List.mem_cons_self) hleaf
        (by rw [hfile]; exact Option.some_ne_none _))
  | tears _ =>
    obtain ⟨hleaf, hnone, done, -, hfile⟩ := h.current _ _ rfl
    rw [append_eq hfile]
    exact inv_idle (h.grown.update hnone (allowed_file (h.placed _ List.mem_cons_self) hleaf _))
  | breaks _ => exact inv_idle h.grown

/-! What exists stays as it is. -/

def Phase.Busy : Phase → Prop
  | .making | .opening | .truncating | .copying _ => True
  | .idle | .listing | .checking | .finished => False

/-- There is this file and the call under way is not about to write it. -/
structure Settled (l : File) (node : Node Bytes) (s : State) : Prop where
  node : s.files l = some node
  apart : s.phase.Busy → ∀ f rest, s.stack = f :: rest → f.file ≠ l

theorem pop_not_busy : ¬(pop files rest).phase.Busy := by
  cases rest <;> exact id

theorem pop_files : (pop files rest).files = files := by
  cases rest <;> rfl

theorem update_settled {node made : Node Bytes} (h : files l = some node) {m : File} (hne : m ≠ l) :
    Function.update files m (some made) l = some node := by
  rw [Function.update_of_ne hne.symm, h]

theorem Settled.step {node : Node Bytes} (h : Settled l node s)
    (hinv : Inv am root dir before s) (heffect : Effect am root dir s a t) : Settled l node t := by
  have hnode := h.node
  cases heffect with
  | starts _ => exact ⟨hnode, False.elim⟩
  | enters _ => exact ⟨hnode, False.elim⟩
  | reaches _ => exact ⟨hnode, False.elim⟩
  | skips _ => exact ⟨by rw [pop_files]; exact hnode, fun hbusy => absurd hbusy pop_not_busy⟩
  | misses hfile =>
    refine ⟨hnode, fun _ f rest hstack => ?_⟩
    obtain ⟨rfl, rfl⟩ := List.cons.inj hstack
    rintro rfl
    exact absurd (hnode.symm.trans hfile) (Option.some_ne_none _)
  | makes hl habove hmissing =>
    refine ⟨update_settled hnode ?_, h.apart⟩
    rintro rfl
    exact absurd (hnode.symm.trans hmissing) (Option.some_ne_none _)
  | creates _ => exact ⟨update_settled hnode (h.apart trivial _ _ rfl), h.apart⟩
  | finds _ => exact ⟨hnode, h.apart⟩
  | opens => exact ⟨hnode, h.apart⟩
  | empties => exact ⟨update_settled hnode (h.apart trivial _ _ rfl), h.apart⟩
  | copies n =>
    obtain ⟨-, -, done, -, hfile⟩ := hinv.current _ _ rfl
    rw [append_eq hfile]
    exact ⟨update_settled hnode (h.apart trivial _ _ rfl), h.apart⟩
  | closes => exact ⟨by rw [pop_files]; exact hnode, fun hbusy => absurd hbusy pop_not_busy⟩
  | tears _ =>
    obtain ⟨-, -, done, -, hfile⟩ := hinv.current _ _ rfl
    rw [append_eq hfile]
    exact ⟨update_settled hnode (h.apart trivial _ _ rfl), False.elim⟩
  | breaks _ => exact ⟨hnode, False.elim⟩

/-- A run that breaks off with bytes pending leaves the file shorter than its asset. -/
theorem Inv.damaged (h : Inv am root dir before s) {k : ℕ}
    (heffect : Effect am root dir s (.fail k) t) (hpending : k < (s.pending am).length) :
    ∃ x content, IsAsset am root x ∧ before (newFile dir ++ x) = none ∧
      content ≠ am.content (newFile root ++ x) ∧ Settled (newFile dir ++ x) (.file content) t := by
  have hshort : ∀ {f : Frame} (done : Bytes) {left : Bytes}, Placed am root dir f →
      am.list f.asset = [] → before f.file = none → am.content f.asset = done ++ left →
        k < left.length → ∀ files, files f.file = some (.file (done ++ left.take k)) →
          ∃ x content, IsAsset am root x ∧ before (newFile dir ++ x) = none ∧
            content ≠ am.content (newFile root ++ x) ∧
              Settled (newFile dir ++ x) (.file content) ⟨files, [], .idle⟩ := by
    intro f done left hf hleaf hnone hcontent hlt files hfile
    obtain ⟨x, hx, hasset, heq⟩ := hf.isAsset hleaf
    refine ⟨x, _, hx, heq ▸ hnone, fun hsame => ?_, heq ▸ hfile, False.elim⟩
    rw [← hasset, hcontent, List.append_cancel_left_eq] at hsame
    have hlength := congrArg List.length hsame
    rw [List.length_take] at hlength
    omega
  obtain ⟨files, stack, phase⟩ := s
  cases heffect with
  | tears _ =>
    obtain ⟨hleaf, hnone, done, hcontent, hfile⟩ := h.current _ _ rfl
    apply hshort done (h.placed _ List.mem_cons_self) hleaf hnone hcontent hpending
    rw [append_eq hfile, Function.update_self]
  | breaks hphase =>
    cases phase with
    | opening | truncating =>
      cases stack with
      | nil => exact absurd hpending (Nat.not_lt_zero _)
      | cons f rest =>
        obtain ⟨hleaf, hnone, hfile⟩ := h.current _ _ rfl
        exact hshort [] (h.placed f List.mem_cons_self) hleaf hnone rfl hpending files hfile
    | copying left => exact absurd rfl (hphase left)
    | idle | listing | checking | making | finished => exact absurd hpending (Nat.not_lt_zero _)

/-! While no run breaks off inside a file, every file made is whole once the call is done. -/

def Phase.Writing : Phase → Prop
  | .opening | .truncating | .copying _ => True
  | .idle | .listing | .checking | .making | .finished => False

def Whole (am : AssetManager) (root dir : JString) (before : Files) (s : State) : Prop :=
  ∀ x, IsAsset am root x → before (newFile dir ++ x) = none → s.files (newFile dir ++ x) = none ∨
    s.files (newFile dir ++ x) = some (.file (am.content (newFile root ++ x))) ∨
      s.phase.Writing ∧ ∃ f rest, s.stack = f :: rest ∧ f.file = newFile dir ++ x

/-- What is made at a place where no asset goes changes nothing for the assets. -/
theorem Whole.of_same {p : Phase} {stack : List Frame} (h : Whole am root dir before s)
    (hwriting : ¬s.phase.Writing) (hsame : ∀ x, IsAsset am root x →
      files (newFile dir ++ x) = s.files (newFile dir ++ x)) :
    Whole am root dir before ⟨files, stack, p⟩ := by
  intro x hx hnone
  change files _ = none ∨ files _ = _ ∨ _
  rw [hsame x hx]
  rcases h x hx hnone with hmissing | hwhole | ⟨hnot, -⟩
  · exact Or.inl hmissing
  · exact Or.inr (Or.inl hwhole)
  · exact absurd hnot hwriting

/-- The file under way is written, and is under way or whole afterwards. -/
theorem Whole.write {p q : Phase} {stack : List Frame} {node : Node Bytes}
    (h : Whole am root dir before ⟨files, f :: rest, p⟩)
    (hdone : q.Writing ∧ (∃ rest, stack = f :: rest) ∨ ∃ x, f.file = newFile dir ++ x ∧
      node = .file (am.content (newFile root ++ x))) :
    Whole am root dir before ⟨Function.update files f.file (some node), stack, q⟩ := by
  intro x hx hnone
  by_cases heq : newFile dir ++ x = f.file
  · right
    rcases hdone with ⟨hwriting, rest', hstack⟩ | ⟨y, hfile, hnode⟩
    · exact Or.inr ⟨hwriting, f, rest', hstack, heq.symm⟩
    · obtain rfl := List.append_cancel_left (heq.trans hfile)
      have hself : Function.update files f.file (some node) (newFile dir ++ x) = some node := by
        rw [heq, Function.update_self]
      exact Or.inl (hself.trans (congrArg some hnode))
  · have hother : Function.update files f.file (some node) (newFile dir ++ x) =
        files (newFile dir ++ x) := Function.update_of_ne heq ..
    rcases h x hx hnone with hmissing | hwhole | ⟨-, g, rest', hstack, hfile⟩
    · exact Or.inl (hother.trans hmissing)
    · exact Or.inr (Or.inl (hother.trans hwhole))
    · obtain ⟨rfl, rfl⟩ := List.cons.inj hstack
      exact absurd hfile.symm heq

theorem Whole.step (h : Whole am root dir before s) (hinv : Inv am root dir before s)
    (heffect : Effect am root dir s a t) (hsafe : ∀ k, a = .fail k → (s.pending am).length ≤ k) :
    Whole am root dir before t := by
  cases heffect with
  | starts hphase =>
    apply h.of_same _ fun _ _ => rfl
    rcases hphase with hidle | hfinished
    · rw [hidle]
      exact id
    · rw [hfinished]
      exact id
  | enters _ => exact h.of_same id fun _ _ => rfl
  | reaches _ => exact h.of_same id fun _ _ => rfl
  | @skips files f rest _ =>
    cases rest <;> exact h.of_same id fun _ _ => rfl
  | misses _ => exact h.of_same id fun _ _ => rfl
  | makes hl habove _ =>
    obtain ⟨hleaf, -⟩ := hinv.current _ _ rfl
    apply h.of_same id
    intro x hx
    apply Function.update_of_ne
    rintro rfl
    obtain ⟨y, hy, -, hfile⟩ := (hinv.placed _ List.mem_cons_self).isAsset hleaf
    have hbelow := habove.trans (List.dropLast_prefix _)
    rw [hfile, List.prefix_append_right_inj] at hbelow
    apply above_ne hl habove
    rw [hfile, hx.eq_of_prefix hy.below hbelow]
  | creates _ => exact h.write (Or.inl ⟨trivial, _, rfl⟩)
  | finds hfile =>
    obtain ⟨-, hnone⟩ := hinv.current _ _ rfl
    exact absurd hnone hfile
  | opens => exact fun x hx hnone => h x hx hnone
  | empties => exact h.write (Or.inl ⟨trivial, _, rfl⟩)
  | copies n =>
    obtain ⟨-, -, done, -, hfile⟩ := hinv.current _ _ rfl
    rw [append_eq hfile]
    exact h.write (Or.inl ⟨trivial, _, rfl⟩)
  | @closes files f rest =>
    obtain ⟨hleaf, -, done, hcontent, hfile⟩ := hinv.current _ _ rfl
    obtain ⟨y, -, hasset, heq⟩ := (hinv.placed _ List.mem_cons_self).isAsset hleaf
    rw [List.append_nil] at hcontent
    have hsame : Function.update files f.file (some (.file done)) = files := by
      rw [← hfile]
      exact Function.update_eq_self ..
    have hnode : Node.file done = .file (am.content (newFile root ++ y)) := by
      rw [← hasset, hcontent]
    have hwhole : ∀ stack q, Whole am root dir before
        ⟨Function.update files f.file (some (.file done)), stack, q⟩ :=
      fun _ _ => h.write (Or.inr ⟨y, heq, hnode⟩)
    rw [hsame] at hwhole
    cases rest with
    | nil => exact hwhole [] .finished
    | cons g rest => exact hwhole (g :: rest) .listing
  | @tears files f rest left k hk =>
    obtain ⟨hleaf, -, done, hcontent, hfile⟩ := hinv.current _ _ rfl
    obtain ⟨y, -, hasset, heq⟩ := (hinv.placed _ List.mem_cons_self).isAsset hleaf
    have hall : left.length ≤ k := hsafe k rfl
    rw [append_eq hfile]
    apply h.write (Or.inr ⟨y, heq, ?_⟩)
    rw [List.take_of_length_le hall, ← hcontent, hasset]
  | breaks hphase =>
    obtain ⟨files, stack, phase⟩ := s
    intro x hx hnone
    rcases h x hx hnone with hmissing | hwhole | ⟨hwriting, f, rest, hstack, hfile⟩
    · exact Or.inl hmissing
    · exact Or.inr (Or.inl hwhole)
    · subst hstack
      have hempty := hsafe 0 rfl
      cases phase with
      | opening | truncating =>
        obtain ⟨hleaf, -, hnode⟩ := hinv.current _ _ rfl
        obtain ⟨y, -, hasset, heq⟩ := (hinv.placed _ List.mem_cons_self).isAsset hleaf
        obtain rfl := List.append_cancel_left (hfile.symm.trans heq)
        have hnil : am.content f.asset = [] := List.eq_nil_of_length_eq_zero (Nat.le_zero.mp hempty)
        rw [← hasset, hnil, ← hfile]
        exact Or.inr (Or.inl hnode)
      | copying left => exact absurd rfl (hphase left)
      | idle | listing | checking | making | finished => exact absurd hwriting id

end Steps

/-! Runs. -/

section Runs

variable {am : AssetManager} {root dir : JString} {before : Files} {s : State} {es : List Act}
  {l : File} {node : Node Bytes}

theorem next_effect {a : Act} (h : (system am true root dir).Enabled s a) :
    Effect am root dir s a ((system am true root dir).next s a) := by
  obtain ⟨t, ht⟩ := Option.isSome_iff_exists.mp h
  have hnext : (system am true root dir).next s a = t := by
    change (advance am true root dir s a).getD s = t
    rw [ht]
    rfl
  rw [hnext]
  exact advance_effect ht

theorem Inv.run (h : Inv am root dir before s)
    (hvalid : ValidTrace (system am true root dir) Unrestricted s es) :
    Inv am root dir before (runTrace (system am true root dir) s es) := by
  induction es generalizing s with
  | nil => exact h
  | cons a es ih =>
    obtain ⟨⟨hen, -⟩, hrest⟩ := hvalid
    exact ih (h.step (next_effect hen)) hrest

theorem Settled.run (h : Settled l node s) (hinv : Inv am root dir before s)
    (hvalid : ValidTrace (system am true root dir) Unrestricted s es) :
    Settled l node (runTrace (system am true root dir) s es) := by
  induction es generalizing s with
  | nil => exact h
  | cons a es ih =>
    obtain ⟨⟨hen, -⟩, hrest⟩ := hvalid
    exact ih (h.step hinv (next_effect hen)) (hinv.step (next_effect hen)) hrest

/-- No run of the trace breaks off while bytes of an asset are pending. -/
def Unbroken (am : AssetManager) (root dir : JString) (s : State) (es : List Act) : Prop :=
  ∀ done k rest, es = done ++ .fail k :: rest →
    ((runTrace (system am true root dir) s done).pending am).length ≤ k

theorem unbroken_cons_iff {a : Act} :
    Unbroken am root dir s (a :: es) ↔ (∀ k, a = .fail k → (s.pending am).length ≤ k) ∧
      Unbroken am root dir ((system am true root dir).next s a) es := by
  constructor
  · intro h
    refine ⟨?_, fun done k rest heq => h (a :: done) k rest (congrArg (List.cons a) heq)⟩
    rintro k rfl
    exact h [] k es rfl
  · rintro ⟨hfirst, hrest⟩ done k rest heq
    cases done with
    | nil => exact hfirst k (List.cons.inj heq).1
    | cons b done =>
      obtain ⟨rfl, htail⟩ := List.cons.inj heq
      exact hrest done k rest htail

theorem Whole.run (h : Whole am root dir before s) (hinv : Inv am root dir before s)
    (hvalid : ValidTrace (system am true root dir) Unrestricted s es)
    (hsafe : Unbroken am root dir s es) :
    Whole am root dir before (runTrace (system am true root dir) s es) := by
  induction es generalizing s with
  | nil => exact h
  | cons a es ih =>
    obtain ⟨⟨hen, -⟩, hrest⟩ := hvalid
    obtain ⟨hfirst, hsafe⟩ := unbroken_cons_iff.mp hsafe
    exact ih (h.step hinv (next_effect hen) hfirst) (hinv.step (next_effect hen)) hrest hsafe

/-- A run that breaks off inside a file leaves it short for good. -/
theorem damaged_of_broken (hinv : Inv am root dir before s)
    (hvalid : ValidTrace (system am true root dir) Unrestricted s es)
    (hbroken : ¬Unbroken am root dir s es) :
    ∃ x content, IsAsset am root x ∧ before (newFile dir ++ x) = none ∧
      content ≠ am.content (newFile root ++ x) ∧
        (runTrace (system am true root dir) s es).files (newFile dir ++ x) =
          some (.file content) := by
  simp only [Unbroken, not_forall, Nat.not_le] at hbroken
  obtain ⟨done, k, rest, rfl, hpending⟩ := hbroken
  induction done generalizing s with
  | nil =>
    obtain ⟨⟨hen, -⟩, hrest⟩ := hvalid
    obtain ⟨x, content, hx, hnone, hne, hsettled⟩ := hinv.damaged (next_effect hen) hpending
    exact ⟨x, content, hx, hnone, hne,
      (hsettled.run (hinv.step (next_effect hen)) hrest).node⟩
  | cons a done ih =>
    obtain ⟨⟨hen, -⟩, hrest⟩ := hvalid
    exact ih (hinv.step (next_effect hen)) hpending hrest

theorem Grown.refl : Grown am root dir before before :=
  ⟨fun _ _ => rfl, fun _ h => Or.inl h⟩

/-- After a run that completes everything is installed, just when no run before it broke off
between creating a file and writing the last byte of the asset to it. -/
theorem installed_iff
    (hvalid : ValidTrace (system am true root dir) Unrestricted ⟨before, [], .idle⟩ es)
    (hdone : (runTrace (system am true root dir) ⟨before, [], .idle⟩ es).phase = .finished) :
    Installed am root dir before
        (runTrace (system am true root dir) ⟨before, [], .idle⟩ es).files ↔
      Unbroken am root dir ⟨before, [], .idle⟩ es := by
  have hstart : Inv am root dir before ⟨before, [], .idle⟩ := inv_idle Grown.refl
  have hend := hstart.run hvalid
  constructor
  · intro h
    by_contra hbroken
    obtain ⟨x, content, hx, hnone, hne, hfile⟩ := damaged_of_broken hstart hvalid hbroken
    rw [h.missing x hx hnone, Option.some.injEq, Node.file.injEq] at hfile
    exact hne hfile.symm
  · intro hsafe
    have hwhole : Whole am root dir before ⟨before, [], .idle⟩ := fun x _ hnone => Or.inl hnone
    constructor
    · exact fun x _ hsome => hend.grown.kept _ hsome
    · intro x hx hnone
      rcases hwhole.run hstart hvalid hsafe x hx hnone with hmissing | hfile | ⟨hwriting, -⟩
      · have hcovered := hend.covered (by rw [hdone]; nofun) x hx
        rw [hend.emptied hdone] at hcovered
        rcases hcovered with hsome | ⟨f, hf, -⟩
        · exact absurd hmissing hsome
        · exact absurd hf List.not_mem_nil
      · exact hfile
      · rw [hdone] at hwriting
        exact absurd hwriting id
    · intro l hother
      by_cases hnone : before l = none
      · rcases hend.grown.made l hnone with hmissing | ⟨node, hnode, hallowed⟩
        · exact Or.inl (hmissing.trans hnone.symm)
        · rcases hallowed with ⟨x, hx, heq, -⟩ | ⟨rfl, x, hx, hl, -⟩
          · exact absurd heq (hother x hx)
          · exact Or.inr ⟨hnone, hnode, x, hx, hl⟩
      · exact Or.inl (hend.grown.kept l hnone)

end Runs

/-! One page in the assets, which a first run copies in part. -/

section OnePage

def ws : FileName := ⟨ofString "ws", by decide⟩
def page : FileName := ⟨ofString "page", by decide⟩
def sd : FileName := ⟨ofString "sd", by decide⟩

def pageAssets : AssetManager where
  list l := if l = [ws] then [page] else []
  content _ := [1, 2, 3]

abbrev pageSystem : System State Act := system pageAssets true (ofString "ws") (ofString "/sd")

abbrev noFiles : Files := fun _ => none

/-- The first run breaks off before it creates the file, the second before it closes it. -/
def mendedRun : List Act :=
  [.start, .list, .list, .checkExists, .mkdir [sd], .fail 0, .start, .list, .list, .checkExists,
    .createNewFile, .openAsset, .openOutput, .copy 3, .fail 0, .start, .list, .list, .checkExists]

theorem page_installed : Installed pageAssets (ofString "ws") (ofString "/sd") noFiles
    (runTrace pageSystem ⟨noFiles, [], .idle⟩ mendedRun).files := by
  refine (installed_iff (by decide +kernel) (by decide +kernel)).mpr ?_
  simp only [mendedRun, unbroken_cons_iff, reduceCtorEq, false_implies, implies_true, true_and,
    Act.fail.injEq, forall_eq']
  exact ⟨by decide +kernel, by decide +kernel, fun _ _ _ h => by simp at h⟩

def brokenRun : List Act :=
  [.start, .list, .list, .checkExists, .mkdir [sd], .createNewFile, .openAsset, .openOutput,
    .copy 1, .fail 1, .start, .list, .list, .checkExists]

/-- The next run takes the two bytes for the whole page. -/
theorem page_stays_truncated :
    ValidTrace pageSystem Unrestricted ⟨noFiles, [], .idle⟩ brokenRun ∧
      (runTrace pageSystem ⟨noFiles, [], .idle⟩ brokenRun).phase = .finished ∧
      ¬Installed pageAssets (ofString "ws") (ofString "/sd") noFiles
        (runTrace pageSystem ⟨noFiles, [], .idle⟩ brokenRun).files := by
  refine ⟨by decide +kernel, by decide +kernel, fun h => ?_⟩
  have hpage : IsAsset pageAssets (ofString "ws") [page] :=
    ⟨⟨by decide +kernel, trivial⟩, by decide +kernel⟩
  have hwhole := h.missing [page] hpage rfl
  have hshort : (runTrace pageSystem ⟨noFiles, [], .idle⟩ brokenRun).files
      (newFile (ofString "/sd") ++ [page]) = some (.file [1, 2]) := by decide +kernel
  rw [hshort] at hwhole
  exact absurd hwhole (by decide)

end OnePage

end AssetInstall
