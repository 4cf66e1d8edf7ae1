import AndroidDebug.LogRotation
import Mathlib.Data.Nat.Find

/-! Collecting the log files of a date. The loop stops at the first number that is missing, so it
finds every file exactly while the files of the date are numbered from 1 without a gap. -/
namespace LogCollection

open LogUtils LogRotation

section Segments

/-- The numbers 1 to some n. -/
def Initial (A : ℕ → Prop) : Prop := ∃ n, ∀ i, A i ↔ 1 ≤ i ∧ i ≤ n

variable {A L : ℕ → Prop} {n k m : ℕ}

theorem Initial.congr {B : ℕ → Prop} (h : ∀ i, A i ↔ B i) : Initial A ↔ Initial B := by
  simp only [Initial, h]

theorem Initial.closed (h : Initial A) {i j : ℕ} (hi : 1 ≤ i) (hij : i < j) (hj : A j) : A i := by
  obtain ⟨n, hn⟩ := h
  have hbound := (hn j).mp hj
  exact (hn i).mpr ⟨hi, by omega⟩

theorem initial_iff (hpos : ∀ i, A i → 1 ≤ i) (hbound : ∀ i, A i → i ≤ n) :
    Initial A ↔ ∀ i j, 1 ≤ i → i < j → A j → A i := by
  constructor
  · intro h i j hi hij hj
    exact h.closed hi hij hj
  · intro hclosed
    have hmissing : ∃ l, ¬A (l + 1) := ⟨n, fun h => by have := hbound _ h; omega⟩
    classical
    refine ⟨Nat.find hmissing, fun i => ⟨fun hi => ⟨hpos i hi, ?_⟩, ?_⟩⟩
    · by_contra hlarge
      apply Nat.find_spec hmissing
      rcases Nat.lt_or_ge (Nat.find hmissing + 1) i with hlt | hge
      · exact hclosed _ i (by omega) hlt hi
      · obtain rfl : i = Nat.find hmissing + 1 := by omega
        exact hi
    · rintro ⟨hi, hle⟩
      have hin := Nat.find_min hmissing (m := i - 1) (by omega)
      rw [not_not, Nat.sub_add_cancel hi] at hin
      exact hin

/-- The number after the last one was given out, and perhaps some were taken. -/
theorem initial_next (hin : ∀ i, L i → 1 ≤ i ∧ i ≤ n) :
    Initial (fun i => i = n + 1 ∨ L i) ↔ ∀ i, 1 ≤ i → i ≤ n → L i := by
  constructor
  · intro h i hi hle
    rcases h.closed hi (Nat.lt_succ_of_le hle) (Or.inl rfl) with heq | hleft
    · omega
    · exact hleft
  · intro hall
    refine ⟨n + 1, fun i => ⟨?_, fun ⟨hi, hle⟩ => ?_⟩⟩
    · rintro (rfl | hleft)
      · omega
      · have := hin i hleft
        omega
    · rcases Nat.lt_or_ge n i with hlt | hge
      · exact Or.inl (by omega)
      · exact Or.inr (hall i hi hge)

/-- The numbers after the `m` numbers that follow `k` were lowered by `k` and `m + 1` was given
out. -/
def Lowered (L : ℕ → Prop) (k m i : ℕ) : Prop :=
  i = m + 1 ∨ (1 ≤ i ∧ i ≤ m) ∨ (L i ∧ ¬(k < i ∧ i ≤ k + m))

theorem lowered_iff (hk : 0 < k) (hwindow : ∀ i, k < i → i ≤ k + m → L i)
    (hend : ¬L (k + m + 1)) (hpos : ∀ i, L i → 1 ≤ i) (hbound : ∀ i, L i → i ≤ n) :
    Initial (Lowered L k m) ↔
      (∀ i j, k < i → i < j → L j → L i) ∧
        ∀ i j, 1 ≤ i → i < j → j ≤ k → L j → L i ∨ i = 1 ∨ L (k + i - 1) := by
  have hafter : ¬Lowered L k m (k + m + 1) := by
    rintro (h | h | h)
    · omega
    · omega
    · exact hend h.1
  rw [initial_iff (n := n + m + 1)]
  · constructor
    · intro hclosed
      refine ⟨fun i j hi hij hj => ?_, fun i j hi hij hjk hj => ?_⟩
      · have hin : j ≤ k + m := by
          by_contra hbeyond
          have hlow : Lowered L k m j := Or.inr (Or.inr ⟨hj, by omega⟩)
          rcases Nat.lt_or_ge (k + m + 1) j with hlt | hge
          · exact hafter (hclosed _ j (by omega) hlt hlow)
          · obtain rfl : j = k + m + 1 := by omega
            exact hafter hlow
        exact hwindow i hi (by omega)
      · rcases hclosed i j hi hij (Or.inr (Or.inr ⟨hj, by omega⟩)) with hnew | hlow | hleft
        · rcases Nat.eq_zero_or_pos m with hm | hm
          · exact Or.inr (Or.inl (by omega))
          · exact Or.inr (Or.inr (hwindow _ (by omega) (by omega)))
        · rcases Nat.lt_or_ge 1 i with hlt | hge
          · exact Or.inr (Or.inr (hwindow _ (by omega) (by omega)))
          · exact Or.inr (Or.inl (by omega))
        · exact Or.inl hleft.1
    · rintro ⟨habove, hbelow⟩ i j hi hij hj
      have hnone : ∀ l, k + m < l → ¬L l := by
        intro l hl hin
        rcases Nat.lt_or_ge (k + m + 1) l with hlt | hge
        · exact hend (habove _ l (by omega) hlt hin)
        · obtain rfl : l = k + m + 1 := by omega
          exact hend hin
      rcases hj with hnew | hlow | hleft
      · exact Or.inr (Or.inl (by omega))
      · exact Or.inr (Or.inl (by omega))
      · have hjk : j ≤ k := by
          by_contra hgreater
          exact hnone j (by omega) hleft.1
        rcases hbelow i j hi hij hjk hleft.1 with hin | hone | hshifted
        · exact Or.inr (Or.inr ⟨hin, by omega⟩)
        · rcases Nat.eq_zero_or_pos m with hm | hm
          · exact Or.inl (by omega)
          · exact Or.inr (Or.inl (by omega))
        · have hsmall : k + i - 1 ≤ k + m := by
            by_contra hlarge
            exact hnone _ (by omega) hshifted
          rcases Nat.lt_or_ge m i with hlt | hge
          · exact Or.inl (by omega)
          · exact Or.inr (Or.inl ⟨hi, hge⟩)
  · rintro i (h | h | h)
    · omega
    · omega
    · exact hpos i h.1
  · rintro i (h | h | h)
    · omega
    · omega
    · have := hbound i h.1
      omega

end Segments

variable {δ : Type*} (P : Platform δ)

section Collecting

/-- The loop passes existing files only, so there are never more rounds than files. -/
def listFrom (dir : Directory) (date : δ) : ℕ → ℕ → List Name
  | 0, _ => []
  | rounds + 1, index =>
    if (dir.lookup (fileName P date index)).isSome then
      fileName P date index :: listFrom dir date rounds (index + 1)
    else []

def getFileList (dir : Directory) (date : δ) : List Name :=
  listFrom P dir date dir.keys.length 1

/-- The list has exactly the files of the date, in index order. -/
def Collects (dir : Directory) (date : δ) : Prop :=
  ∃ indices : List ℕ, indices.Pairwise (· < ·) ∧ (∀ i, i ∈ indices ↔ fileName P date i ∈ dir) ∧
    getFileList P dir date = indices.map (fileName P date)

variable {P} {dir : Directory} {date : δ}

theorem fileName_injective (date : δ) : Function.Injective (fileName P date) :=
  fun _ _ h => (fileName_inj.mp h).2

/-- The loop has no more numbers to pass than there are files. -/
theorem numbers_le_files {j n : ℕ} (h : ∀ i, j ≤ i → i < j + n → fileName P date i ∈ dir) :
    n ≤ dir.keys.length := by
  have hnodup : ((List.range' j n).map (fileName P date)).Nodup :=
    List.Nodup.map (fileName_injective date) List.nodup_range'
  have hsub : (List.range' j n).map (fileName P date) ⊆ dir.keys := by
    intro name hname
    obtain ⟨i, hi, rfl⟩ := List.mem_map.mp hname
    rw [List.mem_range'_1] at hi
    exact AList.mem_keys.mp (h i hi.1 hi.2)
  have hlen := (List.subperm_of_subset hnodup hsub).length_le
  rwa [List.length_map, List.length_range'] at hlen

theorem listFrom_eq {rounds index m : ℕ} (hrounds : m ≤ rounds)
    (hin : ∀ i, index ≤ i → i < index + m → fileName P date i ∈ dir)
    (hend : fileName P date (index + m) ∉ dir) :
    listFrom P dir date rounds index = (List.range' index m).map (fileName P date) := by
  induction m generalizing rounds index with
  | zero =>
    rw [Nat.add_zero] at hend
    cases rounds with
    | zero => rfl
    | succ rounds =>
      rw [listFrom, if_neg fun h => hend (AList.lookup_isSome.mp h)]
      rfl
  | succ m ih =>
    obtain ⟨rounds, rfl⟩ : ∃ r, rounds = r + 1 := ⟨rounds - 1, by omega⟩
    have hfirst := AList.lookup_isSome.mpr (hin index (Nat.le_refl _) (by omega))
    rw [listFrom, if_pos hfirst, List.range'_succ, List.map_cons]
    congr 1
    apply ih (by omega)
    · intro i hi hlt
      exact hin i (by omega) (by omega)
    · rwa [Nat.add_right_comm]

/-- The run of files from number 1, which ends before a missing one. -/
theorem exists_run (dir : Directory) (date : δ) :
    ∃ m, (∀ i, 1 ≤ i → i ≤ m → fileName P date i ∈ dir) ∧ fileName P date (m + 1) ∉ dir := by
  have hmissing : ∃ m, fileName P date (m + 1) ∉ dir := by
    by_contra hall
    simp only [not_exists, not_not] at hall
    have hrun : ∀ i, 1 ≤ i → i < 1 + (dir.keys.length + 1) → fileName P date i ∈ dir := by
      intro i hi _
      have hin := hall (i - 1)
      rwa [Nat.sub_add_cancel hi] at hin
    have hlen := numbers_le_files hrun
    omega
  classical
  refine ⟨Nat.find hmissing, fun i hi hle => ?_, Nat.find_spec hmissing⟩
  have hin := Nat.find_min hmissing (m := i - 1) (by omega)
  rwa [not_not, Nat.sub_add_cancel hi] at hin

theorem getFileList_eq {m : ℕ} (hin : ∀ i, 1 ≤ i → i ≤ m → fileName P date i ∈ dir)
    (hend : fileName P date (m + 1) ∉ dir) :
    getFileList P dir date = (List.range' 1 m).map (fileName P date) := by
  have hrun : ∀ i, 1 ≤ i → i < 1 + m → fileName P date i ∈ dir :=
    fun i hi hlt => hin i hi (by omega)
  apply listFrom_eq (numbers_le_files hrun) hrun
  rwa [Nat.add_comm]

theorem collects_iff : Collects P dir date ↔ Initial fun i => fileName P date i ∈ dir := by
  obtain ⟨m, hin, hend⟩ := exists_run (P := P) dir date
  have hlist := getFileList_eq hin hend
  constructor
  · rintro ⟨indices, -, hindices, heq⟩
    rw [hlist] at heq
    have hrange := List.map_injective_iff.mpr (fileName_injective date) heq
    refine ⟨m, fun i => ?_⟩
    change fileName P date i ∈ dir ↔ _
    rw [← hindices, ← hrange, List.mem_range'_1]
    omega
  · intro h
    refine ⟨List.range' 1 m, List.pairwise_lt_range', fun i => ?_, hlist⟩
    rw [List.mem_range'_1]
    constructor
    · rintro ⟨hi, hlt⟩
      exact hin i hi (by omega)
    · intro hi
      have hpos : 1 ≤ i := by
        obtain ⟨n, hn⟩ := h
        exact ((hn i).mp hi).1
      refine ⟨hpos, ?_⟩
      by_contra hbeyond
      apply hend
      rcases Nat.lt_or_ge (m + 1) i with hlt | hge
      · exact h.closed (by omega) hlt hi
      · obtain rfl : i = m + 1 := by omega
        exact hi

end Collecting

/-! What a rotation deletes. -/

section Rotation

/-- The files that a rotation deletes, the oldest ones. -/
def oldest (dir : Directory) : List Name :=
  ((P.listFiles dir).mergeSort fun a b => lastModified dir a ≤ lastModified dir b).take
    ((P.listFiles dir).length - MAX_FILE_SUM)

def deletedToday (dir : Directory) (today : δ) : ℕ :=
  (oldest P dir).countP fun name => P.format today <+: name

/-- The call begins a file and there are too many. -/
def Rotates (dir : Directory) (c : Call δ) : Prop :=
  MAX_FILE_SUM + MAX_FILE_SUM_CACHE < dir.keys.length ∧
    ∀ i, fileName P c.date i ∈ dir → isFull dir (fileName P c.date i) = true

def Left (dir : Directory) (date : δ) (i : ℕ) : Prop :=
  fileName P date i ∈ dir ∧ fileName P date i ∉ oldest P dir

/-- Of a date other than the current one the files left come before those deleted; a date that is
over when its next file is begun keeps all of its files. The files of the current date are
renumbered by as many as were deleted of it, and leave no gap as they do when these were the first
ones. -/
structure LeavesNoGap (dir : Directory) (c : Call δ) : Prop where
  others : ∀ d, d ≠ c.today → ∀ i j, 1 ≤ i → i < j → Left P dir d j → Left P dir d i
  begun : deletedToday P dir c.today = 0 → ∀ i, fileName P c.date i ∈ dir → Left P dir c.date i
  above : ∀ i j, deletedToday P dir c.today < i → i < j → Left P dir c.today j →
    Left P dir c.today i
  below : ∀ i j, 1 ≤ i → i < j → j ≤ deletedToday P dir c.today → Left P dir c.today j →
    Left P dir c.today i ∨ i = 1 ∨ Left P dir c.today (deletedToday P dir c.today + i - 1)

variable {P} {dir : Directory} {date today : δ}

theorem mem_deleteFiles (names : List Name) (n : ℕ) {name : Name} :
    name ∈ (deleteFiles P today names dir n).1 ↔ name ∈ dir ∧ name ∉ names := by
  induction names generalizing dir n with
  | nil => simp [deleteFiles]
  | cons first names ih =>
    rw [deleteFiles, ih, AList.mem_erase, List.mem_cons]
    tauto

theorem deleteFiles_count (names : List Name) (n : ℕ) :
    (deleteFiles P today names dir n).2 = n + names.countP fun name => P.format today <+: name := by
  induction names generalizing dir n with
  | nil => rfl
  | cons first names ih =>
    rw [deleteFiles, ih, List.countP_cons]
    by_cases h : P.format today <+: first
    · rw [if_pos h, if_pos (decide_eq_true h)]
      omega
    · rw [if_neg h, if_neg (by simpa using h)]
      omega

theorem mem_renameTo {source target name : Name} (hsource : source ∈ dir) :
    name ∈ renameTo dir source target ↔ name = target ∨ (name ∈ dir ∧ name ≠ source) := by
  obtain ⟨f, hf⟩ := Option.isSome_iff_exists.mp (AList.lookup_isSome.mpr hsource)
  simp only [renameTo, hf, AList.mem_insert, AList.mem_erase]
  tauto

theorem fixFrom_mem {k m : ℕ} (hk : 0 < k) {rounds j : ℕ} (hj : k < j) (hrounds : m ≤ rounds)
    (hin : ∀ i, j ≤ i → i < j + m → fileName P date i ∈ dir)
    (hend : fileName P date (j + m) ∉ dir) :
    (fixFrom P date k rounds dir j).2 = j + m - k ∧
      ∀ name, name ∈ (fixFrom P date k rounds dir j).1 ↔
        (∃ i, j ≤ i ∧ i < j + m ∧ name = fileName P date (i - k)) ∨
          (name ∈ dir ∧ ∀ i, j ≤ i → i < j + m → name ≠ fileName P date i) := by
  induction m generalizing dir rounds j with
  | zero =>
    rw [Nat.add_zero] at hend
    have hstop : fixFrom P date k rounds dir j = (dir, j - k) := by
      cases rounds with
      | zero => rfl
      | succ rounds =>
        rw [fixFrom, if_neg fun h => hend (AList.lookup_isSome.mp h)]
    rw [hstop]
    refine ⟨rfl, fun name => ⟨fun h => Or.inr ⟨h, fun i hi hlt => by omega⟩, ?_⟩⟩
    rintro (⟨i, hi, hlt, -⟩ | ⟨h, -⟩)
    · omega
    · exact h
  | succ m ih =>
    obtain ⟨rounds, rfl⟩ : ∃ r, rounds = r + 1 := ⟨rounds - 1, by omega⟩
    have hsource := hin j (Nat.le_refl _) (by omega)
    have hindex : ∀ {a b : ℕ}, fileName P date a = fileName P date b ↔ a = b :=
      (fileName_injective date).eq_iff
    rw [fixFrom, if_pos (AList.lookup_isSome.mpr hsource)]
    have hnext : ∀ i, j + 1 ≤ i → i < j + 1 + m → fileName P date i ∈
        renameTo dir (fileName P date j) (fileName P date (j - k)) := by
      intro i hi hlt
      rw [mem_renameTo hsource]
      refine Or.inr ⟨hin i (by omega) (by omega), fun heq => ?_⟩
      have := hindex.mp heq
      omega
    have hstop : fileName P date (j + 1 + m) ∉
        renameTo dir (fileName P date j) (fileName P date (j - k)) := by
      rw [mem_renameTo hsource, hindex]
      rintro (heq | ⟨h, -⟩)
      · omega
      · rw [Nat.add_right_comm] at h
        exact hend h
    obtain ⟨hnumber, hmem⟩ := ih (by omega) (Nat.le_of_succ_le_succ hrounds) hnext hstop
    refine ⟨by rw [hnumber]; omega, fun name => ?_⟩
    rw [hmem, mem_renameTo hsource]
    constructor
    · rintro (⟨i, hi, hlt, rfl⟩ | ⟨rfl | ⟨h, hne⟩, hother⟩)
      · exact Or.inl ⟨i, by omega, by omega, rfl⟩
      · exact Or.inl ⟨j, Nat.le_refl _, by omega, rfl⟩
      · refine Or.inr ⟨h, fun i hi hlt => ?_⟩
        rcases Nat.eq_or_lt_of_le hi with rfl | hlater
        · exact hne
        · exact hother i hlater (by omega)
    · rintro (⟨i, hi, hlt, rfl⟩ | ⟨h, hother⟩)
      · rcases Nat.eq_or_lt_of_le hi with rfl | hlater
        · refine Or.inr ⟨Or.inl rfl, fun l hl _ heq => ?_⟩
          have := hindex.mp heq
          omega
        · exact Or.inl ⟨i, hlater, by omega, rfl⟩
      · refine Or.inr ⟨Or.inr ⟨h, hother j (Nat.le_refl _) (by omega)⟩, fun i hi hlt => ?_⟩
        exact hother i (by omega) (by omega)

end Rotation

/-! One call. -/

section Step

variable {P : Platform δ} {dir : Directory} {date today : δ} {c : Call δ} {n : ℕ}

/-- All files of the date are full, so the call goes on to the number after the last one. -/
theorem search_begins (hn : ∀ i, fileName P date i ∈ dir ↔ 1 ≤ i ∧ i ≤ n)
    (hfull : ∀ i, fileName P date i ∈ dir → isFull dir (fileName P date i) = true) :
    search P dir date dir.keys.length 1 = n + 1 := by
  have hrounds : n ≤ dir.keys.length :=
    numbers_le_files fun i hi hlt => (hn i).mpr ⟨hi, by omega⟩
  apply search_eq (by omega) (by omega)
  · intro j hj hlt
    exact hfull j ((hn j).mpr ⟨hj, by omega⟩)
  · have hmissing : fileName P date (n + 1) ∉ dir := fun h => by
      have := (hn _).mp h
      omega
    rw [isFull, AList.lookup_eq_none.mpr hmissing]

theorem search_found (hdir : Initial fun i => fileName P date i ∈ dir)
    (hroom : ¬∀ i, fileName P date i ∈ dir → isFull dir (fileName P date i) = true) :
    fileName P date (search P dir date dir.keys.length 1) ∈ dir := by
  simp only [not_forall] at hroom
  obtain ⟨n, hn⟩ := hdir
  have hrounds : n ≤ dir.keys.length :=
    numbers_le_files fun i hi hlt => (hn i).mpr ⟨hi, by omega⟩
  have hex : ∃ i, fileName P date i ∈ dir ∧ ¬isFull dir (fileName P date i) = true := by
    obtain ⟨i, hi, hopen⟩ := hroom
    exact ⟨i, hi, hopen⟩
  classical
  obtain ⟨hin, hopen⟩ := Nat.find_spec hex
  have hrange := (hn _).mp hin
  have hsearch : search P dir date dir.keys.length 1 = Nat.find hex := by
    apply search_eq hrange.1 (by omega)
    · intro j hj hlt
      by_contra hnot
      exact Nat.find_min hex hlt ⟨(hn j).mpr ⟨hj, by omega⟩, hnot⟩
    · exact Bool.eq_false_iff.mpr hopen
  rwa [hsearch]

theorem mem_write_found (hfile : fileName P c.date (search P dir c.date dir.keys.length 1) ∈ dir)
    {name : Name} : name ∈ (write P dir c).1 ↔ name ∈ dir := by
  obtain ⟨f, hf⟩ := Option.isSome_iff_exists.mp (AList.lookup_isSome.mpr hfile)
  rw [write_found rfl hf, AList.mem_insert]
  constructor
  · rintro (rfl | h)
    · exact hfile
    · exact h
  · exact Or.inr

/-- Whether the file that the call begins is created or is there already, the directory has it. -/
theorem mem_write_begun {file : Name}
    (hfile : fileName P c.date (search P dir c.date dir.keys.length 1) = file)
    (hmissing : file ∉ dir) {cleared : Directory} {renumbered : Option Name}
    (hhandled : handleOutdatedFiles P dir c.today = (cleared, renumbered)) {name : Name} :
    name ∈ (write P dir c).1 ↔ name = renumbered.getD file ∨ name ∈ cleared := by
  have hlookup := AList.lookup_eq_none.mpr hmissing
  by_cases hfree : renumbered.getD file ∈ cleared
  · have hcreate : createNewFile cleared (renumbered.getD file) c.time = none := by
      rw [createNewFile, if_pos (AList.lookup_isSome.mpr hfree)]
    have hwrite : write P dir c = (cleared, false) := by
      have hgot : getWriteFile P dir c = (cleared, none) := by
        subst hfile
        simp [getWriteFile, hlookup, hhandled, hcreate]
      rw [write, hgot]
    rw [hwrite]
    constructor
    · exact Or.inr
    · rintro (rfl | h)
      · exact hfree
      · exact h
  · rw [write_begun hfile hlookup hhandled (AList.lookup_eq_none.mpr hfree), AList.mem_insert]

theorem length_listFiles (dir : Directory) : (P.listFiles dir).length = dir.keys.length :=
  (P.listFiles_perm dir).length_eq

theorem handle_few (hfew : dir.keys.length ≤ MAX_FILE_SUM + MAX_FILE_SUM_CACHE) :
    handleOutdatedFiles P dir today = (dir, none) := by
  have hnot : ¬(P.listFiles dir).length > MAX_FILE_SUM + MAX_FILE_SUM_CACHE := by
    rw [length_listFiles]
    omega
  simp only [handleOutdatedFiles, if_neg hnot]

theorem handle_old (hmany : MAX_FILE_SUM + MAX_FILE_SUM_CACHE < dir.keys.length)
    (hnone : deletedToday P dir today = 0) :
    handleOutdatedFiles P dir today = ((deleteFiles P today (oldest P dir) dir 0).1, none) := by
  rw [← length_listFiles (P := P)] at hmany
  have hcount : (deleteFiles P today (oldest P dir) dir 0).2 = 0 := by
    rw [deleteFiles_count, Nat.zero_add]
    exact hnone
  rw [oldest] at hcount ⊢
  simp only [handleOutdatedFiles, gt_iff_lt, if_pos hmany, hcount, Nat.lt_irrefl, if_false]

/-- Files of today are deleted and those from the number after as many are renumbered. -/
theorem handle_today (hdir : Initial fun i => fileName P today i ∈ dir)
    (hmany : MAX_FILE_SUM + MAX_FILE_SUM_CACHE < dir.keys.length)
    (hsome : 0 < deletedToday P dir today) :
    ∃ m dir', handleOutdatedFiles P dir today = (dir', some (fileName P today (m + 1))) ∧
      (∀ i, deletedToday P dir today < i → i ≤ deletedToday P dir today + m → Left P dir today i) ∧
      ¬Left P dir today (deletedToday P dir today + m + 1) ∧
      ∀ d i, fileName P d i ∈ dir' ↔ (d = today ∧ 1 ≤ i ∧ i ≤ m) ∨
        (Left P dir d i ∧
          ¬(d = today ∧ deletedToday P dir today < i ∧ i ≤ deletedToday P dir today + m)) := by
  rw [← length_listFiles (P := P)] at hmany
  obtain ⟨n, hn⟩ := hdir
  generalize hk : deletedToday P dir today = k at hsome
  have hmissing : ∃ m, ¬Left P dir today (k + m + 1) :=
    ⟨n, fun h => by have := (hn _).mp h.1; omega⟩
  have hdeleted : ∀ d i, fileName P d i ∈ (deleteFiles P today (oldest P dir) dir 0).1 ↔
      Left P dir d i := fun d i => mem_deleteFiles _ _
  have hcount : (deleteFiles P today (oldest P dir) dir 0).2 = k := by
    rw [deleteFiles_count, Nat.zero_add, ← hk]
    rfl
  classical
  have hwindow : ∀ i, k < i → i ≤ k + Nat.find hmissing → Left P dir today i := by
    intro i hi hle
    have hin := Nat.find_min hmissing (m := i - k - 1) (by omega)
    have heq : k + (i - k - 1) + 1 = i := by omega
    rwa [not_not, heq] at hin
  have hrun : ∀ i, k + 1 ≤ i → i < k + 1 + Nat.find hmissing →
      fileName P today i ∈ (deleteFiles P today (oldest P dir) dir 0).1 :=
    fun i hi hlt => (hdeleted today i).mpr (hwindow i hi (by omega))
  have hend : fileName P today (k + 1 + Nat.find hmissing) ∉
      (deleteFiles P today (oldest P dir) dir 0).1 := by
    rw [hdeleted, Nat.add_right_comm]
    exact Nat.find_spec hmissing
  obtain ⟨hnumber, hmem⟩ := fixFrom_mem hsome (Nat.lt_succ_self k) (numbers_le_files hrun) hrun hend
  refine ⟨Nat.find hmissing, _, ?_, hwindow, Nat.find_spec hmissing, fun d i => (hmem _).trans ?_⟩
  · have hnonempty : ¬(P.format today = [] ∨ k = 0) := by
      rintro (h | h)
      · exact P.format_ne_nil today h
      · omega
    have hnext : k + 1 + Nat.find hmissing - k = Nat.find hmissing + 1 := by omega
    rw [oldest] at hcount hnumber ⊢
    simp only [handleOutdatedFiles, gt_iff_lt, if_pos hmany, hcount, hsome, if_true, fixFileList,
      if_neg hnonempty, hnumber, hnext]
  · rw [hdeleted]
    constructor
    · rintro (⟨l, hl, hlt, heq⟩ | ⟨h, hother⟩)
      · obtain ⟨rfl, rfl⟩ := fileName_inj.mp heq
        exact Or.inl ⟨rfl, by omega, by omega⟩
      · refine Or.inr ⟨h, ?_⟩
        rintro ⟨rfl, hi, hle⟩
        exact hother i hi (by omega) rfl
    · rintro (⟨rfl, hi, hle⟩ | ⟨h, hother⟩)
      · exact Or.inl ⟨i + k, by omega, by omega, by rw [Nat.add_sub_cancel]⟩
      · refine Or.inr ⟨h, fun l hl hlt heq => hother ?_⟩
        obtain ⟨rfl, rfl⟩ := fileName_inj.mp heq
        exact ⟨rfl, hl, by omega⟩

theorem initial_begun (hdir : ∀ d, Initial fun i => fileName P d i ∈ dir)
    (hn : ∀ i, fileName P c.date i ∈ dir ↔ 1 ≤ i ∧ i ≤ n) {cleared : Directory}
    (hnames : ∀ d i, fileName P d i ∈ (write P dir c).1 ↔
      fileName P d i = fileName P c.date (n + 1) ∨ fileName P d i ∈ cleared)
    (hsub : ∀ d i, fileName P d i ∈ cleared → fileName P d i ∈ dir) :
    (∀ d, Initial fun i => fileName P d i ∈ (write P dir c).1) ↔
      (∀ i, fileName P c.date i ∈ dir → fileName P c.date i ∈ cleared) ∧
        ∀ d, d ≠ c.date → ∀ i j, 1 ≤ i → i < j → fileName P d j ∈ cleared →
          fileName P d i ∈ cleared := by
  have hdate : Initial (fun i => fileName P c.date i ∈ (write P dir c).1) ↔
      ∀ i, fileName P c.date i ∈ dir → fileName P c.date i ∈ cleared := by
    rw [Initial.congr fun i => (hnames c.date i).trans
      (or_congr_left (fileName_injective c.date).eq_iff),
      initial_next fun i hi => (hn i).mp (hsub _ _ hi)]
    simp only [hn, and_imp]
  have hother : ∀ d, d ≠ c.date → (Initial (fun i => fileName P d i ∈ (write P dir c).1) ↔
      ∀ i j, 1 ≤ i → i < j → fileName P d j ∈ cleared → fileName P d i ∈ cleared) := by
    intro d hne
    obtain ⟨l, hl⟩ := hdir d
    rw [Initial.congr fun i => (hnames d i).trans
      (or_iff_right fun heq => hne (fileName_inj.mp heq).1)]
    exact initial_iff (fun i hi => ((hl i).mp (hsub _ _ hi)).1)
      fun i hi => ((hl i).mp (hsub _ _ hi)).2
  constructor
  · exact fun h => ⟨hdate.mp (h c.date), fun d hne => (hother d hne).mp (h d)⟩
  · rintro ⟨hin, hclosed⟩ d
    by_cases heq : d = c.date
    · subst heq
      exact hdate.mpr hin
    · exact (hother d heq).mpr (hclosed d heq)

theorem left_of_deletedToday (hnone : deletedToday P dir today = 0) {i : ℕ}
    (hi : fileName P today i ∈ dir) : Left P dir today i := by
  refine ⟨hi, fun hin => ?_⟩
  have hfront : P.format today <+: fileName P today i := fileName_prefix.mpr rfl
  rw [deletedToday, List.countP_eq_zero] at hnone
  exact hnone _ hin (decide_eq_true hfront)

/-- No file of today is deleted: the next file of the call's date is begun. -/
theorem leavesNoGap_old (hdir : ∀ d, Initial fun i => fileName P d i ∈ dir)
    (hnone : deletedToday P dir c.today = 0) :
    LeavesNoGap P dir c ↔ (∀ i, fileName P c.date i ∈ dir → Left P dir c.date i) ∧
      ∀ d, d ≠ c.date → ∀ i j, 1 ≤ i → i < j → Left P dir d j → Left P dir d i := by
  have htoday : ∀ i j, 1 ≤ i → i < j → Left P dir c.today j → Left P dir c.today i :=
    fun i j hi hij hj => left_of_deletedToday hnone ((hdir c.today).closed hi hij hj.1)
  constructor
  · intro h
    refine ⟨h.begun hnone, fun d _ i j hi hij hj => ?_⟩
    by_cases heq : d = c.today
    · subst heq
      exact htoday i j hi hij hj
    · exact h.others d heq i j hi hij hj
  · rintro ⟨hbegun, hothers⟩
    constructor
    · intro d _ i j hi hij hj
      by_cases heq : d = c.date
      · subst heq
        exact hbegun i ((hdir c.date).closed hi hij hj.1)
      · exact hothers d heq i j hi hij hj
    · exact fun _ => hbegun
    · intro i j hi hij hj
      exact htoday i j (by omega) hij hj
    · intro i j hi hij hjk hj
      omega

/-- Files of today are deleted: the others of today are renumbered and the next one is begun. -/
theorem leavesNoGap_today (hdir : ∀ d, Initial fun i => fileName P d i ∈ dir)
    (hsome : 0 < deletedToday P dir c.today) {m : ℕ}
    (hwindow : ∀ i, deletedToday P dir c.today < i → i ≤ deletedToday P dir c.today + m →
      Left P dir c.today i)
    (hend : ¬Left P dir c.today (deletedToday P dir c.today + m + 1))
    (htoday : ∀ i, fileName P c.today i ∈ (write P dir c).1 ↔
      Lowered (Left P dir c.today) (deletedToday P dir c.today) m i)
    (hother : ∀ d, d ≠ c.today → ∀ i, fileName P d i ∈ (write P dir c).1 ↔ Left P dir d i) :
    (∀ d, Initial fun i => fileName P d i ∈ (write P dir c).1) ↔ LeavesNoGap P dir c := by
  have hlowered : Initial (fun i => fileName P c.today i ∈ (write P dir c).1) ↔
      (∀ i j, deletedToday P dir c.today < i → i < j → Left P dir c.today j →
        Left P dir c.today i) ∧
      ∀ i j, 1 ≤ i → i < j → j ≤ deletedToday P dir c.today → Left P dir c.today j →
        Left P dir c.today i ∨ i = 1 ∨ Left P dir c.today (deletedToday P dir c.today + i - 1) := by
    obtain ⟨l, hl⟩ := hdir c.today
    rw [Initial.congr htoday]
    exact lowered_iff hsome hwindow hend (fun i hi => ((hl i).mp hi.1).1)
      fun i hi => ((hl i).mp hi.1).2
  have hclosed : ∀ d, d ≠ c.today → (Initial (fun i => fileName P d i ∈ (write P dir c).1) ↔
      ∀ i j, 1 ≤ i → i < j → Left P dir d j → Left P dir d i) := by
    intro d hne
    obtain ⟨l, hl⟩ := hdir d
    rw [Initial.congr (hother d hne)]
    exact initial_iff (fun i hi => ((hl i).mp hi.1).1) fun i hi => ((hl i).mp hi.1).2
  constructor
  · intro h
    obtain ⟨habove, hbelow⟩ := hlowered.mp (h c.today)
    exact ⟨fun d hne => (hclosed d hne).mp (h d), fun hnone => absurd hnone (by omega), habove,
      hbelow⟩
  · intro h d
    by_cases heq : d = c.today
    · subst heq
      exact hlowered.mpr ⟨h.above, h.below⟩
    · exact (hclosed d heq).mpr (h.others d heq)

/-- A call keeps every date numbered without a gap exactly when what it deletes leaves none. -/
theorem write_initial_iff (hdir : ∀ d, Initial fun i => fileName P d i ∈ dir) :
    (∀ d, Initial fun i => fileName P d i ∈ (write P dir c).1) ↔
      (Rotates P dir c → LeavesNoGap P dir c) := by
  by_cases hfull : ∀ i, fileName P c.date i ∈ dir → isFull dir (fileName P c.date i) = true
  · obtain ⟨n, hn⟩ := hdir c.date
    have hsearch := search_begins hn hfull
    have hmissing : fileName P c.date (n + 1) ∉ dir := fun h => by
      have := (hn _).mp h
      omega
    have hmem : ∀ {cleared : Directory} {renumbered : Option Name},
        handleOutdatedFiles P dir c.today = (cleared, renumbered) → ∀ {name : Name},
          (name ∈ (write P dir c).1 ↔
            name = renumbered.getD (fileName P c.date (n + 1)) ∨ name ∈ cleared) :=
      mem_write_begun (by rw [hsearch]) hmissing
    rcases Nat.lt_or_ge (MAX_FILE_SUM + MAX_FILE_SUM_CACHE) dir.keys.length with hmany | hfew
    · rw [imp_iff_right ⟨hmany, hfull⟩]
      rcases Nat.eq_zero_or_pos (deletedToday P dir c.today) with hnone | hsome
      · have hdeleted : ∀ d i,
            fileName P d i ∈ (deleteFiles P c.today (oldest P dir) dir 0).1 ↔ Left P dir d i :=
          fun d i => mem_deleteFiles _ _
        rw [leavesNoGap_old hdir hnone,
          initial_begun hdir hn (fun d i => hmem (handle_old hmany hnone))
            fun d i hi => ((hdeleted d i).mp hi).1]
        simp only [hdeleted]
      · obtain ⟨m, dir', hhandled, hwindow, hend, hcleared⟩ :=
          handle_today (hdir c.today) hmany hsome
        apply leavesNoGap_today hdir hsome hwindow hend
        · intro i
          rw [hmem hhandled, Option.getD_some, (fileName_injective c.today).eq_iff, hcleared]
          simp [Lowered]
        · intro d hne i
          rw [hmem hhandled, Option.getD_some, hcleared]
          simp [fileName_inj, hne]
    · have hnot : ¬Rotates P dir c := fun h => absurd h.1 (by omega)
      apply iff_of_true _ fun h => absurd h hnot
      rw [initial_begun hdir hn (fun d i => hmem (handle_few hfew)) fun d i hi => hi]
      exact ⟨fun i hi => hi, fun d _ i j hi hij hj => (hdir d).closed hi hij hj⟩
  · have hfile := search_found (hdir c.date) hfull
    apply iff_of_true _ fun h => absurd h.2 hfull
    intro d
    simp only [mem_write_found hfile]
    exact hdir d

/-- After every beginning of a run the list of each date has exactly its files, just when no
rotation of the run leaves a gap. -/
theorem collects_iff_leavesNoGap (P : Platform δ) (calls : List (Call δ)) :
    (∀ before, before <+: calls → ∀ d, Collects P (run P before) d) ↔
      ∀ before c, before ++ [c] <+: calls → Rotates P (run P before) c →
        LeavesNoGap P (run P before) c := by
  simp only [collects_iff]
  constructor
  · intro h before c hbefore
    have hdir := h before ((List.prefix_append before [c]).trans hbefore)
    rw [← write_initial_iff hdir, ← run_concat]
    exact h _ hbefore
  · intro h before
    induction before using List.reverseRecOn with
    | nil =>
      intro _ d
      exact ⟨0, fun i => iff_of_false (by simp [run]) (by omega)⟩
    | append_singleton before c ih =>
      intro hbefore
      have hdir := ih ((List.prefix_append before [c]).trans hbefore)
      rw [run_concat]
      exact (write_initial_iff hdir).mpr (h before c hbefore)

end Step

/-! A day with too many files, and the first record of the day after. -/

section CrowdedDay

def crowdedParts (n : ℕ) : List (LogRotation.Part (Fin 3)) :=
  (List.range n).map fun i => begun (largeRecord i) (i + 1)

def nextDay : Call (Fin 3) := dayAfter 81

theorem crowdedParts_succ (n : ℕ) :
    crowdedParts (n + 1) = crowdedParts n ++ [begun (largeRecord n) (n + 1)] := by
  rw [crowdedParts, List.range_succ, List.map_append]
  rfl

theorem length_crowdedParts (n : ℕ) : (crowdedParts n).length = n := by
  rw [crowdedParts, List.length_map, List.length_range]

theorem mem_crowdedParts {n : ℕ} {p : LogRotation.Part (Fin 3)} (hp : p ∈ crowdedParts n) :
    ∃ i < n, p = begun (largeRecord i) (i + 1) := by
  obtain ⟨i, hi, rfl⟩ := List.mem_map.mp hp
  exact ⟨i, List.mem_range.mp hi, rfl⟩

theorem crowded_split (n : ℕ) : Split 0 [] (crowdedParts n) := by
  refine ⟨by simp, fun p hp => ?_, ?_⟩
  · obtain ⟨i, -, rfl⟩ := mem_crowdedParts hp
    rfl
  · rw [crowdedParts, List.map_map, List.length_map, List.length_range, List.range'_eq_map_range]
    apply List.map_congr_left
    intro i _
    exact Nat.add_comm i 1

theorem crowded_full {n : ℕ} {p : LogRotation.Part (Fin 3)} (hp : p ∈ crowdedParts n) :
    p.IsFull := by
  obtain ⟨i, -, rfl⟩ := mem_crowdedParts hp
  simp [Part.IsFull, Part.bytes, begun, largeRecord]

/-- Each record fills a file. -/
theorem crowded_shows {n : ℕ} (hn : n ≤ 81) :
    Shows threeDays (run threeDays (crowdedDay n)) (crowdedParts n) ∧ Ordered (crowdedParts n) := by
  induction n with
  | zero => exact ⟨fun name f => by simp [run, crowdedDay, crowdedParts], List.Pairwise.nil⟩
  | succ n ih =>
    obtain ⟨hshows, hordered⟩ := ih (by omega)
    have hfew : ([] ++ crowdedParts n).length ≤ MAX_FILE_SUM + MAX_FILE_SUM_CACHE := by
      rw [List.nil_append, length_crowdedParts]
      exact Nat.le_of_succ_le_succ hn
    have htime : ∀ p ∈ [] ++ crowdedParts n, p.time < (largeRecord n).time := by
      intro p hp
      obtain ⟨i, hi, rfl⟩ := mem_crowdedParts hp
      exact hi
    have hwritten := write_room (c := largeRecord n) hshows hordered hfew (crowded_split n)
      (le_refl _) htime fun p hp => crowded_full hp
    rw [List.nil_append, length_crowdedParts, ← crowdedParts_succ] at hwritten
    have hrun : run threeDays (crowdedDay (n + 1)) =
        (write threeDays (run threeDays (crowdedDay n)) (largeRecord n)).1 := by
      rw [← run_concat, crowdedDay, List.range_succ, List.map_append]
      rfl
    rw [hrun]
    exact ⟨hwritten.shows, hwritten.ordered⟩

/-- The first record of the next day leaves the files 32 to 81 of the day before. -/
theorem nextDay_shows :
    Shows threeDays (run threeDays (crowdedDay 81 ++ [nextDay]))
      (((List.range' 31 50).map fun i => begun (largeRecord i) (i + 1)) ++ [begun nextDay 1]) := by
  obtain ⟨hshows, hordered⟩ := crowded_shows (Nat.le_refl 81)
  rw [← List.append_nil (crowdedParts 81)] at hshows hordered
  have hlength : (crowdedParts 81 ++ []).length = 81 := by
    rw [List.append_nil, length_crowdedParts]
  have hdate : ∀ p ∈ crowdedParts 81 ++ [], p.date = 0 ∧ p.time < 81 := by
    intro p hp
    rw [List.append_nil] at hp
    obtain ⟨i, hi, rfl⟩ := mem_crowdedParts hp
    exact ⟨rfl, hi⟩
  have hsplit : Split nextDay.date (crowdedParts 81) [] := by
    refine ⟨fun p hp => ?_, by simp, rfl⟩
    rw [(hdate p (by rwa [List.append_nil])).1]
    decide
  have hwritten := write_old (c := nextDay) hshows hordered (by rw [hlength]; decide)
    (by rw [hlength]; decide) hsplit (le_refl _) (fun p hp => (hdate p hp).2) (by simp)
    fun p hp => by
      rw [(hdate p (List.mem_of_mem_take hp)).1]
      decide
  have hcleared : cleared (crowdedParts 81 ++ []) =
      (List.range' 31 50).map fun i => begun (largeRecord i) (i + 1) := by
    rw [cleared, hlength, List.append_nil, crowdedParts, ← List.map_drop, List.range_eq_range',
      List.drop_range']
    rfl
  rw [run_concat, ← hcleared]
  exact hwritten.shows

/-- Yesterday's list is empty while fifty of its files are there. -/
theorem yesterday_incomplete :
    Proper (crowdedDay 81 ++ [nextDay]) ∧
      ¬Collects threeDays (run threeDays (crowdedDay 81 ++ [nextDay])) 0 := by
  refine ⟨proper_crowdedDay (le_refl _) (le_refl _), ?_⟩
  rw [collects_iff]
  intro h
  have hkept : fileName threeDays 0 32 ∈ run threeDays (crowdedDay 81 ++ [nextDay]) := by
    rw [nextDay_shows.mem_iff]
    exact ⟨begun (largeRecord 31) 32, List.mem_append_left _
      (List.mem_map.mpr ⟨31, List.mem_range'_1.mpr (by omega), rfl⟩), rfl, rfl⟩
  have hfirst := h.closed (Nat.le_refl 1) (by omega) hkept
  rw [nextDay_shows.mem_iff] at hfirst
  obtain ⟨p, hp, hdate, hindex⟩ := hfirst
  rcases List.mem_append.mp hp with hp | hp
  · obtain ⟨i, hi, rfl⟩ := List.mem_map.mp hp
    rw [List.mem_range'_1] at hi
    simp only [begun] at hindex
    omega
  · rw [List.mem_singleton.mp hp] at hdate
    exact absurd hdate (by decide)

end CrowdedDay

end LogCollection
