import AndroidDebug.Comparators
import AndroidDebug.JavaFile
import Mathlib.Data.Finset.Basic
import Mathlib.Data.Finset.Dedup
import Mathlib.Data.List.Lex

/-! The order of a directory's files in the two listings: that of getAllFileName and that of
DatabaseHandler's sort. -/
namespace ListingOrder

open Comparators JavaText

inductive Kind where
  | file | directory | special
  deriving DecidableEq, Repr

/-- A File and what the device says of it. -/
structure File where
  path : JString
  kind : Kind
  deriving DecidableEq, Repr

def File.isDirectory (f : File) : Bool := f.kind = .directory

def File.isFile (f : File) : Bool := f.kind = .file

/-- `getName()`: what comes after the last slash. -/
def File.getName (f : File) : JString := (f.path.reverse.takeWhile (· ≠ slash)).reverse

section Strings

/-- `String.compareTo`: the first units that differ decide, or else the lengths. -/
def compareTo : JString → JString → ℤ
  | [], t => -t.length
  | s, [] => s.length
  | u :: s, v :: t => if u = v then compareTo s t else u.toNat - v.toNat

variable (toUpperCase toLowerCase : UInt16 → UInt16)

def compareToIgnoreCase : JString → JString → ℤ
  | [], t => -t.length
  | s, [] => s.length
  | u :: s, v :: t =>
    if u = v then compareToIgnoreCase s t
    else if toUpperCase u = toUpperCase v then compareToIgnoreCase s t
    else
      let u := toLowerCase (toUpperCase u)
      let v := toLowerCase (toUpperCase v)
      if u = v then compareToIgnoreCase s t else u.toNat - v.toNat

end Strings

def getAllFileName.compare (o1 o2 : File) : ℤ :=
  if o1.isDirectory && o2.isFile then -1
  else if o1.isFile && o2.isDirectory then 1
  else compareTo o1.getName o2.getName

structure Response where
  rows : List JString
  path : JString
  isSuccessful : Bool
  deriving DecidableEq, Repr

/-- `listFiles` is null for what is not a directory that can be read. -/
def getAllFileName (listFiles : JString → Option (List File)) (path : JString) : Response :=
  match listFiles path with
  | some files => ⟨(sortedBy getAllFileName.compare files).map File.getName, path, true⟩
  | none => ⟨[], path, true⟩

def sort.compare (toUpperCase toLowerCase : UInt16 → UInt16) (f1 f2 : File) : ℤ :=
  if f1.isDirectory && !f2.isDirectory then -1
  else if !f1.isDirectory && f2.isDirectory then 1
  else compareToIgnoreCase toUpperCase toLowerCase f1.path f2.path

def sort (toUpperCase toLowerCase : UInt16 → UInt16) (files : List File) : List File :=
  sortedBy (sort.compare toUpperCase toLowerCase) files

/-- The comparator orders the files, and in whatever order they are listed, the sort puts the
directories first. -/
structure Ordered (compare : File → File → ℤ) (files : Finset File) : Prop where
  preorder : IsTotalPreorderOn compare files
  directoriesFirst : ∀ listed : List File, listed.Nodup → listed.toFinset = files →
    (sortedBy compare listed).Pairwise fun f1 f2 => f2.isDirectory = true → f1.isDirectory = true

/-- The name of every special file comes after that of every directory. -/
def SpecialsAfterDirectories (files : Finset File) : Prop :=
  ∀ s ∈ files, s.kind = .special → ∀ d ∈ files, d.kind = .directory →
    compareTo d.getName s.getName < 0

/-! Strings are ordered by their units, up to case by the lower case of their upper case. -/

section Strings

variable {toUpperCase toLowerCase : UInt16 → UInt16} {s t : JString}

def units (s : JString) : List ℕ := s.map UInt16.toNat

theorem compareTo_swap (s t : JString) : compareTo t s = -compareTo s t := by
  induction s generalizing t with
  | nil => cases t <;> simp [compareTo]
  | cons u s ih =>
    cases t with
    | nil => simp [compareTo]
    | cons v t =>
      rw [compareTo, compareTo]
      by_cases h : u = v
      · rw [if_pos h, if_pos h.symm, ih]
      · rw [if_neg h, if_neg (Ne.symm h)]
        omega

theorem compareTo_neg : compareTo s t < 0 ↔ units s < units t := by
  induction s generalizing t with
  | nil =>
    cases t with
    | nil => simp [compareTo, units]
    | cons v t =>
      rw [compareTo, units, units, List.map_nil, List.map_cons]
      exact iff_of_true (by rw [List.length_cons]; omega) (List.nil_lt_cons _ _)
  | cons u s ih =>
    cases t with
    | nil =>
      have hlength : ¬ compareTo (u :: s) [] < 0 := by
        simp only [compareTo, List.length_cons]
        omega
      exact iff_of_false hlength (List.not_lt_nil _)
    | cons v t =>
      have hcons : units (u :: s) < units (v :: t) ↔
          u.toNat < v.toNat ∨ u.toNat = v.toNat ∧ units s < units t := List.cons_lt_cons_iff
      rw [compareTo, hcons]
      by_cases h : u = v
      · subst h
        simp [ih]
      · have hne : u.toNat ≠ v.toNat := fun heq => h (UInt16.toNat_inj.mp heq)
        rw [if_neg h]
        omega

theorem compareToIgnoreCase_eq (s t : JString) :
    compareToIgnoreCase toUpperCase toLowerCase s t =
      compareTo (s.map (toLowerCase ∘ toUpperCase)) (t.map (toLowerCase ∘ toUpperCase)) := by
  induction s generalizing t with
  | nil => cases t <;> simp [compareTo, compareToIgnoreCase]
  | cons u s ih =>
    cases t with
    | nil => simp [compareTo, compareToIgnoreCase]
    | cons v t =>
      simp only [compareToIgnoreCase, List.map_cons, compareTo, Function.comp_apply, ih]
      by_cases h : u = v
      · simp [h]
      · by_cases h' : toUpperCase u = toUpperCase v
        · simp [h']
        · rw [if_neg h, if_neg h']

end Strings

/-! Directories first, then a key. -/

variable {files : Finset File} {f1 f2 : File}

def key (k : File → List ℕ) (f : File) : Bool ×ₗ List ℕ := toLex (!f.isDirectory, k f)

theorem key_lt {k : File → List ℕ} : key k f1 < key k f2 ↔
    f1.isDirectory = true ∧ f2.isDirectory = false ∨
      f1.isDirectory = f2.isDirectory ∧ k f1 < k f2 := by
  rw [key, key, Prod.Lex.toLex_lt_toLex]
  cases f1.isDirectory <;> cases f2.isDirectory <;> simp

theorem ordered_of_key {compare : File → File → ℤ} (k : File → List ℕ)
    (hneg : ∀ f1 ∈ files, ∀ f2 ∈ files, (compare f1 f2 < 0 ↔ key k f1 < key k f2))
    (hswap : ∀ f1 f2, compare f2 f1 = -compare f1 f2) : Ordered compare files := by
  have hpos : ∀ f1 ∈ files, ∀ f2 ∈ files, (0 < compare f1 f2 ↔ key k f2 < key k f1) := by
    intro f1 h1 f2 h2
    rw [← hneg f2 h2 f1 h1, hswap f1 f2]
    omega
  have hpre : IsTotalPreorderOn compare (files : Set File) := .of_key (key k) hneg hpos
  refine ⟨hpre, fun listed _ hlisted => ?_⟩
  have hmem : ∀ f ∈ listed, f ∈ (files : Set File) := fun f hf => by
    rw [← hlisted]
    simpa using hf
  refine (hpre.pairwise_sortedBy hmem).imp_of_mem fun {f1 f2} h1 h2 hle hdir => ?_
  by_contra hnot
  have hperm := List.mergeSort_perm listed fun f1 f2 => compare f1 f2 ≤ 0
  have hlt : key k f2 < key k f1 := key_lt.mpr (.inl ⟨hdir, by simpa using hnot⟩)
  have := (hpos f1 (hmem f1 (hperm.subset h1)) f2 (hmem f2 (hperm.subset h2))).mpr hlt
  omega

theorem sort_swap (toUpperCase toLowerCase : UInt16 → UInt16) (f1 f2 : File) :
    sort.compare toUpperCase toLowerCase f2 f1 = -sort.compare toUpperCase toLowerCase f1 f2 := by
  rw [sort.compare, sort.compare, compareToIgnoreCase_eq, compareToIgnoreCase_eq,
    compareTo_swap (f1.path.map _)]
  cases f1.isDirectory <;> cases f2.isDirectory <;> simp

theorem sort_ordered (toUpperCase toLowerCase : UInt16 → UInt16) (files : Finset File) :
    Ordered (sort.compare toUpperCase toLowerCase) files := by
  refine ordered_of_key (fun f => units (f.path.map (toLowerCase ∘ toUpperCase)))
    (fun f1 _ f2 _ => ?_) (sort_swap toUpperCase toLowerCase)
  rw [key_lt, sort.compare, compareToIgnoreCase_eq]
  cases f1.isDirectory <;> cases f2.isDirectory <;> simp [compareTo_neg]

theorem compare_swap (f1 f2 : File) :
    getAllFileName.compare f2 f1 = -getAllFileName.compare f1 f2 := by
  rw [getAllFileName.compare, getAllFileName.compare, compareTo_swap f1.getName]
  cases h1 : f1.kind <;> cases h2 : f2.kind <;> simp [File.isDirectory, File.isFile, h1, h2]

theorem getAllFileName_ordered (h : SpecialsAfterDirectories files) :
    Ordered getAllFileName.compare files := by
  refine ordered_of_key (fun f => units f.getName) (fun f1 h1 f2 h2 => ?_) compare_swap
  rw [key_lt, getAllFileName.compare]
  cases hk1 : f1.kind <;> cases hk2 : f2.kind <;>
    simp only [File.isDirectory, File.isFile, hk1, hk2] <;> simp [compareTo_neg]
  · exact compareTo_neg.mp (h f2 h2 hk2 f1 h1 hk1)
  · exact (compareTo_neg.mp (h f1 h1 hk1 f2 h2 hk2)).le

/-- The listing of sort, whatever there is in the directory. -/
theorem sort_listed (toUpperCase toLowerCase : UInt16 → UInt16) {listed : List File}
    (hlisted : listed.Nodup) :
    (sort toUpperCase toLowerCase listed).Perm listed ∧
      (sort toUpperCase toLowerCase listed).Pairwise fun f1 f2 =>
        f2.isDirectory = true → f1.isDirectory = true :=
  ⟨List.mergeSort_perm _ _, (sort_ordered _ _ _).directoriesFirst listed hlisted rfl⟩

/-- That of getAllFileName, by the names. -/
theorem getAllFileName_listed {listFiles : JString → Option (List File)} {path : JString}
    {listed : List File} (hfiles : listFiles path = some listed) (hlisted : listed.Nodup)
    (h : SpecialsAfterDirectories listed.toFinset) :
    ∃ fileList : List File, fileList.Perm listed ∧
      (fileList.Pairwise fun f1 f2 => f2.isDirectory = true → f1.isDirectory = true) ∧
      (getAllFileName listFiles path).rows = fileList.map File.getName :=
  ⟨sortedBy getAllFileName.compare listed, List.mergeSort_perm _ _,
    (getAllFileName_ordered h).directoriesFirst listed hlisted rfl, by rw [getAllFileName, hfiles]⟩

theorem specials_after (h : Ordered getAllFileName.compare files) :
    SpecialsAfterDirectories files := by
  intro s hs hspecial d hd hdirectory
  by_contra hle
  have hne : s ≠ d := by
    rintro rfl
    rw [hspecial] at hdirectory
    cases hdirectory
  have hcompare : getAllFileName.compare s d ≤ 0 := by
    have hnames : getAllFileName.compare s d = compareTo s.getName d.getName := by
      simp [getAllFileName.compare, File.isDirectory, File.isFile, hspecial, hdirectory]
    rw [hnames, compareTo_swap d.getName]
    omega
  have hset : (s :: d :: ((files.erase s).erase d).toList).toFinset = files := by
    rw [List.toFinset_cons, List.toFinset_cons, Finset.toList_toFinset,
      Finset.insert_erase (Finset.mem_erase.mpr ⟨hne.symm, hd⟩), Finset.insert_erase hs]
  -- the special file is listed before the directory, and the sort leaves it there
  have hsorted := h.directoriesFirst _ (by simp [hne, Finset.nodup_toList]) hset
  have hpair := h.preorder.pair_sublist_sortedBy (fun f hf => ?_) hcompare
    ((List.Sublist.refl [s, d]).append (List.nil_sublist ((files.erase s).erase d).toList))
  · have hfirst := hsorted.sublist hpair
    simp [File.isDirectory, hspecial, hdirectory] at hfirst
  · have hmem : f ∈ (s :: d :: ((files.erase s).erase d).toList).toFinset :=
      List.mem_toFinset.mpr hf
    rwa [hset] at hmem

/-- The test of isFile leaves a special file to its name, by which it can stand before a directory,
or between a file and a directory. -/
theorem listings_ordered_iff (toUpperCase toLowerCase : UInt16 → UInt16) (files : Finset File) :
    Ordered getAllFileName.compare files ∧ Ordered (sort.compare toUpperCase toLowerCase) files ↔
      SpecialsAfterDirectories files :=
  ⟨fun h => specials_after h.1, fun h => ⟨getAllFileName_ordered h, sort_ordered _ _ _⟩⟩

def file (name : String) (kind : Kind) : File := ⟨ofString "/data/" ++ ofString name, kind⟩

/-- A fifo between a file and a directory by its name: the three come round in a circle. -/
theorem special_cycle :
    getAllFileName.compare (file "b" .directory) (file "a" .file) = -1 ∧
      getAllFileName.compare (file "a" .file) (file "aa" .special) = -1 ∧
      getAllFileName.compare (file "aa" .special) (file "b" .directory) = -1 ∧
      ¬∀ toUpperCase toLowerCase files, Ordered getAllFileName.compare files ∧
        Ordered (sort.compare toUpperCase toLowerCase) files := by
  refine ⟨by decide, by decide, by decide, fun h => ?_⟩
  have hpre := (h id id {file "b" .directory, file "a" .file, file "aa" .special}).1.preorder
  have htrans := hpre.le_trans (x := file "b" .directory) (y := file "a" .file)
    (z := file "aa" .special) (by simp) (by simp) (by simp) (by decide) (by decide)
  exact absurd htrans (by decide)

end ListingOrder
