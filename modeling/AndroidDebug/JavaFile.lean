import AndroidDebug.FilePaths
import AndroidDebug.UrlDecoder

/-! Java's File over the files of a device. -/
namespace JavaFile

open JavaText FilePaths

abbrev Bytes := List UInt8

/-- `refuses` tells the paths that no system call takes: one with a zero in it, one too long. -/
structure Device where
  files : FileSystem Bytes Bytes
  refuses : JString → Bool
  externalStorage : JString
  malformed : List UInt8 → JString

def segment (s : JString) : Segment Bytes :=
  if s = ofString "." then .here
  else if s = ofString ".." then .up
  else .name (getBytes s)

/-- Slashes in a row count as one. A relative path starts at the root, where every app works. -/
def segments (path : JString) : List (Segment Bytes) :=
  ((path.splitOn slash).filter fun s => s ≠ []).map segment

/-- The path after its dots are taken out. -/
def place (path : JString) : Location Bytes := resolve [] (segments path)

def names (path : List String) : Location Bytes := path.map fun n => getBytes (ofString n)

variable (d : Device)

/-- What `new File(path)` stands for, and where. -/
def find (path : JString) : Option (Location Bytes × Node Bytes) :=
  if path = [] ∨ d.refuses path then none
  else do
    let l ← walk d.files [] (segments path)
    let node ← d.files l
    return (l, node)

def isDirectory (path : JString) : Bool :=
  match find d path with
  | some (_, .directory _ _) => true
  | _ => false

/-- The path of `new File(parent, child)`. -/
def child (parent name : JString) : JString := parent ++ slash :: name

/-- Where a stream opened for writing puts its file. The directory must exist, and the place must
not be a directory. -/
def destination (path : JString) : Option (Location Bytes) :=
  if d.refuses path then none
  else
    match (segments path).getLast? with
    | some (.name n) => do
      let l ← walk d.files [] (segments path).dropLast
      match isSearchable d.files l, d.files (l ++ [n]) with
      | true, some (.directory _ _) => none
      | true, _ => some (l ++ [n])
      | false, _ => none
    | _ => none

variable {d}

theorem find_place {path : JString} {l : Location Bytes} {node : Node Bytes}
    (h : find d path = some (l, node)) : l = place path := by
  unfold find at h
  split_ifs at h
  obtain ⟨m, hwalk, hnode⟩ := Option.bind_eq_some_iff.mp h
  obtain ⟨n, -, hpair⟩ := Option.bind_eq_some_iff.mp hnode
  obtain ⟨rfl, -⟩ := Prod.mk.inj (Option.some.inj hpair)
  exact walk_eq_resolve hwalk

theorem destination_place {path : JString} {l : Location Bytes}
    (h : destination d path = some l) : l = place path := by
  unfold destination at h
  split_ifs at h
  split at h
  · rename_i n hlast
    obtain ⟨m, hwalk, hend⟩ := Option.bind_eq_some_iff.mp h
    have hm := walk_eq_resolve hwalk
    have hpath : segments path = (segments path).dropLast ++ [.name n] := by
      obtain ⟨front, hfront⟩ := List.getLast?_eq_some_iff.mp hlast
      rw [hfront, List.dropLast_concat]
    have hplace : place path = m ++ [n] := by
      rw [place, hpath, resolve_append, ← hm]
      rfl
    rw [hplace]
    split at hend
    · cases hend
    · exact (Option.some.inj hend).symm
    · cases hend
  · cases h

theorem segments_child (parent name : JString) :
    segments (child parent name) = segments parent ++ segments name := by
  rw [segments, child, List.splitOn_append_cons_self, List.filter_append, List.map_append]
  rfl

/-- The child's segments are followed from the parent. -/
theorem place_child (parent name : JString) :
    place (child parent name) = resolve (place parent) (segments name) := by
  rw [place, segments_child, resolve_append]
  rfl

/-! Devices that differ in their files. -/

/-- The directories are the same, and so is what goes with every path. -/
structure SameDirectories (d d' : Device) : Prop where
  directory_iff : ∀ l searchable readable,
    d'.files l = some (.directory searchable readable) ↔
      d.files l = some (.directory searchable readable)
  refuses_eq : d'.refuses = d.refuses
  malformed_eq : d'.malformed = d.malformed

namespace SameDirectories

variable {d' d'' : Device}

theorem refl (d : Device) : SameDirectories d d := ⟨fun _ _ _ => Iff.rfl, rfl, rfl⟩

theorem trans (h : SameDirectories d d') (h' : SameDirectories d' d'') : SameDirectories d d'' where
  directory_iff l searchable readable :=
    (h'.directory_iff l searchable readable).trans (h.directory_iff l searchable readable)
  refuses_eq := h'.refuses_eq.trans h.refuses_eq
  malformed_eq := h'.malformed_eq.trans h.malformed_eq

theorem isSearchable_eq (h : SameDirectories d d') (l : Location Bytes) :
    isSearchable d'.files l = isSearchable d.files l := by
  have hiff : ∀ d : Device, isSearchable d.files l = true ↔
      ∃ readable, d.files l = some (.directory true readable) := by
    intro d
    rw [isSearchable]
    split
    · rename_i searchable readable hnode
      simp [hnode]
    · rename_i hother
      refine iff_of_false Bool.false_ne_true ?_
      rintro ⟨readable, hnode⟩
      exact hother true readable hnode
  rw [Bool.eq_iff_iff, hiff, hiff]
  exact exists_congr fun readable => h.directory_iff l true readable

theorem walk_iff (h : SameDirectories d d') {l k : Location Bytes} {p : List (Segment Bytes)}
    (hk : isSearchable d.files k = true) :
    walk d'.files l p = some k ↔ walk d.files l p = some k := by
  induction p generalizing l with
  | nil =>
    have hsome : ∀ d : Device, isSearchable d.files k = true → (d.files k).isSome := by
      intro d hk
      rw [isSearchable] at hk
      split at hk
      · rename_i hnode
        rw [hnode]
        rfl
      · cases hk
    simp only [walk, Option.ite_none_right_eq_some, Option.some.injEq]
    constructor <;> rintro ⟨-, rfl⟩
    · exact ⟨hsome d hk, rfl⟩
    · exact ⟨hsome d' ((h.isSearchable_eq l).trans hk), rfl⟩
  | cons s p ih => simp only [walk, h.isSearchable_eq, Option.ite_none_right_eq_some, ih]

end SameDirectories

theorem destination_eq_some_iff {path : JString} {l : Location Bytes} :
    destination d path = some l ↔ d.refuses path = false ∧
      ∃ n k, (segments path).getLast? = some (.name n) ∧
        walk d.files [] (segments path).dropLast = some k ∧ isSearchable d.files k = true ∧
        (∀ searchable readable, d.files l ≠ some (.directory searchable readable)) ∧
        l = k ++ [n] := by
  unfold destination
  cases hrefuses : d.refuses path with
  | true => simp
  | false =>
    simp only [Bool.false_eq_true, if_false, true_and]
    split
    · rename_i n hlast
      simp only [hlast, Option.some.injEq, Segment.name.injEq]
      cases hwalk : walk d.files [] (segments path).dropLast with
      | none => simp
      | some k =>
        simp only [Option.bind_eq_bind, Option.bind_some]
        cases hsearchable : isSearchable d.files k with
        | false => simp [hsearchable]
        | true =>
          split
          · rename_i searchable readable _ hnode
            refine iff_of_false (by simp) ?_
            rintro ⟨_, _, rfl, hk, -, hnot, rfl⟩
            obtain rfl := Option.some.inj hk
            exact hnot searchable readable hnode
          · rename_i hnot
            constructor
            · rintro h
              obtain rfl := Option.some.inj h
              exact ⟨n, k, rfl, rfl, hsearchable, hnot, rfl⟩
            · rintro ⟨_, _, rfl, hk, -, -, rfl⟩
              obtain rfl := Option.some.inj hk
              rfl
          · simp_all
    · rename_i hlast
      refine iff_of_false (by simp) ?_
      rintro ⟨n, k, hname, -⟩
      exact hlast n hname

theorem SameDirectories.destination_eq {d' : Device} (h : SameDirectories d d') (path : JString) :
    destination d' path = destination d path := by
  have hdir : ∀ l, (∀ searchable readable, d'.files l ≠ some (.directory searchable readable)) ↔
      ∀ searchable readable, d.files l ≠ some (.directory searchable readable) := by
    intro l
    simp only [ne_eq, h.directory_iff]
  ext l
  rw [destination_eq_some_iff, destination_eq_some_iff, h.refuses_eq, hdir]
  refine and_congr_right fun _ => exists_congr fun n => exists_congr fun k => ?_
  rw [h.isSearchable_eq]
  constructor
  · rintro ⟨hlast, hwalk, hk, hrest⟩
    exact ⟨hlast, (h.walk_iff hk).mp hwalk, hk, hrest⟩
  · rintro ⟨hlast, hwalk, hk, hrest⟩
    exact ⟨hlast, (h.walk_iff hk).mpr hwalk, hk, hrest⟩

end JavaFile
