import AndroidDebug.JavaFile

/-! The file browser: which file of the device answers a request target. -/
namespace FileBrowser

open JavaText FilePaths JavaFile

def question : UInt16 := 0x3F

variable (d : Device)

def SERV_ROOT_DIR : JString := d.externalStorage ++ ofString "/.ws/" ++ ofString "root/"

/-- `index` is the rendered page; `raised` is an exception of the decoder. -/
inductive Response where
  | index
  | forbidden
  | notFound
  | file (l : Location Bytes) (content : Bytes)
  | raised
  deriving DecidableEq, Repr

def cut (target : JString) : JString := target.takeWhile (· ≠ question)

def getTarget (uri : JString) (decode : Bool) : Option JString :=
  (if decode then UrlDecoder.decode d.malformed uri else some uri).map cut

def respond (target : JString) : Response :=
  match find d target with
  | none => .notFound
  | some (_, .directory _ readable) => if readable then .index else .forbidden
  | some (l, .file readable content) => if readable then .file l content else .forbidden

def isIndex (target : JString) : Bool :=
  target = ofString "/" || equalsIgnoreCase (ofString "/index.html") target

def handle (webRoot uri : JString) : Response :=
  (do
    let target ← getTarget d uri true
    if isIndex target then some Response.index
    else if ¬SERV_ROOT_DIR d <+: target ∧ ¬webRoot <+: target then some Response.forbidden
    else
      let target ← if (find d target).isSome then some target else getTarget d uri false
      return respond d target).getD .raised

variable {d} {webRoot uri : JString}

theorem respond_file_iff {target : JString} {l : Location Bytes} {content : Bytes} :
    respond d target = .file l content ↔ find d target = some (l, .file true content) := by
  unfold respond
  split <;> try split
  all_goals simp_all

variable (d webRoot uri)

/-- The target passes the tests that come before the file is looked up. -/
def Admitted (target : JString) : Prop :=
  isIndex target = false ∧ (SERV_ROOT_DIR d <+: target ∨ webRoot <+: target)

/-- The path names a plain file that may be read. -/
def NamesFile (path : JString) : Prop := ∃ l content, find d path = some (l, .file true content)

/-- The path comes to one of the roots and from there on never climbs above it. -/
def StaysBelow (path : JString) : Prop :=
  Enters [] (place webRoot) (segments path) ∨
    Enters [] (place (SERV_ROOT_DIR d)) (segments path)

/-- No admitted target, and no undecoded one that takes its place, leads out of the roots to a
file. -/
structure Contained : Prop where
  decoded : ∀ target, getTarget d uri true = some target → Admitted d webRoot target →
    NamesFile d target → StaysBelow d webRoot target
  undecoded : ∀ target, getTarget d uri true = some target → Admitted d webRoot target →
    find d target = none → NamesFile d (cut uri) → StaysBelow d webRoot (cut uri)

def Inside (l : Location Bytes) : Prop :=
  place webRoot <+: l ∨ place (SERV_ROOT_DIR d) <+: l

variable {d webRoot uri}

theorem handle_file_iff {l : Location Bytes} {content : Bytes} :
    handle d webRoot uri = .file l content ↔
      ∃ target, getTarget d uri true = some target ∧ Admitted d webRoot target ∧
        (find d target = some (l, .file true content) ∨
          find d target = none ∧ find d (cut uri) = some (l, .file true content)) := by
  have hraw : getTarget d uri false = some (cut uri) := rfl
  unfold handle Admitted
  rw [hraw]
  cases htarget : getTarget d uri true with
  | none => simp
  | some target =>
    by_cases hindex : isIndex target = true
    · simp [hindex]
    · by_cases hprefix : SERV_ROOT_DIR d <+: target ∨ webRoot <+: target
      · have hpass : ¬(¬SERV_ROOT_DIR d <+: target ∧ ¬webRoot <+: target) := by tauto
        cases hfind : find d target <;> simp [hindex, hpass, hprefix, hfind, respond_file_iff]
      · have hstop : ¬SERV_ROOT_DIR d <+: target ∧ ¬webRoot <+: target := not_or.mp hprefix
        simp [hindex, hstop]

theorem inside_iff_staysBelow (path : JString) :
    Inside d webRoot (place path) ↔ StaysBelow d webRoot path :=
  or_congr (prefix_resolve_iff List.nil_prefix _) (prefix_resolve_iff List.nil_prefix _)

variable (d webRoot uri)

/-- The browser keeps to its roots exactly when the targets that it opens do. -/
theorem serves_inside_iff :
    (∀ l content, handle d webRoot uri = .file l content → Inside d webRoot l) ↔
      Contained d webRoot uri := by
  constructor
  · intro h
    constructor
    · rintro target htarget hadmitted ⟨l, content, hfind⟩
      have hinside := h l content
        (handle_file_iff.mpr ⟨target, htarget, hadmitted, Or.inl hfind⟩)
      rwa [find_place hfind, inside_iff_staysBelow] at hinside
    · rintro target htarget hadmitted hnone ⟨l, content, hfind⟩
      have hinside := h l content
        (handle_file_iff.mpr ⟨target, htarget, hadmitted, Or.inr ⟨hnone, hfind⟩⟩)
      rwa [find_place hfind, inside_iff_staysBelow] at hinside
  · intro h l content hfile
    obtain ⟨target, htarget, hadmitted, hfind | ⟨hnone, hfind⟩⟩ := handle_file_iff.mp hfile
    · rw [find_place hfind, inside_iff_staysBelow]
      exact h.decoded target htarget hadmitted ⟨l, content, hfind⟩
    · rw [find_place hfind, inside_iff_staysBelow]
      exact h.undecoded target htarget hadmitted hnone ⟨l, content, hfind⟩

/-- From the root of the file system nothing is outside. -/
theorem contained_of_root (h : place webRoot = []) : Contained d webRoot uri := by
  have hstays : ∀ path, StaysBelow d webRoot path := by
    intro path
    rw [← inside_iff_staysBelow]
    left
    rw [h]
    exact List.nil_prefix
  exact ⟨fun target _ _ _ => hstays target, fun _ _ _ _ _ => hstays _⟩

/-- A web root next to a file that is not in it. -/
def sdcard : Device where
  files l :=
    if l = names ["sdcard", "secret.txt"] then some (.file true [42])
    else if l ∈ [names [], names ["sdcard"], names ["sdcard", "web"]] then
      some (.directory true true)
    else none
  refuses _ := false
  externalStorage := ofString "/sdcard"
  malformed _ := []

theorem serves_outside :
    ¬∀ l content, handle sdcard (ofString "/sdcard/web")
      (ofString "/sdcard/web/../secret.txt") = .file l content →
        Inside sdcard (ofString "/sdcard/web") l := by
  intro h
  have hfile := h (names ["sdcard", "secret.txt"]) [42] (by decide +kernel)
  revert hfile
  unfold Inside
  decide +kernel

end FileBrowser
