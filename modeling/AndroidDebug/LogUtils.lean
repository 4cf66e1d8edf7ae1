import AndroidDebug.JavaText
import Mathlib.Data.List.AList
import Mathlib.Logic.Function.Basic

/-! The files of the logger: a record goes to the last file of its date, a full file is followed
by the next number, and with too many files the oldest are deleted and today's are renumbered. -/
namespace LogUtils

abbrev Bytes := List UInt8

abbrev Name := List Char

structure LogFile where
  bytes : Bytes
  lastModified : ℕ
  deriving DecidableEq, Repr

abbrev Directory := AList fun _ : Name => LogFile

/-- The texts of all dates are equally long. The files are listed in any order. -/
structure Platform (δ : Type*) where
  format : δ → Name
  format_injective : Function.Injective format
  format_ne_nil : ∀ d, format d ≠ []
  length_format : ∀ d e, (format d).length = (format e).length
  listFiles : Directory → List Name
  listFiles_perm : ∀ dir, (listFiles dir).Perm dir.keys

/-- One call of write, which reads the clock once or twice. -/
structure Call (δ : Type*) where
  date : δ
  today : δ
  record : Bytes
  time : ℕ

def MAX_FILE_SIZE : ℕ := 1024 * 1024
def MAX_FILE_SUM : ℕ := 50
def MAX_FILE_SUM_CACHE : ℕ := 30

variable {δ : Type*} (P : Platform δ)

def fileName (date : δ) (index : ℕ) : Name :=
  P.format date ++ ('-' :: (Nat.toDigits 10 index ++ ".log".toList))

def lastModified (dir : Directory) (name : Name) : ℕ :=
  match dir.lookup name with
  | some f => f.lastModified
  | none => 0

def isFull (dir : Directory) (name : Name) : Bool :=
  match dir.lookup name with
  | some f => f.bytes.length > MAX_FILE_SIZE
  | none => false

/-- The index at which the loop over the files of a date stops. It passes existing files only,
so there are never more rounds than files. -/
def search (dir : Directory) (date : δ) : ℕ → ℕ → ℕ
  | 0, index => index
  | rounds + 1, index =>
    if isFull dir (fileName P date index) then search dir date rounds (index + 1) else index

def renameTo (dir : Directory) (source target : Name) : Directory :=
  match dir.lookup source with
  | some f => (dir.erase source).insert target f
  | none => dir

def fixFrom (date : δ) (deleteIndex : ℕ) : ℕ → Directory → ℕ → Directory × ℕ
  | 0, dir, index => (dir, index - deleteIndex)
  | rounds + 1, dir, index =>
    if (dir.lookup (fileName P date index)).isSome then
      fixFrom date deleteIndex rounds
        (renameTo dir (fileName P date index) (fileName P date (index - deleteIndex))) (index + 1)
    else (dir, index - deleteIndex)

/-- Renumbers the files of a date after its first ones were deleted; gives the next number. -/
def fixFileList (dir : Directory) (date : δ) (deleteIndex : ℕ) : Directory × ℕ :=
  if P.format date = [] ∨ deleteIndex = 0 then (dir, 0)
  else fixFrom P date deleteIndex dir.keys.length dir (deleteIndex + 1)

/-- Deletes the files and counts those of today. -/
def deleteFiles (today : δ) : List Name → Directory → ℕ → Directory × ℕ
  | [], dir, todayIndex => (dir, todayIndex)
  | name :: names, dir, todayIndex =>
    deleteFiles today names (dir.erase name)
      (if P.format today <+: name then todayIndex + 1 else todayIndex)

def handleOutdatedFiles (dir : Directory) (today : δ) : Directory × Option Name :=
  let files := P.listFiles dir
  if files.length > MAX_FILE_SUM + MAX_FILE_SUM_CACHE then
    let fileList := files.mergeSort fun a b => lastModified dir a ≤ lastModified dir b
    let deleted := deleteFiles P today (fileList.take (files.length - MAX_FILE_SUM)) dir 0
    if deleted.2 > 0 then
      let fixed := fixFileList P deleted.1 today deleted.2
      (fixed.1, some (fileName P today fixed.2))
    else (deleted.1, none)
  else (dir, none)

def createNewFile (dir : Directory) (name : Name) (time : ℕ) : Option Directory :=
  if (dir.lookup name).isSome then none else some (dir.insert name ⟨[], time⟩)

def getWriteFile (dir : Directory) (c : Call δ) : Directory × Option Name :=
  let file := fileName P c.date (search P dir c.date dir.keys.length 1)
  if (dir.lookup file).isSome then (dir, some file)
  else
    let handled := handleOutdatedFiles P dir c.today
    let file := handled.2.getD file
    match createNewFile handled.1 file c.time with
    | none => (handled.1, none)
    | some dir => (dir, some file)

def append (dir : Directory) (name : Name) (record : Bytes) (time : ℕ) : Directory :=
  match dir.lookup name with
  | some f => dir.insert name ⟨f.bytes ++ record, time⟩
  | none => dir.insert name ⟨record, time⟩

/-- The directory after a call, and whether the record was written. -/
def write (dir : Directory) (c : Call δ) : Directory × Bool :=
  match getWriteFile P dir c with
  | (dir, none) => (dir, false)
  | (dir, some file) => (append dir file c.record c.time, true)

def run (calls : List (Call δ)) : Directory := calls.foldl (fun dir c => (write P dir c).1) ∅

def bytesOf (dir : Directory) (name : Name) : Bytes :=
  match dir.lookup name with
  | some f => f.bytes
  | none => []

variable {P}

theorem run_concat (calls : List (Call δ)) (c : Call δ) :
    run P (calls ++ [c]) = (write P (run P calls) c).1 := by
  rw [run, List.foldl_append]
  rfl

theorem fileName_prefix {d e : δ} {index : ℕ} : P.format d <+: fileName P e index ↔ e = d := by
  constructor
  · intro h
    have hlen := P.length_format e d
    have hfront : P.format d <+: P.format e := by
      apply List.prefix_of_prefix_length_le h
      · exact List.prefix_append _ _
      · omega
    exact P.format_injective (hfront.eq_of_length hlen.symm).symm
  · rintro rfl
    exact List.prefix_append _ _

theorem fileName_inj {d e : δ} {i j : ℕ} : fileName P d i = fileName P e j ↔ d = e ∧ i = j := by
  constructor
  · intro h
    have hfront : P.format d <+: fileName P e j := by
      rw [← h]
      exact List.prefix_append _ _
    have hd : e = d := fileName_prefix.mp hfront
    subst hd
    have hdigits : Nat.toDigits 10 i = Nat.toDigits 10 j := by
      have htail := List.append_cancel_left h
      rw [List.cons.injEq] at htail
      exact List.append_cancel_right htail.2
    have hi := JavaText.digitsValue_toDigits i
    rw [hdigits, JavaText.digitsValue_toDigits j] at hi
    exact ⟨rfl, (Option.some.inj hi).symm⟩
  · rintro ⟨rfl, rfl⟩
    rfl

/-- The record goes to a file that is there. -/
theorem write_found {dir : Directory} {c : Call δ} {name : Name} {f : LogFile}
    (hname : fileName P c.date (search P dir c.date dir.keys.length 1) = name)
    (hfile : dir.lookup name = some f) :
    write P dir c = (dir.insert name ⟨f.bytes ++ c.record, c.time⟩, true) := by
  subst hname
  simp [write, getWriteFile, append, hfile]

/-- The record goes to a new file, perhaps under another number. -/
theorem write_begun {dir cleared : Directory} {c : Call δ} {name : Name} {renumbered : Option Name}
    (hname : fileName P c.date (search P dir c.date dir.keys.length 1) = name)
    (hmissing : dir.lookup name = none)
    (hhandled : handleOutdatedFiles P dir c.today = (cleared, renumbered))
    (hfree : cleared.lookup (renumbered.getD name) = none) :
    write P dir c = (cleared.insert (renumbered.getD name) ⟨c.record, c.time⟩, true) := by
  subst hname
  have hcreate : ∀ file, cleared.lookup file = none →
      createNewFile cleared file c.time = some (cleared.insert file ⟨[], c.time⟩) := by
    intro file hfile
    simp [createNewFile, hfile]
  simp [write, getWriteFile, append, hmissing, hhandled, hcreate _ hfree, AList.lookup_insert,
    AList.insert_insert]

end LogUtils
