import AndroidDebug.JavaFile
import Mathlib.Logic.Function.Basic

/-! Uploads: where the parts of a multipart request are stored, the temporary files of their items
left aside. -/
namespace FileUpload

open JavaText FilePaths JavaFile

/-- How the system answers an attempt to write: nothing happens, the file is left with other
bytes, or it gets them all. -/
inductive Written where
  | refused
  | stopped (left : Bytes)
  | done
  deriving DecidableEq, Repr

abbrev Disk := Device → Location Bytes → Bytes → Written

/-- A part without a file name is a form field. -/
inductive FileItem where
  | formField
  | file (name : JString) (content : Bytes)
  deriving DecidableEq, Repr

/-- What a request has done so far: `touched` lists the files created or overwritten, and an
exception ends it. -/
structure Progress where
  device : Device
  touched : List (Location Bytes)
  raised : Bool

def isReadable (d : Device) (l : Location Bytes) : Bool :=
  match d.files l with
  | some (.file readable _) => readable
  | _ => true

def store (d : Device) (l : Location Bytes) (content : Bytes) : Device :=
  { d with files := Function.update d.files l (some (.file (isReadable d l) content)) }

def contentAt (d : Device) (l : Location Bytes) : Option Bytes :=
  match d.files l with
  | some (.file _ content) => some content
  | _ => none

/-- `Streams.checkFileName` -/
def checkFileName (name : JString) : Option JString := if 0 ∈ name then none else some name

/-- The name that a part is stored under; `none` is an exception. -/
def decodedName (malformed : List UInt8 → JString) (name : JString) : Option JString := do
  let fileName ← checkFileName name
  UrlDecoder.decode malformed fileName

variable (disk : Disk) (dir : JString)

def write (d : Device) (path : JString) (content : Bytes) : Progress :=
  match destination d path with
  | none => ⟨d, [], true⟩
  | some l =>
    match disk d l content with
    | .refused => ⟨d, [], true⟩
    | .stopped left => ⟨store d l left, [l], true⟩
    | .done => ⟨store d l content, [l], false⟩

def processUploadedFile (d : Device) (name : JString) (content : Bytes) : Progress :=
  match decodedName d.malformed name with
  | none => ⟨d, [], true⟩
  | some fileName => write disk d (child dir fileName) content

def processItem (d : Device) : FileItem → Progress
  | .formField => ⟨d, [], false⟩
  | .file name content => processUploadedFile disk dir d name content

def processFileUpload (d : Device) : List FileItem → Progress
  | [] => ⟨d, [], false⟩
  | item :: items =>
    let first := processItem disk dir d item
    if first.raised then first
    else
      let rest := processFileUpload first.device items
      ⟨rest.device, first.touched ++ rest.touched, rest.raised⟩

inductive Status where
  | ok
  | badRequest
  | forbidden
  | unavailable
  | raised
  deriving DecidableEq, Repr

/-- `dir` and `id` are looked up in the query. -/
structure HttpRequest where
  isMultipartContent : Bool
  dir : Option JString
  id : Option JString
  referer : Option JString
  fileItems : List FileItem

structure Answer where
  status : Status
  device : Device
  touched : List (Location Bytes)

/-- What the handler does not decide itself; `isURL` tells whether `new URL` takes a text. -/
structure Setting where
  ALLOW_UPLOAD : Bool
  isURL : JString → Bool
  disk : Disk

variable (s : Setting)

/-- The decoded directory; `none` is an exception of a decoder or of `new URL`. -/
def readParams (d : Device) (dir id referer : JString) : Option JString := do
  let dir ← UrlDecoder.decode d.malformed dir
  let _ ← UrlDecoder.decode d.malformed id
  let referer ← UrlDecoder.decode d.malformed referer
  if s.isURL referer then some dir else none

def handle (d : Device) (request : HttpRequest) : Answer :=
  if !s.ALLOW_UPLOAD then ⟨.unavailable, d, []⟩
  else if !request.isMultipartContent then ⟨.forbidden, d, []⟩
  else
    match request.dir, request.id, request.referer with
    | some dir, some id, some referer =>
      match readParams s d dir id referer with
      | none => ⟨.raised, d, []⟩
      | some dir =>
        if isDirectory d dir then
          let done := processFileUpload s.disk dir d request.fileItems
          ⟨if done.raised then .badRequest else .ok, done.device, done.touched⟩
        else ⟨.badRequest, d, []⟩
    | _, _, _ => ⟨.badRequest, d, []⟩

/-- The request is a multipart one for this existing directory. -/
def IsUpload (d : Device) (request : HttpRequest) (dir : JString) : Prop :=
  s.ALLOW_UPLOAD = true ∧ request.isMultipartContent = true ∧
    (∃ param id referer, request.dir = some param ∧ request.id = some id ∧
      request.referer = some referer ∧ readParams s d param id referer = some dir) ∧
    isDirectory d dir = true

def Plain (name : JString) : Prop := slash ∉ name

/-- Only the directory is written to, and after a success each plainly named part is in it under
its name. -/
def InPlace (d : Device) (request : HttpRequest) : Prop :=
  ∀ dir, IsUpload s d request dir →
    (∀ l ∈ (handle s d request).touched, place dir <+: l) ∧
      ((handle s d request).status = .ok → ∀ name content,
        .file name content ∈ request.fileItems → Plain name →
          contentAt (handle s d request).device (place dir ++ [getBytes name]) = some content)

/-! The condition. -/

section Condition

variable (malformed : List UInt8 → JString)

/-- The place that a part's decoded name leads to. -/
def leadsTo (name : JString) : Option (Location Bytes) :=
  (decodedName malformed name).map fun fileName =>
    resolve (place dir) (segments fileName)

/-- The bytes of the last part that leads to a place, or else those already there. -/
def lastAt (l : Location Bytes) : Option Bytes → List FileItem → Option Bytes
  | found, [] => found
  | found, .formField :: items => lastAt l found items
  | found, .file name content :: items =>
    lastAt l (if leadsTo dir malformed name = some l then some content else found) items

end Condition

/-- A decoded name under which a file is written comes back to the directory as often as it
climbs out of it. -/
def Stays (d : Device) : FileItem → Prop
  | .formField => True
  | .file name content =>
    ∀ fileName, decodedName d.malformed name = some fileName →
      ∀ l, destination d (child dir fileName) = some l → disk d l content ≠ .refused →
        Enters (place dir) (place dir) (segments fileName)

/-- Each part that is reached stays in the directory. -/
def Contained (d : Device) (items : List FileItem) : Prop :=
  ∀ before item after, items = before ++ item :: after →
    (processFileUpload disk dir d before).raised = false →
      Stays disk dir (processFileUpload disk dir d before).device item

/-- No plainly named part is decoded to another name, or overwritten, unless the bytes are the
same. -/
def KeepsNames (d : Device) (items : List FileItem) : Prop :=
  ∀ name content, .file name content ∈ items → Plain name →
    lastAt dir d.malformed (place dir ++ [getBytes name])
      (contentAt d (place dir ++ [getBytes name])) items = some content

variable {disk dir s} {d : Device}

/-! One part. -/

theorem write_touched {path : JString} {content : Bytes} {l : Location Bytes} :
    l ∈ (write disk d path content).touched ↔
      destination d path = some l ∧ disk d l content ≠ .refused := by
  unfold write
  cases hdest : destination d path with
  | none => simp
  | some m =>
    have hsame : m = l ∧ disk d l content ≠ .refused ↔ l = m ∧ disk d m content ≠ .refused := by
      constructor <;> (rintro ⟨rfl, h⟩; exact ⟨rfl, h⟩)
    simp only [Option.some.injEq, hsame]
    cases disk d m content <;> simp

theorem write_frame {path : JString} {content : Bytes} {l : Location Bytes}
    (h : l ∉ (write disk d path content).touched) :
    (write disk d path content).device.files l = d.files l := by
  unfold write at h ⊢
  split at h
  · rfl
  · split at h
    · rfl
    · exact Function.update_of_ne (List.ne_of_not_mem_cons h) _ _
    · exact Function.update_of_ne (List.ne_of_not_mem_cons h) _ _

theorem write_done {path : JString} {content : Bytes}
    (h : (write disk d path content).raised = false) :
    ∃ l, destination d path = some l ∧
      write disk d path content = ⟨store d l content, [l], false⟩ := by
  unfold write at h ⊢
  cases hdest : destination d path with
  | none => simp [hdest] at h
  | some l => cases hdisk : disk d l content <;> simp_all

theorem processItem_frame (item : FileItem) {l : Location Bytes}
    (h : l ∉ (processItem disk dir d item).touched) :
    (processItem disk dir d item).device.files l = d.files l := by
  cases item with
  | formField => rfl
  | file name content =>
    simp only [processItem, processUploadedFile] at h ⊢
    split at h
    · rfl
    · exact write_frame h

theorem stays_iff (item : FileItem) :
    (∀ l ∈ (processItem disk dir d item).touched, place dir <+: l) ↔ Stays disk dir d item := by
  cases item with
  | formField => simp [processItem, Stays]
  | file name content =>
    unfold processItem processUploadedFile Stays
    cases hname : decodedName d.malformed name with
    | none => simp [hname]
    | some fileName =>
      have hplace : ∀ l, destination d (child dir fileName) = some l →
          (place dir <+: l ↔ Enters (place dir) (place dir) (segments fileName)) := by
        intro l hl
        rw [destination_place hl, place_child]
        exact prefix_resolve_iff List.prefix_rfl _
      simp only [hname, write_touched, Option.some.injEq]
      constructor
      · rintro h _ rfl l hl hdisk
        exact (hplace l hl).mp (h l ⟨hl, hdisk⟩)
      · rintro h l ⟨hl, hdisk⟩
        exact (hplace l hl).mpr (h fileName rfl l hl hdisk)

theorem contentAt_store (l m : Location Bytes) (content : Bytes) :
    contentAt (store d l content) m = if l = m then some content else contentAt d m := by
  unfold contentAt store
  by_cases h : l = m
  · subst h
    simp
  · rw [if_neg h]
    simp only [Function.update_of_ne (Ne.symm h)]

theorem write_malformed (path : JString) (content : Bytes) :
    (write disk d path content).device.malformed = d.malformed := by
  unfold write
  split
  · rfl
  · split <;> rfl

theorem processItem_malformed (item : FileItem) :
    (processItem disk dir d item).device.malformed = d.malformed := by
  cases item with
  | formField => rfl
  | file name content =>
    simp only [processItem, processUploadedFile]
    split
    · rfl
    · exact write_malformed _ _

theorem processItem_content {item : FileItem} (h : (processItem disk dir d item).raised = false)
    (l : Location Bytes) (items : List FileItem) :
    lastAt dir d.malformed l (contentAt (processItem disk dir d item).device l) items =
      lastAt dir d.malformed l (contentAt d l) (item :: items) := by
  cases item with
  | formField => rfl
  | file name content =>
    simp only [processItem, processUploadedFile] at h ⊢
    cases hname : decodedName d.malformed name with
    | none => simp [hname] at h
    | some fileName =>
      simp only [hname] at h ⊢
      obtain ⟨m, hm, hwrite⟩ := write_done h
      have hleads : leadsTo dir d.malformed name = some m := by
        rw [leadsTo, hname, Option.map_some, destination_place hm, place_child]
      rw [hwrite, contentAt_store, lastAt, hleads]
      simp only [Option.some.injEq]

/-! All parts. -/

theorem processFileUpload_cons (item : FileItem) (items : List FileItem) :
    (processFileUpload disk dir d (item :: items)).raised = false ↔
      (processItem disk dir d item).raised = false ∧
        (processFileUpload disk dir (processItem disk dir d item).device items).raised = false := by
  rw [processFileUpload]
  by_cases h : (processItem disk dir d item).raised = true <;> simp [h]

theorem processFileUpload_device {item : FileItem}
    (h : (processItem disk dir d item).raised = false) (items : List FileItem) :
    (processFileUpload disk dir d (item :: items)).device =
      (processFileUpload disk dir (processItem disk dir d item).device items).device := by
  simp [processFileUpload, h]

theorem contained_cons (item : FileItem) (items : List FileItem) :
    Contained disk dir d (item :: items) ↔
      Stays disk dir d item ∧ ((processItem disk dir d item).raised = false →
        Contained disk dir (processItem disk dir d item).device items) := by
  constructor
  · intro h
    refine ⟨h [] item items rfl rfl, fun hitem before next after hitems hbefore => ?_⟩
    have hnext := h (item :: before) next after (by rw [hitems, List.cons_append])
      ((processFileUpload_cons item before).mpr ⟨hitem, hbefore⟩)
    rwa [processFileUpload_device hitem] at hnext
  · rintro ⟨hstays, hrest⟩ before next after hitems hbefore
    cases before with
    | nil =>
      obtain ⟨rfl, -⟩ := List.cons.inj hitems
      exact hstays
    | cons first before =>
      obtain ⟨rfl, hafter⟩ := List.cons.inj hitems
      obtain ⟨hitem, hbefore⟩ := (processFileUpload_cons item before).mp hbefore
      rw [processFileUpload_device hitem]
      exact hrest hitem before next after hafter hbefore

theorem contained_iff (items : List FileItem) :
    (∀ l ∈ (processFileUpload disk dir d items).touched, place dir <+: l) ↔
      Contained disk dir d items := by
  induction items generalizing d with
  | nil => simp [processFileUpload, Contained]
  | cons item items ih =>
    rw [contained_cons, ← stays_iff, ← ih, processFileUpload]
    by_cases h : (processItem disk dir d item).raised = true
    · simp [h]
    · simp only [h, Bool.false_eq_true, if_false, List.mem_append, or_imp, forall_and,
        true_implies]

/-- After a success each file is as the last part that leads to it, or as before. -/
theorem processFileUpload_content {items : List FileItem}
    (h : (processFileUpload disk dir d items).raised = false) (l : Location Bytes) :
    contentAt (processFileUpload disk dir d items).device l =
      lastAt dir d.malformed l (contentAt d l) items := by
  induction items generalizing d with
  | nil => rfl
  | cons item items ih =>
    obtain ⟨hitem, hitems⟩ := (processFileUpload_cons item items).mp h
    rw [processFileUpload_device hitem, ih hitems, processItem_malformed,
      processItem_content hitem]

/-- Files that are not touched are as before. -/
theorem processFileUpload_frame (items : List FileItem) {l : Location Bytes}
    (h : l ∉ (processFileUpload disk dir d items).touched) :
    (processFileUpload disk dir d items).device.files l = d.files l := by
  induction items generalizing d with
  | nil => rfl
  | cons item items ih =>
    rw [processFileUpload] at h ⊢
    by_cases hraised : (processItem disk dir d item).raised = true
    · simp only [hraised, if_true] at h ⊢
      exact processItem_frame item h
    · simp only [hraised, Bool.false_eq_true, if_false, List.mem_append, not_or] at h ⊢
      rw [ih h.2, processItem_frame item h.1]

theorem handle_upload {request : HttpRequest} {dir : JString} (h : IsUpload s d request dir) :
    handle s d request =
      ⟨if (processFileUpload s.disk dir d request.fileItems).raised then .badRequest else .ok,
        (processFileUpload s.disk dir d request.fileItems).device,
        (processFileUpload s.disk dir d request.fileItems).touched⟩ := by
  obtain ⟨hallow, hmultipart, ⟨param, id, referer, hparam, hid, href, hread⟩, hdir⟩ := h
  simp [handle, hallow, hmultipart, hparam, hid, href, hread, hdir]

/-- Any other request is not answered with success and leaves the device alone. -/
theorem handle_other {request : HttpRequest} (h : ∀ dir, ¬IsUpload s d request dir) :
    (handle s d request).status ≠ .ok ∧ (handle s d request).device = d ∧
      (handle s d request).touched = [] := by
  unfold handle
  split
  · simp
  · rename_i hallow
    split
    · simp
    · rename_i hmultipart
      split
      · rename_i param id referer hparam hid href
        split
        · simp
        · rename_i dir hread
          split
          · rename_i hdir
            exact absurd ⟨by simpa using hallow, by simpa using hmultipart,
              ⟨param, id, referer, hparam, hid, href, hread⟩, hdir⟩ (h dir)
          · simp
      · simp

/-! Ordinary names. -/

/-- A name that the decoder and the file system take as it is. -/
structure Ordinary (name : JString) : Prop where
  plain : Plain name
  zero : 0 ∉ name
  percent : UrlDecoder.percent ∉ name
  plus : UrlDecoder.plus ∉ name
  dots : name ≠ [] ∧ name ≠ ofString "." ∧ name ≠ ofString ".."

theorem Ordinary.segments_eq {name : JString} (h : Ordinary name) :
    segments name = [.name (getBytes name)] := by
  have hsplit : name.splitOn slash = [name] := List.splitOn_eq_singleton h.plain
  have hsegment : JavaFile.segment name = .name (getBytes name) := by
    rw [JavaFile.segment, if_neg h.dots.2.1, if_neg h.dots.2.2]
  rw [segments, hsplit, ← hsegment]
  simp [h.dots.1]

theorem Ordinary.decodedName_eq {name : JString} (h : Ordinary name)
    (malformed : List UInt8 → JString) : decodedName malformed name = some name := by
  rw [decodedName, checkFileName, if_neg h.zero]
  exact UrlDecoder.decode_eq_self malformed h.percent h.plus

theorem Ordinary.leadsTo_eq {name : JString} (h : Ordinary name)
    (malformed : List UInt8 → JString) :
    leadsTo dir malformed name = some (place dir ++ [getBytes name]) := by
  rw [leadsTo, h.decodedName_eq, Option.map_some, h.segments_eq]
  rfl

theorem lastAt_eq {malformed : List UInt8 → JString} {l : Location Bytes} {content : Bytes}
    {found : Option Bytes} {items : List FileItem}
    (hall : ∀ name bytes, .file name bytes ∈ items → leadsTo dir malformed name = some l →
      bytes = content)
    (hsome : found = some content ∨ ∃ name bytes, .file name bytes ∈ items ∧
      leadsTo dir malformed name = some l) :
    lastAt dir malformed l found items = some content := by
  induction items generalizing found with
  | nil => simpa [lastAt] using hsome
  | cons item items ih =>
    have hrest : ∀ name bytes, .file name bytes ∈ items →
        leadsTo dir malformed name = some l → bytes = content :=
      fun name bytes hmem => hall name bytes (List.mem_cons_of_mem item hmem)
    cases item with
    | formField =>
      apply ih hrest
      simpa using hsome
    | file name bytes =>
      apply ih hrest
      by_cases hleads : leadsTo dir malformed name = some l
      · left
        rw [if_pos hleads, hall name bytes (List.mem_cons_self ..) hleads]
      · rw [if_neg hleads]
        apply hsome.imp_right
        rintro ⟨n, b, hmem, hn⟩
        rcases List.mem_cons.mp hmem with heq | hmem
        · cases heq
          exact absurd hn hleads
        · exact ⟨n, b, hmem, hn⟩

variable (s d)

theorem uploads_in_place_iff (request : HttpRequest) :
    InPlace s d request ↔ ∀ dir, IsUpload s d request dir →
      Contained s.disk dir d request.fileItems ∧
        ((processFileUpload s.disk dir d request.fileItems).raised = false →
          KeepsNames dir d request.fileItems) := by
  apply forall_congr'
  intro dir
  apply imp_congr_right
  intro hupload
  rw [handle_upload hupload]
  apply and_congr
  · exact contained_iff request.fileItems
  · unfold KeepsNames
    cases hraised : (processFileUpload s.disk dir d request.fileItems).raised with
    | true => simp
    | false => simp only [processFileUpload_content hraised, Bool.false_eq_true, if_false,
        true_implies]

/-- Parts with ordinary names stay in the directory and keep their names, if no two differ under
one name. -/
theorem contained_of_ordinary (request : HttpRequest) (dir : JString)
    (hnames : ∀ name content, .file name content ∈ request.fileItems → Ordinary name)
    (hbytes : ∀ name content, .file name content ∈ request.fileItems →
      ∀ name' content', .file name' content' ∈ request.fileItems →
        getBytes name = getBytes name' → content = content') :
    Contained s.disk dir d request.fileItems ∧ KeepsNames dir d request.fileItems := by
  constructor
  · intro before item after hitems _
    cases item with
    | formField => trivial
    | file name content =>
      have hname : Ordinary name := hnames name content (by rw [hitems]; simp)
      intro fileName hdecoded l _ _
      rw [hname.decodedName_eq] at hdecoded
      rw [← Option.some.inj hdecoded, hname.segments_eq]
      exact ⟨0, Nat.zero_lt_succ _, rfl, rfl⟩
  · intro name content hmem _
    apply lastAt_eq
    · intro name' content' hmem' hleads
      rw [(hnames name' content' hmem').leadsTo_eq] at hleads
      apply hbytes name' content' hmem' name content hmem
      simpa using hleads
    · right
      exact ⟨name, content, hmem, (hnames name content hmem).leadsTo_eq _⟩

/-- A directory to upload to, and what is next to it. -/
def phone : Device where
  files l :=
    if l = [] ∨ l = names ["sdcard"] ∨ l = names ["sdcard", "up"] then some (.directory true true)
    else none
  refuses _ := false
  externalStorage := ofString "/sdcard"
  malformed _ := []

def setting : Setting where
  ALLOW_UPLOAD := true
  isURL _ := true
  disk _ _ _ := .done

def upload (name : String) : HttpRequest where
  isMultipartContent := true
  dir := some (ofString "/sdcard/up")
  id := some (ofString "1")
  referer := some (ofString "http://phone/")
  fileItems := [.file (ofString name) [42]]

theorem isUpload_upload (name : String) :
    IsUpload setting phone (upload name) (ofString "/sdcard/up") :=
  ⟨rfl, rfl, ⟨_, _, _, rfl, rfl, rfl, by decide +kernel⟩, by decide +kernel⟩

/-- One part climbs out of the directory by an escaped slash, the other loses its plus sign. -/
theorem uploads_go_astray :
    ¬InPlace setting phone (upload "..%2fx") ∧ ¬InPlace setting phone (upload "a+b") := by
  constructor
  · intro h
    have hinside := (h _ (isUpload_upload _)).1
    revert hinside
    decide +kernel
  · intro h
    have hstored := (h _ (isUpload_upload _)).2 (by decide +kernel) (ofString "a+b") [42]
      (List.mem_singleton_self _) (by unfold Plain; decide +kernel)
    revert hstored
    decide +kernel

end FileUpload
