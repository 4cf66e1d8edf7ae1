import AndroidDebug.MultipartItems
import AndroidDebug.FileUpload

/-! The items of an upload. One that outgrows the memory goes to a temporary file in the upload
directory as it arrives, and from there to its place; when the request fails, all temporary files
are deleted. -/
namespace FileUpload

open JavaText FilePaths JavaFile
open MultipartStream (Stream Item Fault)
open FileUploadBase (Runtime Failure FileItemStream FileItemIterator)

def THRESHOLD_UPLOAD : ℕ := 1024 * 1024

/-- `UUID.randomUUID().toString()`, its dashes replaced. -/
structure UID where
  text : String
  plain : ∀ c ∈ text.toList, c = '_' ∨ c.isAlphanum = true

/-- What the file system answers besides: `spool` about the temporary files, and `renames` whether
it moves a file from one place to another. -/
structure Storage extends Setting where
  uid : UID
  spool : Disk
  renames : Device → Location Bytes → Location Bytes → Bool

/-- `current` is what the counter of the process gives. -/
def getUniqueId (current : ℕ) : List Char :=
  let id := Nat.toDigits 10 current
  if current < 100000000 then (List.replicate 8 '0' ++ id).drop id.length else id

def tempFileName (uid : UID) (current : ℕ) : String :=
  "upload_" ++ uid.text ++ "_" ++ String.ofList (getUniqueId current) ++ ".tmp"

def getTempFile (uid : UID) (dir : JString) (current : ℕ) : JString :=
  child dir (ofString (tempFileName uid current))

/-- `memory` is what has been written, until that is too much; then it is in the file. -/
structure DiskFileItem where
  stream : FileItemStream
  tempFile : JString
  memory : Option Bytes

variable (st : Storage)

def createItem (dir : JString) (current : ℕ) (stream : FileItemStream) : DiskFileItem where
  stream
  tempFile := getTempFile st.uid dir current
  memory := some []

def DiskFileItem.output (d : Device) (f : DiskFileItem) (bytes : Bytes) : Progress × DiskFileItem :=
  match f.memory with
  | some kept =>
    if kept.length + bytes.length ≤ THRESHOLD_UPLOAD then
      (⟨d, [], false⟩, { f with memory := some (kept ++ bytes) })
    else (write st.spool d f.tempFile (kept ++ bytes), { f with memory := none })
  | none => (write st.spool d f.tempFile ((contentAt d (place f.tempFile)).getD [] ++ bytes), f)

inductive Trouble where
  | request (e : Failure)
  | disk
  deriving DecidableEq

abbrev Copied := Except Trouble Unit × Device × DiskFileItem × Stream × Item

def copyLoop : ℕ → Device → DiskFileItem → Stream → Item → Copied
  | 0, d, f, s, item => (.error (.request (.multipart .stalled)), d, f, s, item)
  | fuel + 1, d, f, s, item =>
    match MultipartStream.read s item MultipartStream.DEFAULT_BUFFER_SIZE with
    | (.error e, s, item) => (.error (.request (.multipart e)), d, f, s, item)
    | (.ok none, s, item) => (.ok (), d, f, s, item)
    | (.ok (some bytes), s, item) =>
      let (written, f) := f.output st d bytes
      if written.raised then (.error .disk, written.device, f, s, item)
      else copyLoop fuel written.device f s item

def copy (d : Device) (f : DiskFileItem) (s : Stream) (item : Item) : Copied :=
  match copyLoop st s.turns d f s item with
  | (.error e, d, f, s, item) =>
    if e = .request (.multipart .stalled) then (.error e, d, f, s, item)
    else (.error e, d, f, (MultipartStream.close s item).2)
  | (.ok (), d, f, s, item) =>
    match MultipartStream.close s item with
    | (.error e, s, item) => (.error (.request (.multipart e)), d, f, s, item)
    | (.ok (), s, item) => (.ok (), d, f, s, item)

/-- `items` are all that were created, the last one maybe in part. -/
structure Parsed where
  device : Device
  items : List DiskFileItem
  failure : Option Trouble

variable (rt : Runtime) (dir : JString)

def parseItems : ℕ → ℕ → Device → FileItemIterator → Parsed
  | 0, _, d, _ => ⟨d, [], some (.request (.multipart .stalled))⟩
  | fuel + 1, current, d, it =>
    match FileUploadBase.hasNext rt it with
    | (.error e, _) => ⟨d, [], some (.request e)⟩
    | (.ok false, _) => ⟨d, [], none⟩
    | (.ok true, it) =>
      match it.currentItem with
      | none => ⟨d, [], some (.request .nullPointer)⟩
      | some (item, inner) =>
        match copy st d (createItem st dir current item) it.multi inner with
        | (.error e, d, f, _) => ⟨d, [f], some e⟩
        | (.ok (), d, f, multi, inner) =>
          let rest := parseItems fuel (current + 1) d
            { it with multi, itemValid := false, currentItem := some (item, inner) }
          ⟨rest.device, f :: rest.items, rest.failure⟩

def DiskFileItem.delete (d : Device) (f : DiskFileItem) : Device :=
  match destination d f.tempFile with
  | some l => { d with files := Function.update d.files l none }
  | none => d

/-- The parser with the factory; whatever fails, the items are deleted. -/
def parseRequest (current : ℕ) (d : Device) (contentType : Option JString)
    (input : ByteSource.Source UInt8) : Parsed :=
  match FileUploadBase.getItemIterator rt MultipartStream.DEFAULT_BUFSIZE contentType input with
  | (.error e, _) => ⟨d, [], some (.request e)⟩
  | (.ok it, _) =>
    let done := parseItems st rt dir it.multi.turns current d it
    if done.failure.isSome then
      { done with device := done.items.foldl DiskFileItem.delete done.device }
    else done

/-- `File.renameTo` for the file in a place. -/
def renameTo (d : Device) (l : Location Bytes) (path : JString) : Option Progress :=
  match destination d path with
  | none => none
  | some m =>
    if m = l then some ⟨d, [], false⟩
    else if st.renames d l m then
      some ⟨{ d with files := Function.update (Function.update d.files m (d.files l)) l none },
        [m, l], false⟩
    else none

/-- `DiskFileItem.write`: a temporary file is moved, or copied if it cannot be. -/
def DiskFileItem.write (d : Device) (f : DiskFileItem) (path : JString) : Progress :=
  match f.memory with
  | some content => FileUpload.write st.disk d path content
  | none =>
    match contentAt d (place f.tempFile) with
    | none => ⟨d, [], true⟩
    | some content =>
      (renameTo st d (place f.tempFile) path).getD (FileUpload.write st.disk d path content)

def DiskFileItem.getName (f : DiskFileItem) : JString := f.stream.name.getD []

def storeItem (d : Device) (f : DiskFileItem) : Progress :=
  if f.stream.formField then ⟨d, [], false⟩
  else
    match decodedName d.malformed f.getName with
    | none => ⟨d, [], true⟩
    | some fileName => f.write st d (child dir fileName)

def storeItems (d : Device) : List DiskFileItem → Progress
  | [] => ⟨d, [], false⟩
  | f :: items =>
    let first := storeItem st dir d f
    if first.raised then first
    else
      let rest := storeItems first.device items
      ⟨rest.device, first.touched ++ rest.touched, rest.raised⟩

/-! The names of temporary files. -/

theorem ofDigitChars_getUniqueId (current : ℕ) :
    Nat.ofDigitChars 10 (getUniqueId current) 0 = current := by
  rw [getUniqueId]
  split_ifs with hsmall
  · have hlength : (Nat.toDigits 10 current).length ≤ 8 :=
      (Nat.length_toDigits_le_iff (by decide) (by decide)).mpr hsmall
    rw [List.drop_append_of_le_length (by simpa using hlength), List.drop_replicate,
      Nat.ofDigitChars_append, Nat.ofDigitChars_replicate_zero, Nat.mul_zero,
      Nat.ofDigitChars_ten_toDigits]
  · exact Nat.ofDigitChars_ten_toDigits

theorem tempFileName_injective {uid : UID} {i j : ℕ}
    (h : tempFileName uid i = tempFileName uid j) : i = j := by
  have hchars := congrArg String.toList h
  simp only [tempFileName, String.toList_append, String.toList_ofList, List.append_assoc,
    List.append_cancel_left_eq, List.append_cancel_right_eq] at hchars
  rw [← ofDigitChars_getUniqueId i, hchars, ofDigitChars_getUniqueId]

/-- Letters, digits, underscores and a dot. -/
theorem mem_tempFileName {uid : UID} {current : ℕ} {c : Char}
    (h : c ∈ (tempFileName uid current).toList) : c = '_' ∨ c = '.' ∨ c.isAlphanum = true := by
  have hid : ∀ c ∈ getUniqueId current, c.isAlphanum = true := by
    intro c hc
    have hdigit : c ∈ Nat.toDigits 10 current ∨ c = '0' := by
      rw [getUniqueId] at hc
      split_ifs at hc
      · rcases List.mem_append.mp (List.mem_of_mem_drop hc) with hzero | hc
        · exact .inr (List.eq_of_mem_replicate hzero)
        · exact .inl hc
      · exact .inl hc
    rcases hdigit with hc | rfl
    · simp [Char.isAlphanum, Nat.isDigit_of_mem_toDigits (by decide) (by decide) hc]
    · decide
  have hliteral : ∀ text : String,
      (text.toList.all fun c => c = '_' ∨ c = '.' ∨ c.isAlphanum = true) = true →
        c ∈ text.toList → c = '_' ∨ c = '.' ∨ c.isAlphanum = true :=
    fun _ hall hc => of_decide_eq_true (List.all_eq_true.mp hall c hc)
  simp only [tempFileName, String.toList_append, String.toList_ofList, List.mem_append] at h
  rcases h with (((h | h) | h) | h) | h
  · exact hliteral _ (by decide) h
  · rcases uid.plain c h with h | h
    · exact .inl h
    · exact .inr (.inr h)
  · exact hliteral _ (by decide) h
  · exact .inr (.inr (hid c h))
  · exact hliteral _ (by decide) h

theorem alphanum_ascii {c : Char} (h : c.isAlphanum = true) : c.toNat < 0x80 := by
  have hbound : ∀ top : Char, c ≤ top → top.toNat < 0x80 → c.toNat < 0x80 :=
    fun top hle htop => (UInt32.le_iff_toNat_le.mp hle).trans_lt htop
  rcases Bool.or_eq_true_iff.mp h with halpha | hdigit
  · rcases Bool.or_eq_true_iff.mp halpha with hupper | hlower
    · have hrange : c.val ≥ 'A'.val ∧ c.val ≤ 'Z'.val := of_decide_eq_true hupper
      exact hbound 'Z' hrange.2 (by decide)
    · exact hbound 'z' (of_decide_eq_true (Bool.and_eq_true_iff.mp hlower).2) (by decide)
  · exact hbound '9' (of_decide_eq_true (Bool.and_eq_true_iff.mp hdigit).2) (by decide)

theorem not_mem_ofString {s : String} {u : UInt16}
    (h : ∀ c ∈ s.toList, c.toNat < 0x80 ∧ c.toNat ≠ u.toNat) : u ∉ ofString s := by
  intro hmem
  obtain ⟨n, hn, hu'⟩ := List.mem_flatMap.mp hmem
  obtain ⟨c, hc, rfl⟩ := List.mem_map.mp hn
  obtain ⟨hsmall, hne⟩ := h c hc
  rw [unitsOfScalar, if_pos (by omega), List.mem_singleton] at hu'
  rw [hu', UInt16.toNat_ofNat', Nat.mod_eq_of_lt (by omega)] at hne
  exact hne rfl

theorem ordinary_tempFileName (uid : UID) (current : ℕ) :
    Ordinary (ofString (tempFileName uid current)) := by
  have hnot : ∀ u : UInt16, u.toNat ≠ 0x5F → u.toNat ≠ 0x2E →
      (Char.ofNat u.toNat).isAlphanum = false → u ∉ ofString (tempFileName uid current) := by
    intro u hunderscore hdot hother
    apply not_mem_ofString
    intro c hc
    rcases mem_tempFileName hc with rfl | rfl | halpha
    · exact ⟨by decide, hunderscore.symm⟩
    · exact ⟨by decide, hdot.symm⟩
    · refine ⟨alphanum_ascii halpha, fun heq => ?_⟩
      · rw [← heq, Char.ofNat_toNat, halpha] at hother
        cases hother
  have hhead : (ofString (tempFileName uid current)).head? = some 0x75 := by
    rw [tempFileName]
    simp only [String.append_assoc, ofString_append, List.head?_append]
    rfl
  refine ⟨hnot slash (by decide) (by decide) (by decide),
    hnot 0 (by decide) (by decide) (by decide),
    hnot UrlDecoder.percent (by decide) (by decide) (by decide),
    hnot UrlDecoder.plus (by decide) (by decide) (by decide), ?_, ?_, ?_⟩ <;>
    (intro heq; rw [heq] at hhead; revert hhead; decide)

def tempPlace (uid : UID) (dir : JString) (current : ℕ) : Location Bytes :=
  place dir ++ [getBytes (ofString (tempFileName uid current))]

theorem place_ordinary {name : JString} (h : Ordinary name) :
    place (child dir name) = place dir ++ [getBytes name] := by
  rw [place_child, h.segments_eq]
  rfl

theorem place_getTempFile (uid : UID) (current : ℕ) :
    place (getTempFile uid dir current) = tempPlace uid dir current :=
  place_ordinary dir (ordinary_tempFileName uid current)

theorem tempPlace_injective {uid : UID} {i j : ℕ}
    (h : tempPlace uid dir i = tempPlace uid dir j) : i = j := by
  have hbytes := List.singleton_injective (List.append_cancel_left h)
  have hname := congrArg (newString fun _ => []) hbytes
  rw [newString_getBytes _ (wellFormed_ofString _),
    newString_getBytes _ (wellFormed_ofString _)] at hname
  have htext := congrArg toText hname
  rw [toText_ofString, toText_ofString] at htext
  exact tempFileName_injective htext

/-! What an item holds. -/

variable {st dir} {d d' d'' : Device} {f f' f'' : DiskFileItem}

/-- The bytes of an item, wherever they are. -/
def DiskFileItem.content (d : Device) (f : DiskFileItem) : Option Bytes :=
  match f.memory with
  | some kept => some kept
  | none => contentAt d (place f.tempFile)

structure DiskFileItem.Holds (d : Device) (f : DiskFileItem) (bytes : Bytes) : Prop where
  content_eq : f.content d = some bytes
  memory_iff : f.memory = none ↔ THRESHOLD_UPLOAD < bytes.length

/-- Nothing but the temporary file of an item is written. -/
structure Spooled (d d' : Device) (f f' : DiskFileItem) : Prop where
  stream_eq : f'.stream = f.stream
  tempFile_eq : f'.tempFile = f.tempFile
  stays : f.memory = none → f'.memory = none
  directories : SameDirectories d d'
  frame : ∀ l, (f'.memory = none → destination d f.tempFile ≠ some l) → d'.files l = d.files l

theorem Spooled.refl (d : Device) (f : DiskFileItem) : Spooled d d f f :=
  ⟨rfl, rfl, id, .refl d, fun _ _ => rfl⟩

theorem Spooled.trans (h : Spooled d d' f f') (h' : Spooled d' d'' f' f'') :
    Spooled d d'' f f'' where
  stream_eq := h'.stream_eq.trans h.stream_eq
  tempFile_eq := h'.tempFile_eq.trans h.tempFile_eq
  stays hf := h'.stays (h.stays hf)
  directories := h.directories.trans h'.directories
  frame l hl := by
    have hlast : f''.memory = none → destination d' f'.tempFile ≠ some l := by
      rwa [h.directories.destination_eq, h.tempFile_eq]
    rw [h'.frame l hlast, h.frame l fun hf => hl (h'.stays hf)]

/-- The disk takes every byte of a temporary file. -/
def Spools (st : Storage) (d : Device) (tempFile : JString) : Prop :=
  (∀ d l content, st.spool d l content = .done) ∧ (destination d tempFile).isSome

theorem Spooled.spools (h : Spooled d d' f f') :
    Spools st d' f'.tempFile ↔ Spools st d f.tempFile := by
  rw [Spools, Spools, h.directories.destination_eq, h.tempFile_eq]

theorem sameDirectories_update {l : Location Bytes} {node : Option (Node Bytes)}
    (hl : ∀ searchable readable, d.files l ≠ some (.directory searchable readable))
    (hnode : ∀ searchable readable, node ≠ some (.directory searchable readable)) :
    SameDirectories d { d with files := Function.update d.files l node } where
  directory_iff m searchable readable := by
    by_cases hm : m = l
    · subst hm
      simp [hnode, hl]
    · simp [hm]
  refuses_eq := rfl
  malformed_eq := rfl

theorem sameDirectories_store {l : Location Bytes} (content : Bytes)
    (hl : ∀ searchable readable, d.files l ≠ some (.directory searchable readable)) :
    SameDirectories d (store d l content) :=
  sameDirectories_update hl fun _ _ h => by cases h

theorem destination_not_directory {path : JString} {l : Location Bytes}
    (h : destination d path = some l) (searchable readable : Bool) :
    d.files l ≠ some (.directory searchable readable) := by
  obtain ⟨-, n, k, -, -, -, hnot, -⟩ := destination_eq_some_iff.mp h
  exact hnot searchable readable

theorem sameDirectories_write (disk : Disk) (d : Device) (path : JString) (content : Bytes) :
    SameDirectories d (write disk d path content).device := by
  rw [write]
  cases hdest : destination d path with
  | none => exact .refl d
  | some l =>
    dsimp only
    cases disk d l content with
    | refused => exact .refl d
    | stopped left => exact sameDirectories_store left (destination_not_directory hdest)
    | done => exact sameDirectories_store content (destination_not_directory hdest)

theorem spooled_write (st : Storage) (d : Device) (f : DiskFileItem) (content : Bytes) :
    Spooled d (write st.spool d f.tempFile content).device f { f with memory := none } where
  stream_eq := rfl
  tempFile_eq := rfl
  stays _ := rfl
  directories := sameDirectories_write _ _ _ _
  frame _ hl := write_frame fun htouched => hl rfl (write_touched.mp htouched).1

theorem write_takes {disk : Disk} {path : JString} (content : Bytes)
    (hdisk : ∀ d l content, disk d l content = .done) (hdest : (destination d path).isSome) :
    (write disk d path content).raised = false := by
  obtain ⟨l, hl⟩ := Option.isSome_iff_exists.mp hdest
  simp only [write, hl, hdisk]

theorem spool_cases (f : DiskFileItem) {content : Bytes} (h : THRESHOLD_UPLOAD < content.length) :
    ((write st.spool d f.tempFile content).raised = false →
        { f with memory := none }.Holds (write st.spool d f.tempFile content).device content) ∧
      ((write st.spool d f.tempFile content).raised = true → ¬Spools st d f.tempFile) := by
  constructor
  · intro hdone
    obtain ⟨l, hl, hwrite⟩ := write_done hdone
    refine ⟨?_, iff_of_true rfl h⟩
    rw [DiskFileItem.content, hwrite, contentAt_store, if_pos (destination_place hl)]
  · rintro hraised ⟨hdisk, hdest⟩
    rw [write_takes content hdisk hdest] at hraised
    cases hraised

theorem output_cases (st : Storage) (f : DiskFileItem) {out : Bytes} (bytes : Bytes)
    (h : f.Holds d out) :
    Spooled d (f.output st d bytes).1.device f (f.output st d bytes).2 ∧
      ((f.output st d bytes).1.raised = false →
        (f.output st d bytes).2.Holds (f.output st d bytes).1.device (out ++ bytes)) ∧
      ((f.output st d bytes).1.raised = true → ¬Spools st d f.tempFile) := by
  have hcontent := h.content_eq
  rw [DiskFileItem.content] at hcontent
  cases hmemory : f.memory with
  | none =>
    rw [hmemory] at hcontent
    have hlarge : THRESHOLD_UPLOAD < (out ++ bytes).length := by
      rw [List.length_append]
      exact Nat.lt_add_right _ (h.memory_iff.mp hmemory)
    have hsame : { f with memory := none } = f := by rw [← hmemory]
    have hspool := @spool_cases st d f _ hlarge
    have hspooled := spooled_write st d f (out ++ bytes)
    rw [hsame] at hspool hspooled
    simp only [DiskFileItem.output, hmemory, hcontent, Option.getD_some]
    exact ⟨hspooled, hspool⟩
  | some kept =>
    rw [hmemory] at hcontent
    obtain rfl := Option.some.inj hcontent
    by_cases hsmall : kept.length + bytes.length ≤ THRESHOLD_UPLOAD
    · simp only [DiskFileItem.output, hmemory, if_pos hsmall]
      refine ⟨⟨rfl, rfl, fun hnone => ?_, .refl d, fun _ _ => rfl⟩, fun _ => ⟨rfl, ?_⟩, ?_⟩
      · rw [hmemory] at hnone
        cases hnone
      · rw [List.length_append]
        exact iff_of_false (Option.some_ne_none _) (Nat.not_lt.mpr hsmall)
      · rintro ⟨⟩
    · have hlarge : THRESHOLD_UPLOAD < (kept ++ bytes).length := by
        rw [List.length_append]
        exact Nat.not_le.mp hsmall
      simp only [DiskFileItem.output, hmemory, if_neg hsmall]
      exact ⟨spooled_write st d f (kept ++ bytes), spool_cases f hlarge⟩

/-! The parser with its factory goes the way of the parser that keeps all in memory. -/

/-- The copy ends as the one into the memory does, unless the disk fails. -/
inductive Likewise (st : Storage) (d : Device) (f : DiskFileItem) :
    Except Fault Bytes × Stream × Item → Copied → Prop
  | done {out : Bytes} {d' : Device} {f' : DiskFileItem} {s : Stream} {item : Item}
      (spooled : Spooled d d' f f') (holds : f'.Holds d' out) :
      Likewise st d f (.ok out, s, item) (.ok (), d', f', s, item)
  | failed {e : Fault} {d' : Device} {f' : DiskFileItem} {s : Stream} {item : Item}
      (spooled : Spooled d d' f f') :
      Likewise st d f (.error e, s, item) (.error (.request (.multipart e)), d', f', s, item)
  | disk {plain : Except Fault Bytes × Stream × Item} {d' : Device} {f' : DiskFileItem}
      {s : Stream} {item : Item} (spooled : Spooled d d' f f') (fails : ¬Spools st d f.tempFile) :
      Likewise st d f plain (.error .disk, d', f', s, item)

theorem Likewise.of_spooled {plain : Except Fault Bytes × Stream × Item} {r : Copied}
    (h : Spooled d d' f f') (hr : Likewise st d' f' plain r) : Likewise st d f plain r := by
  cases hr with
  | done spooled holds => exact .done (h.trans spooled) holds
  | failed spooled => exact .failed (h.trans spooled)
  | disk spooled fails => exact .disk (h.trans spooled) (h.spools.not.mp fails)

/-- By induction on the turns. -/
theorem copyLoop_likewise (st : Storage) (fuel : ℕ) {out : Bytes} (s : Stream) (item : Item)
    (h : f.Holds d out) :
    Likewise st d f (MultipartStream.copyLoop fuel out s item) (copyLoop st fuel d f s item) := by
  induction fuel generalizing d f out s item with
  | zero => exact .failed (.refl d f)
  | succ fuel ih =>
    rw [MultipartStream.copyLoop, copyLoop]
    generalize MultipartStream.read s item MultipartStream.DEFAULT_BUFFER_SIZE = read
    obtain ⟨e | (_ | bytes), s', item'⟩ := read
    · exact .failed (.refl d f)
    · exact .done (.refl d f) h
    · obtain ⟨hspooled, hholds, hfails⟩ := output_cases st f bytes h
      dsimp only
      split_ifs with hraised
      · exact .disk hspooled (hfails hraised)
      · exact (ih s' item' (hholds (Bool.not_eq_true _ ▸ hraised))).of_spooled hspooled

theorem copy_likewise (st : Storage) (s : Stream) (item : Item) (h : f.Holds d []) :
    Likewise st d f (MultipartStream.copy s item) (copy st d f s item) := by
  have hloop := copyLoop_likewise st s.turns s item h
  rw [MultipartStream.copy, copy]
  generalize MultipartStream.copyLoop s.turns [] s item = plain at hloop
  generalize copyLoop st s.turns d f s item = r at hloop
  cases hloop with
  | disk spooled fails => exact .disk spooled fails
  | @failed e d' f' s' item' spooled =>
    dsimp only
    by_cases he : e = .stalled
    · rw [if_pos he, if_pos (by rw [he])]
      exact .failed spooled
    · rw [if_neg he, if_neg (by simpa using he)]
      exact .failed spooled
  | @done out d' f' s' item' spooled holds =>
    dsimp only
    generalize MultipartStream.close s' item' = closed
    obtain ⟨e | _, s'', item''⟩ := closed
    · exact .failed spooled
    · exact .done spooled holds

/-- The item is this one, with all its bytes. -/
structure DiskFileItem.Has (d : Device) (f : DiskFileItem) (file : FileUploadBase.FileItem) :
    Prop where
  stream_eq : f.stream = file.stream
  holds : f.Holds d file.content

/-- How parsing ends beside the parser that keeps all in memory. -/
inductive Outcome (st : Storage) (dir : JString) (current : ℕ) (d : Device) :
    Except Failure (List FileUploadBase.FileItem) → Parsed → Prop
  | parsed {files : List FileUploadBase.FileItem} {r : Parsed} (failure_eq : r.failure = none)
      (items : List.Forall₂ (DiskFileItem.Has r.device) r.items files) :
      Outcome st dir current d (.ok files) r
  | failed {e : Failure} {r : Parsed} (failure_eq : r.failure = some (.request e)) :
      Outcome st dir current d (.error e) r
  | disk {plain : Except Failure (List FileUploadBase.FileItem)} {r : Parsed}
      (failure_eq : r.failure = some .disk)
      (fails : ∃ i < r.items.length, ¬Spools st d (getTempFile st.uid dir (current + i)))
      (length_le : ∀ files, plain = .ok files → r.items.length ≤ files.length) :
      Outcome st dir current d plain r

/-- Parsing from an item on: nothing but the temporary files of items that are too large is
written, and these have their numbers in order. -/
structure Parses (st : Storage) (dir : JString) (current : ℕ) (d : Device)
    (plain : Except Failure (List FileUploadBase.FileItem)) (r : Parsed) : Prop where
  directories : SameDirectories d r.device
  tempFile_eq : ∀ i f, r.items[i]? = some f →
    f.tempFile = getTempFile st.uid dir (current + i)
  frame : ∀ l, (∀ f ∈ r.items, f.memory = none → destination d f.tempFile ≠ some l) →
    r.device.files l = d.files l
  outcome : Outcome st dir current d plain r

variable {plain : Except Failure (List FileUploadBase.FileItem)} {current : ℕ} {r : Parsed}

theorem parses_nil {failure : Option Trouble}
    (h : Outcome st dir current d plain ⟨d, [], failure⟩) :
    Parses st dir current d plain ⟨d, [], failure⟩ :=
  ⟨.refl d, fun _ _ h => by simp at h, fun _ _ => rfl, h⟩

theorem parses_last {stream : FileItemStream} {failure : Trouble}
    (h : Spooled d d' (createItem st dir current stream) f)
    (houtcome : Outcome st dir current d plain ⟨d', [f], some failure⟩) :
    Parses st dir current d plain ⟨d', [f], some failure⟩ where
  directories := h.directories
  tempFile_eq i g hg := by
    obtain ⟨rfl, rfl⟩ : i = 0 ∧ g = f := by
      cases i <;> simp at hg
      exact ⟨rfl, hg.symm⟩
    exact h.tempFile_eq
  frame l hl := h.frame l fun hmemory => by
    rw [← h.tempFile_eq]
    exact hl f (List.mem_singleton_self f) hmemory
  outcome := houtcome

theorem contentAt_congr {l : Location Bytes} (h : d'.files l = d.files l) :
    contentAt d' l = contentAt d l := by
  rw [contentAt, contentAt, h]

theorem content_congr (h : d'.files (place f.tempFile) = d.files (place f.tempFile)) :
    f.content d' = f.content d := by
  rw [DiskFileItem.content, DiskFileItem.content, contentAt_congr h]

theorem Parses.place_item (h : Parses st dir current d plain r) {i : ℕ}
    (hi : r.items[i]? = some f) : place f.tempFile = tempPlace st.uid dir (current + i) := by
  rw [h.tempFile_eq i f hi, place_getTempFile]

/-- The temporary file of an item is not that of a later one. -/
theorem Parses.place_ne (h : Parses st dir (current + 1) d plain r)
    (hf : f.tempFile = getTempFile st.uid dir current) {g : DiskFileItem}
    (hg : g ∈ r.items) : destination d g.tempFile ≠ some (place f.tempFile) := by
  intro hdest
  obtain ⟨i, hi⟩ := List.mem_iff_getElem?.mp hg
  have hplace := destination_place hdest
  rw [h.place_item hi, hf, place_getTempFile] at hplace
  have := tempPlace_injective dir hplace
  omega

theorem map_cons_ok {ε α : Type*} {x : Except ε (List α)} {a : α} {files : List α}
    (h : x.map (a :: ·) = .ok files) : ∃ rest, x = .ok rest ∧ files = a :: rest := by
  cases x with
  | error e => cases h
  | ok rest => exact ⟨rest, rfl, (Except.ok.inj h).symm⟩

theorem Parses.cons {stream : FileItemStream} {content : Bytes}
    (hfirst : Spooled d d' (createItem st dir current stream) f)
    (hholds : f.Holds d' content) (h : Parses st dir (current + 1) d' plain r) :
    Parses st dir current d (plain.map (⟨stream, content⟩ :: ·))
      ⟨r.device, f :: r.items, r.failure⟩ where
  directories := hfirst.directories.trans h.directories
  tempFile_eq i g hg := by
    cases i with
    | zero =>
      obtain rfl := Option.some.inj hg
      exact hfirst.tempFile_eq
    | succ i =>
      rw [h.tempFile_eq i g hg, Nat.add_right_comm]
      rfl
  frame l hl := by
    obtain ⟨hlFirst, hlRest⟩ := List.forall_mem_cons.mp hl
    refine (h.frame l fun g hg hmemory => ?_).trans (hfirst.frame l fun hmemory => ?_)
    · rw [hfirst.directories.destination_eq]
      exact hlRest g hg hmemory
    · rw [← hfirst.tempFile_eq]
      exact hlFirst hmemory
  outcome := by
    cases h.outcome with
    | parsed failure_eq items =>
      refine .parsed failure_eq (.cons ⟨hfirst.stream_eq, ?_, hholds.memory_iff⟩ items)
      rw [content_congr (h.frame _ fun g hg _ => h.place_ne hfirst.tempFile_eq hg)]
      exact hholds.content_eq
    | failed failure_eq => exact .failed failure_eq
    | disk failure_eq fails length_le =>
      obtain ⟨i, hi, hspools⟩ := fails
      refine .disk failure_eq ⟨i + 1, Nat.succ_lt_succ hi, ?_⟩ fun files hfiles => ?_
      · rwa [Spools, ← hfirst.directories.destination_eq, ← Nat.add_assoc, Nat.add_right_comm]
      · obtain ⟨rest, hrest, rfl⟩ := map_cons_ok hfiles
        exact Nat.succ_le_succ (length_le rest hrest)

/-- By induction on the turns. -/
theorem parseItems_parses (st : Storage) (rt : Runtime) (dir : JString) (fuel current : ℕ)
    (d : Device) (it : FileItemIterator) :
    Parses st dir current d (FileUploadBase.parseItems rt fuel it).1
      (parseItems st rt dir fuel current d it) := by
  induction fuel generalizing current d it with
  | zero => exact parses_nil (.failed rfl)
  | succ fuel ih =>
    rw [FileUploadBase.parseItems, parseItems]
    generalize FileUploadBase.hasNext rt it = next
    obtain ⟨e | (_ | _), it⟩ := next
    · exact parses_nil (.failed rfl)
    · exact parses_nil (.parsed rfl .nil)
    dsimp only
    cases it.currentItem with
    | none => exact parses_nil (.failed rfl)
    | some current_item =>
      obtain ⟨item, inner⟩ := current_item
      have hempty : (createItem st dir current item).Holds d [] :=
        ⟨rfl, iff_of_false (Option.some_ne_none _) (Nat.not_lt_zero _)⟩
      have hcopy := copy_likewise st it.multi inner hempty
      dsimp only
      generalize MultipartStream.copy it.multi inner = plain at hcopy
      generalize copy st d (createItem st dir current item) it.multi inner = copied at hcopy
      cases hcopy with
      | failed spooled => exact parses_last spooled (.failed rfl)
      | disk spooled fails =>
        refine parses_last spooled (.disk rfl ⟨0, Nat.one_pos, fails⟩ fun files h => ?_)
        obtain ⟨e | content, multi', inner'⟩ := plain
        · cases h
        · obtain ⟨rest, -, rfl⟩ := map_cons_ok h
          exact Nat.succ_le_succ (Nat.zero_le _)
      | done spooled holds => exact (ih (current + 1) _ _).cons spooled holds

/-! Whatever fails, no temporary file is left. -/

theorem sameDirectories_delete (d : Device) (f : DiskFileItem) :
    SameDirectories d (f.delete d) := by
  rw [DiskFileItem.delete]
  split
  · rename_i hdest
    exact sameDirectories_update (destination_not_directory hdest) fun _ _ h => by cases h
  · exact .refl d

theorem foldl_delete_files (items : List DiskFileItem) (d : Device) (l : Location Bytes) :
    ((∃ f ∈ items, destination d f.tempFile = some l) →
        (items.foldl DiskFileItem.delete d).files l = none) ∧
      ((∀ f ∈ items, destination d f.tempFile ≠ some l) →
        (items.foldl DiskFileItem.delete d).files l = d.files l) := by
  induction items generalizing d with
  | nil => simp
  | cons f items ih =>
    obtain ⟨hgone, hkept⟩ := ih (f.delete d)
    simp only [(sameDirectories_delete d f).destination_eq] at hgone hkept
    have hone : (f.delete d).files l =
        if destination d f.tempFile = some l then none else d.files l := by
      rw [DiskFileItem.delete]
      split
      · rename_i m hdest
        simp only [hdest, Option.some.injEq]
        rw [Function.update_apply]
        simp only [eq_comm]
      · rename_i hdest
        simp [hdest]
    rw [List.foldl_cons]
    constructor
    · rintro ⟨g, hg, hdest⟩
      by_cases hrest : ∃ g ∈ items, destination d g.tempFile = some l
      · exact hgone hrest
      · simp only [not_exists, not_and] at hrest
        rcases List.mem_cons.mp hg with rfl | hg
        · rw [hkept hrest, hone, if_pos hdest]
        · exact absurd hdest (hrest g hg)
    · intro hall
      obtain ⟨hfirst, hrest⟩ := List.forall_mem_cons.mp hall
      rw [hkept hrest, hone, if_neg hfirst]

variable {contentType : Option JString} {input : ByteSource.Source UInt8}

theorem Parses.deleted {done : Parsed} (h : Parses st dir current d plain done)
    (hfresh : ∀ i, current ≤ i → d.files (tempPlace st.uid dir i) = none) :
    (done.items.foldl DiskFileItem.delete done.device).files = d.files := by
  funext l
  obtain ⟨hgone, hkept⟩ := foldl_delete_files done.items done.device l
  simp only [h.directories.destination_eq] at hgone hkept
  by_cases hl : ∃ f ∈ done.items, destination d f.tempFile = some l
  · rw [hgone hl]
    obtain ⟨f, hf, hdest⟩ := hl
    obtain ⟨i, hi⟩ := List.mem_iff_getElem?.mp hf
    rw [destination_place hdest, h.place_item hi]
    exact (hfresh (current + i) (Nat.le_add_right _ _)).symm
  · simp only [not_exists, not_and] at hl
    rw [hkept hl]
    exact h.frame l fun f hf _ => hl f hf

/-- Either the items are there, or the device is as it was. -/
theorem parseRequest_cases (rt : Runtime) (contentType : Option JString)
    (input : ByteSource.Source UInt8)
    (hfresh : ∀ i, current ≤ i → d.files (tempPlace st.uid dir i) = none)
    (hr : parseRequest st rt dir current d contentType input = r)
    (hplain : (FileUploadBase.parseRequest rt MultipartStream.DEFAULT_BUFSIZE contentType input).1 =
      plain) :
    Outcome st dir current d plain r ∧ (r.failure = none → Parses st dir current d plain r) ∧
      (r.failure.isSome → r.device.files = d.files) := by
  rw [FileUploadBase.parseRequest] at hplain
  rw [parseRequest] at hr
  generalize FileUploadBase.getItemIterator rt MultipartStream.DEFAULT_BUFSIZE contentType input =
    iterator at hplain hr
  subst hplain hr
  obtain ⟨e | it, notifier⟩ := iterator
  · refine ⟨.failed rfl, fun hnone => ?_, fun _ => rfl⟩
    exact absurd hnone (Option.some_ne_none _)
  have hparses := parseItems_parses st rt dir it.multi.turns current d it
  dsimp only
  generalize parseItems st rt dir it.multi.turns current d it = done at hparses
  generalize (FileUploadBase.parseItems rt it.multi.turns it).1 = plain at hparses
  by_cases hfailure : done.failure.isSome = true
  · rw [if_pos hfailure]
    refine ⟨?_, fun hnone => ?_, fun _ => hparses.deleted hfresh⟩
    · cases hparses.outcome with
      | parsed failure_eq => simp [failure_eq] at hfailure
      | failed failure_eq => exact .failed failure_eq
      | disk failure_eq fails length_le => exact .disk failure_eq fails length_le
    · rw [show done.failure = none from hnone] at hfailure
      cases hfailure
  · rw [if_neg hfailure]
    exact ⟨hparses.outcome, fun _ => hparses, fun h => absurd h hfailure⟩

/-! Items that are all in the memory. -/

/-- The part of the request as it is where no temporary file is. -/
def DiskFileItem.part (f : DiskFileItem) : FileItem :=
  if f.stream.formField then .formField else .file f.getName (f.memory.getD [])

theorem storeItem_in_memory (h : f.memory.isSome) :
    storeItem st dir d f = processItem st.disk dir d f.part := by
  obtain ⟨kept, hkept⟩ := Option.isSome_iff_exists.mp h
  rw [storeItem, DiskFileItem.part]
  split_ifs
  · rfl
  · rw [processItem, processUploadedFile, hkept, Option.getD_some]
    cases decodedName d.malformed f.getName with
    | none => rfl
    | some fileName =>
      dsimp only
      rw [DiskFileItem.write, hkept]

/-- Without temporary files the items are stored like the parts of the request. -/
theorem storeItems_in_memory {items : List DiskFileItem} (h : ∀ f ∈ items, f.memory.isSome) :
    storeItems st dir d items =
      processFileUpload st.disk dir d (items.map DiskFileItem.part) := by
  induction items generalizing d with
  | nil => rfl
  | cons f items ih =>
    obtain ⟨hf, hrest⟩ := List.forall_mem_cons.mp h
    rw [storeItems, List.map_cons, processFileUpload, storeItem_in_memory hf, ih hrest]

end FileUpload
