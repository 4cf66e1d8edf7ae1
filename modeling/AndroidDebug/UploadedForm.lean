import AndroidDebug.CutRequests
import AndroidDebug.DiskFileItem
import Mathlib.Data.List.Forall2

/-! Uploads from the bytes of the request to the files of the device. -/
namespace FileUpload

open JavaText FilePaths JavaFile ByteSource
open FileUploadBase (FormPart Runtime)

/-- A request with the content type and the body that come with it. -/
structure Posted where
  isPost : Bool
  contentType : Option JString
  dir : Option JString
  id : Option JString
  referer : Option JString
  body : Source UInt8

/-- `HttpServFileUpload.isMultipartContent` -/
def isMultipartContent (rt : Runtime) (request : Posted) : Bool :=
  request.isPost &&
    (request.contentType.filter fun c =>
      FileUploadBase.MULTIPART <+: FileUploadBase.lower rt c).isSome

structure Reply where
  status : Status
  device : Device

variable (st : Storage)

/-- What is done with the request once its directory is known; `none` is a parser that does not
come to an end. -/
def processPosted (rt : Runtime) (dir : JString) (current : ℕ) (d : Device) (request : Posted) :
    Option Progress :=
  let parsed := parseRequest st rt dir current d request.contentType request.body
  match parsed.failure with
  | none => some (storeItems st dir parsed.device parsed.items)
  | some e =>
    if e = .request (.multipart .stalled) then none else some ⟨parsed.device, [], true⟩

/-- `HttpUpHandler.handle` with the parser of the items, whose temporary files are numbered from
`current` on. -/
def handlePosted (rt : Runtime) (current : ℕ) (d : Device) (request : Posted) : Option Reply :=
  if !st.ALLOW_UPLOAD then some ⟨.unavailable, d⟩
  else if !isMultipartContent rt request then some ⟨.forbidden, d⟩
  else
    match request.dir, request.id, request.referer with
    | some dir, some id, some referer =>
      match readParams st.toSetting d dir id referer with
      | none => some ⟨.raised, d⟩
      | some dir =>
        if isDirectory d dir then
          (processPosted st rt dir current d request).map fun done =>
            ⟨if done.raised then .badRequest else .ok, done.device⟩
        else some ⟨.badRequest, d⟩
    | _, _, _ => some ⟨.badRequest, d⟩

structure Posted.Taken (s : Setting) (rt : Runtime) (d : Device) (request : Posted)
    (dir : JString) : Prop where
  allowed : s.ALLOW_UPLOAD = true
  multipart : isMultipartContent rt request = true
  params : ∃ param id referer, request.dir = some param ∧ request.id = some id ∧
    request.referer = some referer ∧ readParams s d param id referer = some dir
  directory : isDirectory d dir = true

variable {st} {rt : Runtime} {d d' : Device} {dir : JString} {current : ℕ}
  {f : DiskFileItem} {items : List DiskFileItem}

theorem handlePosted_taken {request : Posted} (h : request.Taken st.toSetting rt d dir) :
    handlePosted st rt current d request =
      (processPosted st rt dir current d request).map fun done =>
        ⟨if done.raised then .badRequest else .ok, done.device⟩ := by
  obtain ⟨param, id, referer, hparam, hid, href, hread⟩ := h.params
  simp [handlePosted, h.allowed, h.multipart, hparam, hid, href, hread, h.directory]

theorem handlePosted_parsed {request : Posted} {r : Parsed}
    (h : request.Taken st.toSetting rt d dir)
    (hr : parseRequest st rt dir current d request.contentType request.body = r)
    (hnone : r.failure = none) : handlePosted st rt current d request =
      some ⟨if (storeItems st dir r.device r.items).raised then .badRequest else .ok,
        (storeItems st dir r.device r.items).device⟩ := by
  rw [handlePosted_taken h, processPosted, hr, hnone]
  rfl

theorem handlePosted_failed {request : Posted} {r : Parsed} {e : Trouble}
    (h : request.Taken st.toSetting rt d dir)
    (hr : parseRequest st rt dir current d request.contentType request.body = r)
    (hsome : r.failure = some e) (he : e ≠ .request (.multipart .stalled)) :
    handlePosted st rt current d request = some ⟨.badRequest, r.device⟩ := by
  rw [handlePosted_taken h, processPosted, hr, hsome]
  simp only [if_neg he, Option.map_some, if_true]

/-! All items, on a disk that takes them. -/

structure Storage.Takes (st : Storage) : Prop where
  disk : ∀ d l content, st.disk d l content = .done
  spool : ∀ d l content, st.spool d l content = .done
  renames : ∀ d l m, st.renames d l m = true

def goal (dir : JString) (f : DiskFileItem) : Location Bytes := place dir ++ [getBytes f.getName]

structure Stored (dir : JString) (d : Device) (f : DiskFileItem) (d' : Device) : Prop where
  directories : SameDirectories d d'
  content_eq : contentAt d' (goal dir f) = f.content d
  moved : f.memory = none → d'.files (place f.tempFile) = none
  frame : ∀ l, l ≠ goal dir f → (f.memory = none → l ≠ place f.tempFile) →
    d'.files l = d.files l

theorem not_directory_of_content {l : Location Bytes} {content : Bytes}
    (h : contentAt d l = some content) (searchable readable : Bool) :
    d.files l ≠ some (.directory searchable readable) := by
  intro hnode
  rw [contentAt, hnode] at h
  cases h

/-- A file is in the place of another, and no longer in its own. -/
theorem sameDirectories_move {l m : Location Bytes} (hl : ∀ searchable readable,
    d.files l ≠ some (.directory searchable readable)) (hm : ∀ searchable readable,
    d.files m ≠ some (.directory searchable readable)) (hne : l ≠ m) :
    SameDirectories d
      { d with files := Function.update (Function.update d.files m (d.files l)) l none } := by
  refine (sameDirectories_update hm hl).trans (sameDirectories_update ?_ fun _ _ h => by cases h)
  intro searchable readable hnode
  exact hl searchable readable ((Function.update_of_ne hne _ _).symm.trans hnode)

theorem storeItem_stored (hst : st.Takes) (hfile : f.stream.formField = false)
    (hname : Ordinary f.getName) (hdest : (destination d (child dir f.getName)).isSome)
    (hcontent : (f.content d).isSome) (hapart : place f.tempFile ≠ goal dir f) :
    (storeItem st dir d f).raised = false ∧ Stored dir d f (storeItem st dir d f).device := by
  obtain ⟨l, hl⟩ := Option.isSome_iff_exists.mp hdest
  obtain ⟨content, hcontent⟩ := Option.isSome_iff_exists.mp hcontent
  have hgoal : l = goal dir f := by rw [destination_place hl, place_ordinary dir hname, goal]
  have hnot := destination_not_directory hl
  subst hgoal
  have hstored : storeItem st dir d f = f.write st d (child dir f.getName) := by
    simp only [storeItem, hfile, Bool.false_eq_true, if_false, hname.decodedName_eq]
  rw [hstored, DiskFileItem.write]
  rw [DiskFileItem.content] at hcontent
  cases hmemory : f.memory with
  | some kept =>
    simp only [write, hl, hst.disk]
    rw [hmemory] at hcontent
    refine ⟨trivial, sameDirectories_store kept hnot, ?_, ?_, fun l hl _ => ?_⟩
    · rw [contentAt_store, if_pos rfl, DiskFileItem.content, hmemory]
    · rw [hmemory]
      rintro ⟨⟩
    · exact Function.update_of_ne hl _ _
  | none =>
    rw [hmemory] at hcontent
    simp only [hcontent, renameTo, hl, if_neg hapart.symm, hst.renames, if_true, Option.getD_some]
    refine ⟨trivial, sameDirectories_move (not_directory_of_content hcontent) hnot hapart, ?_,
      fun _ => Function.update_self _ _ _, fun l hl htemp => ?_⟩
    · rw [DiskFileItem.content, hmemory, contentAt, contentAt]
      dsimp only
      rw [Function.update_of_ne hapart.symm, Function.update_self]
    · exact (Function.update_of_ne (htemp hmemory) _ _).trans (Function.update_of_ne hl _ _)

/-- Items that can all be stored, each in a place of its own or with equal bytes. -/
structure Ready (dir : JString) (d : Device) (items : List DiskFileItem) : Prop where
  names : ∀ f ∈ items, f.stream.formField = false →
    Ordinary f.getName ∧ (destination d (child dir f.getName)).isSome
  contents : ∀ f ∈ items, (f.content d).isSome
  bytes : ∀ f ∈ items, ∀ g ∈ items, f.stream.formField = false → g.stream.formField = false →
    goal dir f = goal dir g → f.content d = g.content d
  temps : items.Pairwise fun f g => place f.tempFile ≠ place g.tempFile
  apart : ∀ f ∈ items, ∀ g ∈ items, g.stream.formField = false → place f.tempFile ≠ goal dir g

theorem Ready.tail (h : Ready dir d (f :: items)) : Ready dir d items where
  names g hg := h.names g (List.mem_cons_of_mem f hg)
  contents g hg := h.contents g (List.mem_cons_of_mem f hg)
  bytes g hg g' hg' := h.bytes g (List.mem_cons_of_mem f hg) g' (List.mem_cons_of_mem f hg')
  temps := (List.pairwise_cons.mp h.temps).2
  apart g hg g' hg' := h.apart g (List.mem_cons_of_mem f hg) g' (List.mem_cons_of_mem f hg')

theorem Ready.congr (h : Ready dir d items) (hdirs : SameDirectories d d')
    (hcontent : ∀ f ∈ items, f.content d' = f.content d) : Ready dir d' items where
  names f hf hfile := by
    rw [hdirs.destination_eq]
    exact h.names f hf hfile
  contents f hf := by
    rw [hcontent f hf]
    exact h.contents f hf
  bytes f hf g hg hfile hgile hgoal := by
    rw [hcontent f hf, hcontent g hg]
    exact h.bytes f hf g hg hfile hgile hgoal
  temps := h.temps
  apart := h.apart

structure AllStored (dir : JString) (d : Device) (items : List DiskFileItem) (d' : Device) :
    Prop where
  content_eq : ∀ f ∈ items, f.stream.formField = false → contentAt d' (goal dir f) = f.content d
  moved : ∀ f ∈ items, f.stream.formField = false → f.memory = none →
    d'.files (place f.tempFile) = none
  frame : ∀ l, (∀ f ∈ items, f.stream.formField = false →
    l ≠ goal dir f ∧ (f.memory = none → l ≠ place f.tempFile)) → d'.files l = d.files l

theorem storeItems_cons (h : (storeItem st dir d f).raised = false) :
    storeItems st dir d (f :: items) =
      ⟨(storeItems st dir (storeItem st dir d f).device items).device,
        (storeItem st dir d f).touched ++
          (storeItems st dir (storeItem st dir d f).device items).touched,
        (storeItems st dir (storeItem st dir d f).device items).raised⟩ := by
  rw [storeItems]
  simp only [h, Bool.false_eq_true, if_false]

/-- By induction on the items: a file is not overwritten but by equal bytes. -/
theorem storeItems_stored (hst : st.Takes) (h : Ready dir d items) :
    (storeItems st dir d items).raised = false ∧
      AllStored dir d items (storeItems st dir d items).device := by
  induction items generalizing d with
  | nil => exact ⟨rfl, by simp, by simp, fun _ _ => rfl⟩
  | cons f items ih =>
    cases hfield : f.stream.formField with
    | true =>
      have hfirst : storeItem st dir d f = ⟨d, [], false⟩ := by rw [storeItem, if_pos hfield]
      obtain ⟨hraised, hstored⟩ := ih h.tail
      rw [storeItems_cons (by rw [hfirst]), hfirst]
      refine ⟨hraised, fun g hg hfile => ?_, fun g hg hfile => ?_, fun l hl => ?_⟩
      · rcases List.mem_cons.mp hg with rfl | hg
        · rw [hfield] at hfile
          cases hfile
        · exact hstored.content_eq g hg hfile
      · rcases List.mem_cons.mp hg with rfl | hg
        · rw [hfield] at hfile
          cases hfile
        · exact hstored.moved g hg hfile
      · exact hstored.frame l fun g hg => hl g (List.mem_cons_of_mem f hg)
    | false =>
      have hf : f ∈ f :: items := List.mem_cons_self
      obtain ⟨hname, hdest⟩ := h.names f hf hfield
      obtain ⟨hdone, hone⟩ := storeItem_stored hst hfield hname hdest (h.contents f hf)
        (h.apart f hf f hf hfield)
      have htemps := (List.pairwise_cons.mp h.temps).1
      have hcontent : ∀ g ∈ items, g.content (storeItem st dir d f).device = g.content d := by
        intro g hg
        apply content_congr
        exact hone.frame _ (h.apart g (List.mem_cons_of_mem f hg) f hf hfield)
          fun _ => (htemps g hg).symm
      obtain ⟨hraised, hrest⟩ := ih (h.tail.congr hone.directories hcontent)
      rw [storeItems_cons hdone]
      refine ⟨hraised, fun g hg hfile => ?_, fun g hg hfile hmemory => ?_, fun l hl => ?_⟩
      · by_cases hlater : ∃ g' ∈ items, g'.stream.formField = false ∧ goal dir g' = goal dir g
        · obtain ⟨g', hg', hfile', hgoal⟩ := hlater
          rw [← hgoal, hrest.content_eq g' hg' hfile', hcontent g' hg']
          exact h.bytes g' (List.mem_cons_of_mem f hg') g hg hfile' hfile hgoal
        · obtain rfl : g = f := by
            rcases List.mem_cons.mp hg with hg | hg
            · exact hg
            · exact absurd ⟨g, hg, hfile, rfl⟩ hlater
          refine (contentAt_congr (hrest.frame _ fun g' hg' hfile' => ⟨fun hgoal => ?_, ?_⟩)).trans
            hone.content_eq
          · exact hlater ⟨g', hg', hfile', hgoal.symm⟩
          · exact fun _ => (h.apart g' (List.mem_cons_of_mem g hg') g hf hfile).symm
      · rcases List.mem_cons.mp hg with rfl | hg
        · rw [hrest.frame _ fun g' hg' hfile' => ⟨?_, fun _ => htemps g' hg'⟩]
          · exact hone.moved hmemory
          · exact h.apart g hf g' (List.mem_cons_of_mem g hg') hfile'
        · exact hrest.moved g hg hfile hmemory
      · obtain ⟨hlFirst, hlRest⟩ := List.forall_mem_cons.mp hl
        obtain ⟨hgoal, htemp⟩ := hlFirst hfield
        exact (hrest.frame l hlRest).trans (hone.frame l hgoal htemp)

/-! Forms. -/

open MultipartStream (BOUNDARY_PREFIX DEFAULT_BUFSIZE)
open FileUploadBase (FormPart)

/-- A form for a directory that exists, with a boundary that the buffer has room for. -/
structure Posted.Form (s : Setting) (rt : Runtime) (d : Device) (request : Posted)
    (dir token : JString) (parts : List FormPart) : Prop where
  taken : request.Taken s rt d dir
  contentType : request.contentType = some (FileUploadBase.formContentType token)
  inert : ParameterParser.Inert FileUploadBase.semicolon token
  token_ne : token ≠ []
  room : token.length + BOUNDARY_PREFIX.length < DEFAULT_BUFSIZE
  sendable : ∀ p ∈ parts, p.Sendable rt (FileUploadBase.latin1 token)

theorem Posted.Form.parseRequest_eq {s : Setting} {request : Posted} {token : JString}
    {parts : List FormPart} (h : request.Form s rt d dir token parts) :
    (FileUploadBase.parseRequest rt DEFAULT_BUFSIZE request.contentType request.body).1 =
      FileUploadBase.itemsOf rt (some (FileUploadBase.formContentType token))
        request.body.rest := by
  rw [h.contentType]
  refine FileUploadBase.parseRequest_eq request.body.rest request.body.plan fun boundary hb => ?_
  rw [FileUploadBase.length_boundary_form rt h.inert h.token_ne boundary hb]
  exact h.room

/-- No file of the device has one of the names that the factory is to give. -/
def Unused (st : Storage) (d : Device) (dir : JString) (current : ℕ) : Prop :=
  ∀ i, current ≤ i → d.files (tempPlace st.uid dir i) = none

/-- The files of a form have ordinary names that can be written, equal ones only with equal bytes,
and none of them is one that the factory gives. The latter can be written too. -/
structure Storable (st : Storage) (d : Device) (dir : JString) (current : ℕ)
    (parts : List FormPart) : Prop where
  names : ∀ p ∈ parts, ∀ name, p.fileName = some name →
    Ordinary name ∧ (destination d (child dir name)).isSome
  bytes : ∀ p ∈ parts, ∀ q ∈ parts, ∀ name name', p.fileName = some name →
    q.fileName = some name' → getBytes name = getBytes name' → p.content = q.content
  temps : ∀ i < parts.length,
    (destination d (getTempFile st.uid dir (current + i))).isSome
  apart : ∀ p ∈ parts, ∀ name, p.fileName = some name → ∀ i < parts.length,
    tempPlace st.uid dir (current + i) ≠ place dir ++ [getBytes name]

def IsLargeField (p : FormPart) : Prop :=
  p.fileName = none ∧ THRESHOLD_UPLOAD < p.content.length

theorem file_of_item {files : List FileUploadBase.FileItem} {i : ℕ}
    (h : List.Forall₂ (DiskFileItem.Has d) items files) (hf : items[i]? = some f) :
    ∃ file, files[i]? = some file ∧ f.Has d file := by
  obtain ⟨hlength, hall⟩ := List.forall₂_iff_get.mp h
  obtain ⟨hi, rfl⟩ := List.getElem?_eq_some_iff.mp hf
  have hj : i < files.length := hlength ▸ hi
  exact ⟨files[i], List.getElem?_eq_getElem hj, hall i hi hj⟩

section Parts

variable {parts : List FormPart} {i : ℕ} {p : FormPart}
  (h : List.Forall₂ (DiskFileItem.Has d) items (parts.map FormPart.item))

include h

theorem part_of_item (hf : items[i]? = some f) : ∃ p, parts[i]? = some p ∧ f.Has d p.item := by
  obtain ⟨file, hfile, hhas⟩ := file_of_item h hf
  rw [List.getElem?_map, Option.map_eq_some_iff] at hfile
  obtain ⟨p, hp, rfl⟩ := hfile
  exact ⟨p, hp, hhas⟩

theorem item_of_part (hp : parts[i]? = some p) : ∃ f, items[i]? = some f ∧ f.Has d p.item := by
  obtain ⟨hi, -⟩ := List.getElem?_eq_some_iff.mp hp
  have hj : i < items.length := by simpa [h.length_eq] using hi
  obtain ⟨q, hq, hhas⟩ := part_of_item h (List.getElem?_eq_getElem hj)
  obtain rfl := Option.some.inj (hp.symm.trans hq)
  exact ⟨items[i], List.getElem?_eq_getElem hj, hhas⟩

end Parts

theorem DiskFileItem.Has.fileName_eq {p : FormPart} (h : f.Has d p.item)
    (hfile : f.stream.formField = false) : p.fileName = some f.getName := by
  have hstream := h.stream_eq
  rw [hstream] at hfile
  rw [DiskFileItem.getName, hstream]
  cases hname : p.fileName with
  | none => simp [FormPart.item, hname] at hfile
  | some name => simp [FormPart.item, hname]

/-- Once the form has been parsed, its items can all be stored. -/
theorem ready_of_parses {parts : List FormPart} {plain} {r : Parsed}
    (hparses : Parses st dir current d plain r)
    (hitems : List.Forall₂ (DiskFileItem.Has r.device) r.items (parts.map FormPart.item))
    (h : Storable st d dir current parts) : Ready dir r.device r.items := by
  have hpart : ∀ f ∈ r.items, ∃ i < parts.length, ∃ p ∈ parts, f.Has r.device p.item ∧
      place f.tempFile = tempPlace st.uid dir (current + i) := by
    intro f hf
    obtain ⟨i, hi⟩ := List.mem_iff_getElem?.mp hf
    obtain ⟨p, hp, hhas⟩ := part_of_item hitems hi
    obtain ⟨hlt, -⟩ := List.getElem?_eq_some_iff.mp hp
    exact ⟨i, hlt, p, List.mem_of_getElem? hp, hhas, hparses.place_item hi⟩
  refine ⟨fun f hf hfile => ?_, fun f hf => ?_, fun f hf g hg hfile hgile hgoal => ?_, ?_,
    fun f hf g hg hgile => ?_⟩
  · obtain ⟨i, -, p, hp, hhas, -⟩ := hpart f hf
    rw [hparses.directories.destination_eq]
    exact h.names p hp _ (hhas.fileName_eq hfile)
  · obtain ⟨i, -, p, -, hhas, -⟩ := hpart f hf
    rw [hhas.holds.content_eq]
    rfl
  · obtain ⟨i, -, p, hp, hhas, -⟩ := hpart f hf
    obtain ⟨j, -, q, hq, hhas', -⟩ := hpart g hg
    rw [hhas.holds.content_eq, hhas'.holds.content_eq]
    have hbytes := List.singleton_injective (List.append_cancel_left hgoal)
    exact congrArg some
      (h.bytes p hp q hq _ _ (hhas.fileName_eq hfile) (hhas'.fileName_eq hgile) hbytes)
  · rw [List.pairwise_iff_getElem]
    intro i j hi hj hlt hplace
    rw [hparses.place_item (List.getElem?_eq_getElem hi),
      hparses.place_item (List.getElem?_eq_getElem hj)] at hplace
    have := tempPlace_injective dir hplace
    omega
  · obtain ⟨i, hi, p, -, -, htemp⟩ := hpart f hf
    obtain ⟨j, -, q, hq, hhas, -⟩ := hpart g hg
    rw [htemp]
    exact h.apart q hq _ (hhas.fileName_eq hgile) i hi

/-- With a disk that takes everything the items of the form are there. -/
theorem parseRequest_form {request : Posted} {token : JString} {parts : List FormPart}
    {epilogue : Bytes} (hrt : rt.Documented)
    (h : request.Form st.toSetting rt d dir token parts) (hbody : request.body.rest =
      FileUploadBase.formBody (FileUploadBase.latin1 token) parts epilogue)
    (hst : st.Takes) (hunused : Unused st d dir current)
    (hparts : Storable st d dir current parts) {r : Parsed}
    (hr : parseRequest st rt dir current d request.contentType request.body = r) :
    r.failure = none ∧
      List.Forall₂ (DiskFileItem.Has r.device) r.items (parts.map FormPart.item) ∧
      Parses st dir current d (.ok (parts.map FormPart.item)) r := by
  have hparsed := h.parseRequest_eq
  rw [hbody, FileUploadBase.formBody, FileUploadBase.itemsOf_form hrt h.inert h.token_ne h.sendable
    (FileUploadBase.marker_terminator_whole epilogue)] at hparsed
  obtain ⟨houtcome, hparses, -⟩ := parseRequest_cases rt _ _ hunused hr hparsed
  cases houtcome with
  | parsed failure_eq items => exact ⟨failure_eq, items, hparses failure_eq⟩
  | disk failure_eq fails length_le =>
    obtain ⟨i, hi, hspools⟩ := fails
    have hlength := length_le _ rfl
    rw [List.length_map] at hlength
    exact absurd ⟨hst.spool, hparts.temps i (hi.trans_le hlength)⟩ hspools

section Results

variable {parts : List FormPart} {p : FormPart} {plain : Except FileUploadBase.Failure _}
  {r : Parsed} (hparses : Parses st dir current d plain r)
  (hitems : List.Forall₂ (DiskFileItem.Has r.device) r.items (parts.map FormPart.item))
  (hstored : AllStored dir r.device r.items d')

include hitems hstored

theorem file_stored (hp : p ∈ parts) {name : JString} (hname : p.fileName = some name) :
    contentAt d' (place dir ++ [getBytes name]) = some p.content := by
  obtain ⟨i, hi⟩ := List.mem_iff_getElem?.mp hp
  obtain ⟨f, hf, hhas⟩ := item_of_part hitems hi
  have hfile : f.stream.formField = false := by
    rw [hhas.stream_eq]
    simp [FormPart.item, hname]
  have hcontent := hstored.content_eq f (List.mem_of_getElem? hf) hfile
  have hsame := hhas.fileName_eq hfile
  rw [hname, Option.some.injEq] at hsame
  rwa [hhas.holds.content_eq, goal, ← hsame] at hcontent

include hparses

/-- Storing the files leaves the temporary file of a field alone. -/
theorem field_spooled (hready : Ready dir r.device r.items) {i : ℕ} (hp : parts[i]? = some p)
    (hlarge : IsLargeField p) :
    contentAt d' (tempPlace st.uid dir (current + i)) = some p.content := by
  obtain ⟨f, hf, hhas⟩ := item_of_part hitems hp
  have hmemory := hhas.holds.memory_iff.mpr hlarge.2
  have hcontent := hhas.holds.content_eq
  rw [DiskFileItem.content, hmemory] at hcontent
  rw [← hparses.place_item hf]
  refine (contentAt_congr (hstored.frame _ fun g hg hfile => ⟨?_, fun _ => ?_⟩)).trans hcontent
  · exact hready.apart f (List.mem_of_getElem? hf) g hg hfile
  · intro hplace
    obtain ⟨j, hj⟩ := List.mem_iff_getElem?.mp hg
    rw [hparses.place_item hf, hparses.place_item hj] at hplace
    obtain rfl : i = j := by
      have := tempPlace_injective dir hplace
      omega
    obtain rfl := Option.some.inj (hf.symm.trans hj)
    rw [hhas.stream_eq] at hfile
    simp [FormPart.item, hlarge.1] at hfile

theorem others_kept (hunused : Unused st d dir current) {l : Location Bytes}
    (hfiles : ∀ p ∈ parts, ∀ name, p.fileName = some name → l ≠ place dir ++ [getBytes name])
    (hfields : ∀ i p, parts[i]? = some p → IsLargeField p →
      l ≠ tempPlace st.uid dir (current + i)) : d'.files l = d.files l := by
  have hgoal : ∀ f ∈ r.items, f.stream.formField = false → l ≠ goal dir f := by
    intro f hf hfile
    obtain ⟨i, hi⟩ := List.mem_iff_getElem?.mp hf
    obtain ⟨p, hp, hhas⟩ := part_of_item hitems hi
    exact hfiles p (List.mem_of_getElem? hp) _ (hhas.fileName_eq hfile)
  by_cases hl : ∃ f ∈ r.items, f.stream.formField = false ∧ f.memory = none ∧
      l = place f.tempFile
  · -- the file was moved away, and there was none before
    obtain ⟨f, hf, hfile, hmemory, rfl⟩ := hl
    obtain ⟨i, hi⟩ := List.mem_iff_getElem?.mp hf
    refine (hstored.moved f hf hfile hmemory).trans ?_
    rw [hparses.place_item hi]
    exact (hunused (current + i) (Nat.le_add_right _ _)).symm
  · have hkept := hstored.frame l fun f hf hfile =>
      ⟨hgoal f hf hfile, fun hmemory hplace => hl ⟨f, hf, hfile, hmemory, hplace⟩⟩
    refine hkept.trans (hparses.frame l fun f hf hmemory hdest => ?_)
    have hplace := destination_place hdest
    obtain ⟨i, hi⟩ := List.mem_iff_getElem?.mp hf
    obtain ⟨p, hp, hhas⟩ := part_of_item hitems hi
    cases hfield : f.stream.formField with
    | false => exact hl ⟨f, hf, hfield, hmemory, hplace⟩
    | true =>
      rw [hhas.stream_eq] at hfield
      refine hfields i p hp ⟨Option.isNone_iff_eq_none.mp hfield, ?_⟩
        (hplace.trans (hparses.place_item hi))
      exact hhas.holds.memory_iff.mp hmemory

end Results

/-- A form that a browser sends is stored: each file is in the directory under its name, with its
bytes, a field that outgrew the memory is in its temporary file, and every other file of the device
is as before. -/
theorem form_upload_stored (st : Storage) (rt : Runtime) (hrt : rt.Documented) (current : ℕ)
    (d : Device) (request : Posted) (dir token : JString) (parts : List FormPart)
    (epilogue : Bytes) (h : request.Form st.toSetting rt d dir token parts)
    (hbody : request.body.rest =
      FileUploadBase.formBody (FileUploadBase.latin1 token) parts epilogue)
    (hst : st.Takes) (hunused : Unused st d dir current)
    (hparts : Storable st d dir current parts) :
    ∃ reply, handlePosted st rt current d request = some reply ∧ reply.status = .ok ∧
      (∀ p ∈ parts, ∀ name, p.fileName = some name →
        contentAt reply.device (place dir ++ [getBytes name]) = some p.content) ∧
      (∀ i p, parts[i]? = some p → IsLargeField p →
        contentAt reply.device (tempPlace st.uid dir (current + i)) = some p.content) ∧
      ∀ l, (∀ p ∈ parts, ∀ name, p.fileName = some name → l ≠ place dir ++ [getBytes name]) →
        (∀ i p, parts[i]? = some p → IsLargeField p → l ≠ tempPlace st.uid dir (current + i)) →
        reply.device.files l = d.files l := by
  generalize hr : parseRequest st rt dir current d request.contentType request.body = r
  obtain ⟨hnone, hitems, hparses⟩ := parseRequest_form hrt h hbody hst hunused hparts hr
  have hready := ready_of_parses hparses hitems hparts
  obtain ⟨hraised, hstored⟩ := storeItems_stored hst hready
  rw [handlePosted_parsed h.taken hr hnone]
  exact ⟨_, rfl, by simp only [hraised, Bool.false_eq_true, if_false],
    fun _ hp _ hname => file_stored hitems hstored hp hname,
    fun _ _ hp hlarge => field_spooled hparses hitems hstored hready hp hlarge,
    fun _ hfiles hfields => others_kept hparses hitems hstored hunused hfiles hfields⟩

section Zeros

open FileUploadBase (asciiRuntime documented_asciiRuntime formBody latin1)

theorem plain_of_all {text : String}
    (h : (text.toList.all fun c => c = '_' ∨ c.isAlphanum = true) = true) :
    ∀ c ∈ text.toList, c = '_' ∨ c.isAlphanum = true :=
  fun c hc => of_decide_eq_true (List.all_eq_true.mp h c hc)

def storage : Storage where
  toSetting := setting
  uid := ⟨"5b2c_4d", plain_of_all (by decide)⟩
  spool _ _ _ := .done
  renames _ _ _ := true

/-- One byte more than there is memory for. -/
def zeros : Bytes := List.replicate (THRESHOLD_UPLOAD + 1) 0

def zerosField : FormPart := ⟨ofString "t", none, none, zeros⟩
def zerosFile : FormPart := ⟨ofString "f", some (ofString "a.bin"), none, zeros⟩

theorem find_zeros (n : ℕ) (token : Bytes) :
    Delimiter.find (MultipartStream.delimiterOf token)
      (List.replicate n 0 ++ MultipartStream.delimiterOf token) = some n := by
  induction n with
  | zero =>
    exact (Delimiter.find_eq_zero_iff (MultipartStream.delimiterOf_ne_nil token) _).mpr
      (List.prefix_refl _)
  | succ n ih =>
    have hhead : ¬MultipartStream.delimiterOf token <+:
        0 :: (List.replicate n 0 ++ MultipartStream.delimiterOf token) := by
      intro hprefix
      have hcr := (List.cons_prefix_cons.mp hprefix).1
      revert hcr
      decide
    rw [List.replicate_succ, List.cons_append, Delimiter.find_cons_neg hhead, ih]
    rfl

theorem sendable_zeros : ∀ p ∈ [zerosField, zerosFile],
    p.Sendable asciiRuntime (latin1 (ofString "B7")) := by
  have hcontent : ∀ token, Delimiter.find (MultipartStream.delimiterOf token)
      (zeros ++ MultipartStream.delimiterOf token) = some zeros.length := by
    intro token
    rw [zeros, List.length_replicate]
    exact find_zeros _ token
  intro p hp
  simp only [List.mem_cons, List.not_mem_nil, or_false] at hp
  rcases hp with rfl | rfl
  · refine ⟨by decide, ⟨⟨by decide, by decide, by decide⟩, by decide, by decide, by decide⟩, ?_, ?_,
      by decide, hcontent _⟩
    · rintro _ ⟨⟩
    · rintro _ ⟨⟩
  · refine ⟨by decide, ⟨⟨by decide, by decide, by decide⟩, by decide, by decide, by decide⟩, ?_, ?_,
      by decide, hcontent _⟩
    · rintro fileName ⟨⟩
      exact ⟨⟨by decide, by decide, by decide⟩, by decide, by decide, by decide⟩
    · rintro _ ⟨⟩

def postedZeros (body : Bytes) : Posted where
  isPost := true
  contentType := some (FileUploadBase.formContentType (ofString "B7"))
  dir := some (ofString "/sdcard/up")
  id := some (ofString "1")
  referer := some (ofString "http://phone/")
  body := ⟨body, [9, 1]⟩

theorem form_postedZeros (body : Bytes) : (postedZeros body).Form setting asciiRuntime phone
    (ofString "/sdcard/up") (ofString "B7") [zerosField, zerosFile] where
  taken := {
    allowed := rfl
    multipart := by
      simp [isMultipartContent, postedZeros,
        FileUploadBase.multipart_form FileUploadBase.documented_asciiRuntime]
    params := ⟨_, _, _, rfl, rfl, rfl, by decide +kernel⟩
    directory := by decide +kernel }
  contentType := rfl
  inert := by decide
  token_ne := by decide
  room := by decide
  sendable := sendable_zeros

theorem unused_phone : Unused storage phone (ofString "/sdcard/up") 7 := by
  intro i _
  have hplace : place (ofString "/sdcard/up") = names ["sdcard", "up"] := by decide +kernel
  have hlength : (tempPlace storage.uid (ofString "/sdcard/up") i).length = 3 := by
    rw [tempPlace, hplace]
    rfl
  have hne : ∀ l : Location Bytes, l.length ≠ 3 →
      tempPlace storage.uid (ofString "/sdcard/up") i ≠ l := by
    rintro l hl rfl
    exact hl hlength
  simp only [phone]
  rw [if_neg]
  rintro (h | h | h)
  · exact hne _ (by decide) h
  · exact hne _ (by decide) h
  · exact hne _ (by decide) h

theorem storable_zeros :
    Storable storage phone (ofString "/sdcard/up") 7 [zerosField, zerosFile] where
  names p hp name hname := by
    simp only [List.mem_cons, List.not_mem_nil, or_false] at hp
    rcases hp with rfl | rfl
    · cases hname
    · cases hname
      exact ⟨⟨by unfold Plain; decide, by decide, by decide, by decide, by decide⟩,
        by decide +kernel⟩
  bytes p hp q hq name name' _ _ _ := by
    simp only [List.mem_cons, List.not_mem_nil, or_false] at hp hq
    rcases hp with rfl | rfl <;> rcases hq with rfl | rfl <;> rfl
  temps i hi := by
    have hi' : i = 0 ∨ i = 1 := by
      simp only [List.length_cons, List.length_nil] at hi
      omega
    rcases hi' with rfl | rfl <;> decide +kernel
  apart p hp name hname i hi := by
    have hi' : i = 0 ∨ i = 1 := by
      simp only [List.length_cons, List.length_nil] at hi
      omega
    simp only [List.mem_cons, List.not_mem_nil, or_false] at hp
    rcases hp with rfl | rfl
    · cases hname
    · cases hname
      rcases hi' with rfl | rfl <;> decide +kernel

theorem zeros_stored :
    ∃ reply, handlePosted storage asciiRuntime 7 phone (postedZeros (formBody
        (latin1 (ofString "B7")) [zerosField, zerosFile] [])) = some reply ∧ reply.status = .ok ∧
      (∀ p ∈ [zerosField, zerosFile], ∀ name, p.fileName = some name →
        contentAt reply.device (place (ofString "/sdcard/up") ++ [getBytes name]) =
          some p.content) ∧
      (∀ (i : ℕ) p, [zerosField, zerosFile][i]? = some p → IsLargeField p →
        contentAt reply.device (tempPlace storage.uid (ofString "/sdcard/up") (7 + i)) =
          some p.content) ∧
      ∀ l, (∀ p ∈ [zerosField, zerosFile], ∀ name, p.fileName = some name →
          l ≠ place (ofString "/sdcard/up") ++ [getBytes name]) →
        (∀ (i : ℕ) p, [zerosField, zerosFile][i]? = some p → IsLargeField p →
          l ≠ tempPlace storage.uid (ofString "/sdcard/up") (7 + i)) →
        reply.device.files l = phone.files l :=
  form_upload_stored storage asciiRuntime documented_asciiRuntime 7 phone _ (ofString "/sdcard/up")
    (ofString "B7") [zerosField, zerosFile] [] (form_postedZeros _) rfl
    ⟨fun _ _ _ => rfl, fun _ _ _ => rfl, fun _ _ _ => rfl⟩ unused_phone storable_zeros

end Zeros

/-! Forms that are cut off. -/

section Cut

/-- Each file is as before, or it has one of these contents. -/
def Whole (d₀ : Device) (contents : List Bytes) (d : Device) : Prop :=
  ∀ l, d.files l = d₀.files l ∨ ∃ content ∈ contents, contentAt d l = some content

variable {d₀ : Device} {contents : List Bytes}

theorem Whole.of_frame {l : Location Bytes} (h : Whole d₀ contents d)
    (hl : d'.files l = d₀.files l ∨ ∃ content ∈ contents, contentAt d' l = some content)
    (hframe : ∀ m, m ≠ l → d'.files m = d.files m) : Whole d₀ contents d' := by
  intro m
  by_cases hm : m = l
  · rw [hm]
    exact hl
  · refine (h m).imp (hframe m hm).trans ?_
    rintro ⟨content, hmem, hcontent⟩
    exact ⟨content, hmem, (contentAt_congr (hframe m hm)).trans hcontent⟩

theorem write_whole (hdisk : ∀ d l content left, st.disk d l content ≠ .stopped left)
    (path : JString) {content : Bytes} (hmem : content ∈ contents) (h : Whole d₀ contents d) :
    Whole d₀ contents (write st.disk d path content).device := by
  rw [write]
  cases destination d path with
  | none => exact h
  | some l =>
    dsimp only
    cases hwritten : st.disk d l content with
    | refused => exact h
    | stopped left => exact absurd hwritten (hdisk d l content left)
    | done =>
      refine h.of_frame (.inr ⟨content, hmem, ?_⟩) fun m hm => Function.update_of_ne hm _ _
      rw [contentAt_store, if_pos rfl]

/-- A temporary file is moved as a whole, and where it was there was no file before. -/
theorem renameTo_whole {l : Location Bytes} {path : JString} {content : Bytes} {moved : Progress}
    (hmem : content ∈ contents) (hunused : d₀.files l = none) (hl : contentAt d l = some content)
    (h : Whole d₀ contents d) (hmoved : renameTo st d l path = some moved) :
    Whole d₀ contents moved.device := by
  rw [renameTo] at hmoved
  split at hmoved
  · cases hmoved
  rename_i m _
  split_ifs at hmoved
  · cases hmoved
    exact h
  · cases hmoved
    have hthere : Whole d₀ contents { d with files := Function.update d.files m (d.files l) } := by
      refine h.of_frame (.inr ⟨content, hmem, ?_⟩) fun k hk => Function.update_of_ne hk _ _
      rw [contentAt]
      dsimp only
      rwa [Function.update_self]
    refine hthere.of_frame (.inl ?_) fun k hk => Function.update_of_ne hk _ _
    exact (Function.update_self _ _ _).trans hunused.symm

/-- What an item gives is whole: its own bytes, or what is in its temporary file. -/
theorem storeItem_whole (dir : JString)
    (hdisk : ∀ d l content left, st.disk d l content ≠ .stopped left)
    (hmemory : ∀ kept, f.memory = some kept → kept ∈ contents)
    (hunused : d₀.files (place f.tempFile) = none) (h : Whole d₀ contents d) :
    Whole d₀ contents (storeItem st dir d f).device := by
  rw [storeItem]
  split_ifs
  · exact h
  cases decodedName d.malformed f.getName with
  | none => exact h
  | some fileName =>
    dsimp only
    rw [DiskFileItem.write]
    cases hkept : f.memory with
    | some kept => exact write_whole hdisk _ (hmemory kept hkept) h
    | none =>
      dsimp only
      cases hcontent : contentAt d (place f.tempFile) with
      | none => exact h
      | some content =>
        have hmem : content ∈ contents := by
          rcases h (place f.tempFile) with hsame | ⟨content', hmem, hcontent'⟩
          · rw [contentAt, hsame, hunused] at hcontent
            cases hcontent
          · rwa [Option.some.inj (hcontent.symm.trans hcontent')]
        dsimp only
        cases hmoved : renameTo st d (place f.tempFile) (child dir fileName) with
        | none => exact write_whole hdisk _ hmem h
        | some moved => exact renameTo_whole hmem hunused hcontent h hmoved

theorem storeItems_whole (dir : JString)
    (hdisk : ∀ d l content left, st.disk d l content ≠ .stopped left)
    (hmemory : ∀ f ∈ items, ∀ kept, f.memory = some kept → kept ∈ contents)
    (hunused : ∀ f ∈ items, d₀.files (place f.tempFile) = none) (h : Whole d₀ contents d) :
    Whole d₀ contents (storeItems st dir d items).device := by
  induction items generalizing d with
  | nil => exact h
  | cons f items ih =>
    obtain ⟨hmemoryFirst, hmemoryRest⟩ := List.forall_mem_cons.mp hmemory
    obtain ⟨hunusedFirst, hunusedRest⟩ := List.forall_mem_cons.mp hunused
    have hfirst := storeItem_whole dir hdisk hmemoryFirst hunusedFirst h
    cases hraised : (storeItem st dir d f).raised with
    | true =>
      rw [storeItems]
      simpa only [hraised, if_true] using hfirst
    | false =>
      rw [storeItems_cons hraised]
      exact ih hmemoryRest hunusedRest hfirst

theorem Parses.whole {plain} {r : Parsed} {files : List FileUploadBase.FileItem}
    (h : Parses st dir current d plain r)
    (hitems : List.Forall₂ (DiskFileItem.Has r.device) r.items files) :
    Whole d (files.map FileUploadBase.FileItem.content) r.device := by
  intro l
  by_cases hl : ∃ f ∈ r.items, f.memory = none ∧ destination d f.tempFile = some l
  · obtain ⟨f, hf, hmemory, hdest⟩ := hl
    obtain ⟨i, hi⟩ := List.mem_iff_getElem?.mp hf
    obtain ⟨file, hfile, hhas⟩ := file_of_item hitems hi
    have hcontent := hhas.holds.content_eq
    rw [DiskFileItem.content, hmemory] at hcontent
    rw [destination_place hdest]
    exact .inr ⟨file.content, List.mem_map_of_mem (List.mem_of_getElem? hfile), hcontent⟩
  · exact .inl (h.frame l fun f hf hmemory hdest => hl ⟨f, hf, hmemory, hdest⟩)

end Cut

/-- Wherever a form is cut off, the request is answered, and no file is left with a part of the
bytes that were sent for it, be it a temporary file. -/
theorem cut_upload_leaves_whole_files (st : Storage) (rt : Runtime) (hrt : rt.Documented)
    (current : ℕ) (d : Device) (request : Posted) (dir token : JString) (parts : List FormPart)
    (epilogue : Bytes) (n : ℕ) (h : request.Form st.toSetting rt d dir token parts)
    (hbody : request.body.rest =
      (FileUploadBase.formBody (FileUploadBase.latin1 token) parts epilogue).take n)
    (hunused : Unused st d dir current)
    (hdisk : ∀ d l content left, st.disk d l content ≠ .stopped left) :
    ∃ reply, handlePosted st rt current d request = some reply ∧
      ∀ l, reply.device.files l = d.files l ∨
        ∃ p ∈ parts, contentAt reply.device l = some p.content := by
  generalize hr : parseRequest st rt dir current d request.contentType request.body = r
  have hparsed := h.parseRequest_eq
  obtain ⟨houtcome, hparses, hfailed⟩ := parseRequest_cases rt _ _ hunused hr hparsed
  rw [hbody] at houtcome
  have hunchanged : ∀ e, r.failure = some e → e ≠ .request (.multipart .stalled) →
      ∃ reply, handlePosted st rt current d request = some reply ∧
        ∀ l, reply.device.files l = d.files l ∨
          ∃ p ∈ parts, contentAt reply.device l = some p.content := by
    intro e hsome he
    refine ⟨_, handlePosted_failed h.taken hr hsome he, fun l => .inl ?_⟩
    exact congrFun (hfailed (by rw [hsome]; rfl)) l
  rcases FileUploadBase.itemsOf_cut_form hrt h.inert h.token_ne h.sendable epilogue n with
    ⟨k, hplain⟩ | hplain
  · rw [hplain] at houtcome
    cases houtcome with
    | parsed failure_eq items =>
      have hwhole := hparses failure_eq
      have hmemory : ∀ f ∈ r.items, ∀ kept, f.memory = some kept →
          kept ∈ ((parts.take k).map FormPart.item).map FileUploadBase.FileItem.content := by
        intro f hf kept hkept
        obtain ⟨i, hi⟩ := List.mem_iff_getElem?.mp hf
        obtain ⟨file, hfile, hhas⟩ := file_of_item items hi
        have hcontent := hhas.holds.content_eq
        rw [DiskFileItem.content, hkept] at hcontent
        rw [Option.some.inj hcontent]
        exact List.mem_map_of_mem (List.mem_of_getElem? hfile)
      have htemps : ∀ f ∈ r.items, d.files (place f.tempFile) = none := by
        intro f hf
        obtain ⟨i, hi⟩ := List.mem_iff_getElem?.mp hf
        rw [hwhole.place_item hi]
        exact hunused (current + i) (Nat.le_add_right _ _)
      refine ⟨_, handlePosted_parsed h.taken hr failure_eq, fun l => ?_⟩
      refine (storeItems_whole dir hdisk hmemory htemps (hwhole.whole items) l).imp id ?_
      rintro ⟨content, hmem, hcontent⟩
      obtain ⟨file, hfile, rfl⟩ := List.mem_map.mp hmem
      obtain ⟨p, hp, rfl⟩ := List.mem_map.mp hfile
      exact ⟨p, List.mem_of_mem_take hp, hcontent⟩
    | disk failure_eq => exact hunchanged _ failure_eq (by simp)
  · rw [hplain] at houtcome
    cases houtcome with
    | failed failure_eq => exact hunchanged _ failure_eq (by simp)
    | disk failure_eq => exact hunchanged _ failure_eq (by simp)

/-- The second file is cut off when most of it is in its temporary file. -/
theorem cut_zeros_leave_whole_files :
    ∃ reply, handlePosted storage FileUploadBase.asciiRuntime 7 phone
        (postedZeros ((FileUploadBase.formBody (FileUploadBase.latin1 (ofString "B7"))
          [zerosField, zerosFile] []).take 2097200)) = some reply ∧
      ∀ l, reply.device.files l = phone.files l ∨
        ∃ p ∈ [zerosField, zerosFile], contentAt reply.device l = some p.content :=
  cut_upload_leaves_whole_files storage FileUploadBase.asciiRuntime
    FileUploadBase.documented_asciiRuntime 7 phone _ (ofString "/sdcard/up") (ofString "B7")
    [zerosField, zerosFile] [] 2097200 (form_postedZeros _) rfl unused_phone
    fun _ _ _ _ h => by cases h

end FileUpload
