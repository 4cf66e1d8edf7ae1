import AndroidDebug.MultipartItems

/-! Forms as a browser sends them, and the items that the server reads from them. -/
namespace FileUploadBase

open JavaText MultipartStream ByteSource
open ParameterParser hiding skip

/-- One field of a form, with a file or without. -/
structure FormPart where
  fieldName : JString
  fileName : Option JString
  contentType : Option JString
  content : Bytes

def parameter (name value : JString) : JString :=
  blank :: (name ++ equals :: quotationMark :: (value ++ [quotationMark]))

def FormPart.disposition (p : FormPart) : JString :=
  FORM_DATA ++ semicolon :: parameter (ofString "name") p.fieldName ++
    (p.fileName.elim [] fun fileName => semicolon :: parameter (ofString "filename") fileName)

def FormPart.headers (p : FormPart) : List (JString × JString) :=
  (ofString "Content-Disposition", p.disposition) ::
    (p.contentType.map fun contentType => (ofString "Content-Type", contentType)).toList

/-- What follows the first boundary; `tail` is behind the last one. -/
def formRest (token tail : Bytes) : List FormPart → Bytes
  | [] => tail
  | p :: parts => FIELD_SEPARATOR ++ (getBytes (headerText p.headers) ++
      (p.content ++ (delimiterOf token ++ formRest token tail parts)))

def formBody (token : Bytes) (parts : List FormPart) (epilogue : Bytes) : Bytes :=
  dashed token ++ formRest token (STREAM_TERMINATOR ++ epilogue) parts

/-- The item that a part should become. -/
def FormPart.item (p : FormPart) : FileItem where
  stream := {
    name := p.fileName
    fieldName := p.fieldName
    contentType := p.contentType
    formField := p.fileName.isNone
    headers := (ofString "content-disposition", [p.disposition]) ::
      (p.contentType.map fun contentType => (ofString "content-type", [contentType])).toList }
  content := p.content

/-- A name that is read back from between its quotation marks. -/
structure Sent (s : JString) : Prop where
  quotable : Quotable s
  trimmed : Trimmed s
  cr : cr ∉ s
  wellFormed : WellFormed s

structure FormPart.Sendable (rt : Runtime) (token : Bytes) (p : FormPart) : Prop where
  field_ne : p.fieldName ≠ []
  field : Sent p.fieldName
  file : ∀ fileName ∈ p.fileName, Sent fileName
  type : ∀ contentType ∈ p.contentType, Trimmed contentType ∧ FileUploadBase.cr ∉ contentType ∧
    WellFormed contentType ∧ ¬MULTIPART_MIXED <+: lower rt contentType
  short : (getBytes (headerText p.headers)).length ≤ HEADER_PART_SIZE_MAX
  content : Delimiter.find (delimiterOf token) (p.content ++ delimiterOf token) =
    some p.content.length

variable {rt : Runtime} {token : Bytes} {p : FormPart}

/-! Parameters. -/

theorem parse_disposition (hfield : Sent p.fieldName) (hfile : ∀ f ∈ p.fileName, Sent f) :
    parse rt.toRuntime semicolon p.disposition =
      (lower rt FORM_DATA, none) ::
        (lower rt (ofString "name"), if p.fieldName = [] then none else some p.fieldName) ::
          (p.fileName.map fun fileName =>
            (lower rt (ofString "filename"),
              if fileName = [] then none else some fileName)).toList := by
  have hflag : p.disposition = FORM_DATA ++ semicolon :: ([blank] ++ (ofString "name" ++
      equals :: quotationMark :: (p.fieldName ++ quotationMark ::
        (p.fileName.elim [] fun fileName => semicolon ::
          parameter (ofString "filename") fileName)))) := by
    simp [FormPart.disposition, parameter]
  rw [hflag, parse_flag (by decide) (by decide) (by decide),
    parse_quoted blank_pad (by decide) (by decide) hfield.quotable ?_ (by decide)]
  · congr 2
    cases hname : p.fileName with
    | none =>
      rw [Option.elim_none, ParameterParser.skip, parse_nil]
      rfl
    | some fileName =>
      have hquoted := @parse_quoted rt.toRuntime semicolon _ _ [] _ blank_pad
        (show Inert semicolon (ofString "filename") by decide) (by decide)
        (hfile fileName hname).quotable ends_nil (by decide)
      rw [ParameterParser.skip, parse_nil] at hquoted
      rw [Option.elim_some, ParameterParser.skip, if_pos rfl]
      exact hquoted
  · cases p.fileName with
    | none => exact ends_nil
    | some fileName => exact ends_cons _

/-! What a part is. -/

theorem getFieldName_disposition (hrt : rt.Documented) (hne : p.fieldName ≠ [])
    (hfield : Sent p.fieldName) (hfile : ∀ f ∈ p.fileName, Sent f) :
    getFieldName rt (some p.disposition) = some p.fieldName := by
  have hform : FORM_DATA <+: lower rt p.disposition := by
    rw [FormPart.disposition, List.append_assoc]
    exact lower_prefix hrt (show IsAscii FORM_DATA by decide) _
  have hvalue : ParameterParser.getValue (parse rt.toRuntime semicolon p.disposition)
      (ofString "name") = some p.fieldName := by
    rw [parse_disposition hfield hfile, if_neg hne, lower_ascii (by decide),
      lower_ascii (by decide)]
    cases p.fileName with
    | none => rfl
    | some fileName =>
      rw [Option.map_some, lower_ascii (by decide)]
      rfl
  simp only [getFieldName, Option.bind_eq_bind, Option.bind_some, if_pos hform, hvalue,
    Option.map_some, trimmed_eq hfield.trimmed]

theorem getFileName_disposition (hrt : rt.Documented) (hfield : Sent p.fieldName)
    (hfile : ∀ f ∈ p.fileName, Sent f) :
    getFileName rt (some p.disposition) = p.fileName := by
  have hform : FORM_DATA <+: lower rt p.disposition := by
    rw [FormPart.disposition, List.append_assoc]
    exact lower_prefix hrt (show IsAscii FORM_DATA by decide) _
  simp only [getFileName, Option.bind_eq_bind, Option.bind_some, if_pos (Or.inl hform),
    parse_disposition hfield hfile]
  rw [lower_ascii (by decide), lower_ascii (by decide)]
  cases hname : p.fileName with
  | none => rfl
  | some fileName =>
    rw [Option.map_some, lower_ascii (by decide)]
    by_cases hnil : fileName = []
    · rw [if_pos hnil, hnil]
      rfl
    · rw [if_neg hnil]
      exact congrArg some (trimmed_eq (hfile fileName hname).trimmed)

theorem last_parameter (name value : JString) :
    (parameter name value).getLast? = some quotationMark := by
  have hconcat : parameter name value =
      (blank :: (name ++ equals :: quotationMark :: value)) ++ [quotationMark] := by
    simp [parameter]
  rw [hconcat, List.getLast?_concat]

theorem trimmed_disposition (p : FormPart) : Trimmed p.disposition := by
  rw [FormPart.disposition, List.append_assoc]
  refine ⟨fun u hu => ?_, fun u hu => ?_⟩
  · cases hu
    decide
  · have hlast : u = quotationMark := by
      cases hname : p.fileName with
      | none =>
        simpa [hname, List.getLast?_append, List.getLast?_cons, last_parameter] using hu.symm
      | some fileName =>
        simpa [hname, List.getLast?_append, List.getLast?_cons, last_parameter] using hu.symm
    rw [hlast]
    decide

theorem cr_not_mem_parameter {name value : JString} (hname : cr ∉ name) (hvalue : cr ∉ value) :
    cr ∉ parameter name value := by
  have hblank : cr ≠ blank := by decide
  have hequals : cr ≠ equals := by decide
  have hmark : cr ≠ quotationMark := by decide
  simp [parameter, hname, hvalue, hblank, hequals, hmark]

theorem wellFormed_parameter {name value : JString} (hname : WellFormed name)
    (hvalue : WellFormed value) : WellFormed (parameter name value) :=
  (show WellFormed [blank] by decide).append <| hname.append <|
    (show WellFormed [equals, quotationMark] by decide).append <| hvalue.append (by decide)

theorem oneLine_of {name value : JString}
    (hname : name ≠ [] ∧ Trimmed name ∧ colon ∉ name ∧ cr ∉ name ∧ WellFormed name)
    (htrimmed : Trimmed value) (hcr : cr ∉ value) (hwell : WellFormed value) :
    OneLine (name, value) :=
  ⟨hname.1, hname.2.1, hname.2.2.1, htrimmed, hname.2.2.2.1, hcr, hname.2.2.2.2, hwell⟩

theorem oneLine_headers (hp : p.Sendable rt token) : ∀ h ∈ p.headers, OneLine h := by
  intro h hh
  rcases List.mem_cons.mp hh with rfl | hh
  · have hfile : ∀ f ∈ p.fileName, cr ∉ f ∧ WellFormed f :=
      fun f hf => ⟨(hp.file f hf).cr, (hp.file f hf).wellFormed⟩
    have hfield := cr_not_mem_parameter (show cr ∉ ofString "name" by decide) hp.field.cr
    have hform : cr ∉ FORM_DATA := by decide
    have hsemicolon : cr ≠ semicolon := by decide
    have hnamed : WellFormed (FORM_DATA ++ semicolon :: parameter (ofString "name") p.fieldName) :=
      (wellFormed_ofString _).append <| (show WellFormed [semicolon] by decide).append <|
        wellFormed_parameter (wellFormed_ofString _) hp.field.wellFormed
    refine oneLine_of (by decide) (trimmed_disposition p) ?_ ?_
    · rw [FormPart.disposition]
      cases hname : p.fileName with
      | none => simp [hfield, hform, hsemicolon]
      | some fileName =>
        have hcr := cr_not_mem_parameter (show cr ∉ ofString "filename" by decide)
          (hfile fileName hname).1
        simp [hfield, hform, hsemicolon, hcr]
    · rw [FormPart.disposition]
      cases hname : p.fileName with
      | none => exact hnamed.append (by decide)
      | some fileName =>
        exact hnamed.append <| (show WellFormed [semicolon] by decide).append <|
          wellFormed_parameter (wellFormed_ofString _) (hfile fileName hname).2
  · obtain ⟨contentType, htype, rfl⟩ := Option.map_eq_some_iff.mp (Option.mem_toList.mp hh)
    obtain ⟨htrimmed, hcr, hwell, -⟩ := hp.type contentType htype
    exact oneLine_of (by decide) htrimmed hcr hwell

theorem parsedHeaders_part (hp : p.Sendable rt token) :
    getParsedHeaders rt (headerText p.headers) = some p.item.stream.headers := by
  rw [getParsedHeaders, parsedHeaders_text (oneLine_headers hp)]
  have hdisposition : lower rt (ofString "Content-Disposition") =
      ofString "content-disposition" := lower_ascii (by decide)
  have htype : lower rt (ofString "Content-Type") = ofString "content-type" :=
    lower_ascii (by decide)
  rw [FormPart.headers, FormPart.item]
  cases p.contentType with
  | none => simp [addHeader, hdisposition]
  | some contentType =>
    have hne : ofString "content-disposition" ≠ ofString "content-type" := by decide
    simp [addHeader, hdisposition, htype, hne]

theorem partKind_part (hrt : rt.Documented) (hp : p.Sendable rt token) :
    partKind rt none p.item.stream.headers = .item p.item.stream := by
  have hlower : lower rt CONTENT_DISPOSITION = ofString "content-disposition" :=
    lower_ascii (by decide)
  have hlower' : lower rt CONTENT_TYPE = ofString "content-type" := lower_ascii (by decide)
  have hdisposition : getHeader rt p.item.stream.headers CONTENT_DISPOSITION =
      some p.disposition := by
    simp [getHeader, hlower, FormPart.item]
  have htype : getHeader rt p.item.stream.headers CONTENT_TYPE = p.contentType := by
    have hne : ofString "content-disposition" ≠ ofString "content-type" := by decide
    cases htype : p.contentType <;> simp [getHeader, hlower', FormPart.item, htype, hne]
  have hplain : p.contentType.filter
      (fun subContentType => MULTIPART_MIXED <+: lower rt subContentType) = none := by
    rw [Option.filter_eq_none_iff]
    exact fun contentType hmem => by simpa using (hp.type contentType hmem).2.2.2
  rw [partKind]
  simp only [hdisposition, htype, hplain, getFieldName_disposition hrt hp.field_ne hp.field hp.file,
    getFileName_disposition hrt hp.field hp.file]
  rfl

/-! The body. -/

theorem dashed_ne_nil (token : Bytes) : dashed token ≠ [] := List.cons_ne_nil _ _

theorem find_dashed {before : Bytes} (hbefore : before = [] ∨ before = FIELD_SEPARATOR)
    (token rest : Bytes) :
    Delimiter.find (dashed token) (before ++ (dashed token ++ rest)) = some before.length := by
  apply Delimiter.find_eq_some_of (dashed_ne_nil token)
  · rw [List.drop_left]
    exact List.prefix_append _ _
  · rintro j hj ⟨after, hafter⟩
    rcases hbefore with rfl | rfl
    · exact Nat.not_lt_zero j hj
    · rcases j with _ | _ | j
      · simp [dashed, FIELD_SEPARATOR, DASH, CR] at hafter
      · simp [dashed, FIELD_SEPARATOR, DASH, LF] at hafter
      · exact absurd hj (by simp [FIELD_SEPARATOR])

theorem preamble_next {before : Bytes} (hbefore : before = [] ∨ before = FIELD_SEPARATOR)
    (token rest : Bytes) :
    preamble token (before ++ (dashed token ++ (FIELD_SEPARATOR ++ rest))) = .part rest := by
  rw [preamble, find_dashed hbefore]
  simp only [← List.append_assoc, ← List.length_append]
  rw [List.append_assoc (before ++ _), List.drop_left]
  rfl

/-- Anything but a line break ends the parts. -/
theorem preamble_tail {before tail : Bytes} (hbefore : before = [] ∨ before = FIELD_SEPARATOR)
    (token : Bytes) (htail : ∀ rest, marker tail ≠ .next rest) :
    ∃ rest, preamble token (before ++ (dashed token ++ tail)) = .finished rest := by
  rw [preamble, find_dashed hbefore]
  simp only [← List.append_assoc, ← List.length_append, List.drop_left]
  cases h : marker tail with
  | next rest => exact absurd h (htail rest)
  | last rest => exact ⟨_, rfl⟩
  | wrong rest => exact ⟨_, rfl⟩
  | missing => exact ⟨_, rfl⟩

theorem delimiterOf_eq (token : Bytes) : delimiterOf token = FIELD_SEPARATOR ++ dashed token := rfl

/-- The search for the next item ends at the first part. -/
theorem nextItem_part (hrt : rt.Documented) (hp : p.Sendable rt token) {before : Bytes}
    (hbefore : before = [] ∨ before = FIELD_SEPARATOR) (outer content : Bytes) :
    nextItem rt outer none token (before ++ (dashed token ++ (FIELD_SEPARATOR ++
        (getBytes (headerText p.headers) ++ content)))) =
      .item p.item.stream none token content := by
  have hpreamble := preamble_next hbefore token (getBytes (headerText p.headers) ++ content)
  have hlines := oneLine_headers hp
  have hheader := headerPart_text hlines (.inr ⟨rfl, List.cons_ne_nil _ _⟩)
    (by rw [Nat.zero_add]; exact hp.short) content
  have hdecoded := hrt.decodes _ (wellFormed_headerText hlines)
  rw [nextItem]
  split
  · rename_i rest h
    cases hpreamble.symm.trans h
  · rename_i rest h
    cases hpreamble.symm.trans h
    split
    · rename_i e h
      cases hheader.symm.trans h
    · rename_i part body h
      cases hheader.symm.trans h
      simp only [hdecoded, parsedHeaders_part hp, partKind_part hrt hp]

theorem items_finished {outer bytes : Bytes} {rest : Option Bytes}
    (hp : preamble token bytes = .finished rest) : items rt outer none token bytes = .ok [] := by
  rw [items_eq, nextItem]
  split
  · rfl
  · rename_i h
    cases hp.symm.trans h

/-- By induction on the parts; in front of each one but the first there is a line break. -/
theorem items_form (hrt : rt.Documented) {parts : List FormPart}
    (hparts : ∀ p ∈ parts, p.Sendable rt token) {before : Bytes}
    (hbefore : before = [] ∨ before = FIELD_SEPARATOR) (outer : Bytes) {tail : Bytes}
    (htail : ∀ rest, marker tail ≠ .next rest) :
    items rt outer none token (before ++ (dashed token ++ formRest token tail parts)) =
      .ok (parts.map FormPart.item) := by
  induction parts generalizing before with
  | nil =>
    obtain ⟨rest, hlast⟩ := preamble_tail hbefore token htail
    exact items_finished hlast
  | cons p parts ih =>
    have hp := hparts p List.mem_cons_self
    have hfind : Delimiter.find (delimiterOf token)
        (p.content ++ (delimiterOf token ++ formRest token tail parts)) =
          some p.content.length := by
      rw [← List.append_assoc]
      exact Delimiter.find_append hp.content _
    have hrest := ih (fun q hq => hparts q (List.mem_cons_of_mem p hq)) (.inr rfl)
    rw [items_eq, formRest, nextItem_part hrt hp hbefore, itemsFrom, hfind]
    simp only [List.drop_left, List.take_left]
    rw [delimiterOf_eq, List.append_assoc, hrest]
    rfl

/-- However much of it has come, the terminator does not begin another part. -/
theorem marker_terminator (epilogue : Bytes) (n : ℕ) (rest : Bytes) :
    marker ((STREAM_TERMINATOR ++ epilogue).take n) ≠ .next rest := by
  rcases n with _ | _ | n <;> simp [STREAM_TERMINATOR, marker, DASH, LF]

theorem marker_terminator_whole (epilogue rest : Bytes) :
    marker (STREAM_TERMINATOR ++ epilogue) ≠ .next rest := by
  have h := marker_terminator epilogue (STREAM_TERMINATOR ++ epilogue).length rest
  rwa [List.take_length] at h

theorem itemsOf_form (hrt : rt.Documented) {token : JString} (htoken : Inert semicolon token)
    (hne : token ≠ []) {parts : List FormPart} (hparts : ∀ p ∈ parts, p.Sendable rt (latin1 token))
    {tail : Bytes} (htail : ∀ rest, marker tail ≠ .next rest) :
    itemsOf rt (some (formContentType token))
        (dashed (latin1 token) ++ formRest (latin1 token) tail parts) =
      .ok (parts.map FormPart.item) := by
  rw [itemsOf, if_neg (by simp [multipart_form hrt token]), getBoundary_form rt htoken hne]
  exact items_form hrt hparts (.inl rfl) _ htail

theorem length_boundary_form (rt : Runtime) {token : JString} (htoken : Inert semicolon token)
    (hne : token ≠ []) : ∀ boundary, getBoundary rt (some (formContentType token)) = some boundary →
      boundary.length = token.length := by
  intro boundary h
  cases (getBoundary_form rt htoken hne).symm.trans h
  rw [latin1, List.length_map]

/-- A form that a browser sends is read back part by part, however it arrives: each field has its
name, its content and, if it is a file, the name and the type of that. -/
theorem form_read_back (rt : Runtime) (hrt : rt.Documented) (token : JString)
    (htoken : Inert semicolon token) (hne : token ≠ []) (parts : List FormPart)
    (hparts : ∀ p ∈ parts, p.Sendable rt (latin1 token)) (epilogue : Bytes) (plan : List ℕ)
    (bufSize : ℕ) (hbuf : token.length + BOUNDARY_PREFIX.length < bufSize) :
    (parseRequest rt bufSize (some (formContentType token))
      ⟨formBody (latin1 token) parts epilogue, plan⟩).1 = .ok (parts.map FormPart.item) := by
  rw [parseRequest_eq _ plan fun boundary h => ?_]
  · exact itemsOf_form hrt htoken hne hparts (marker_terminator_whole epilogue)
  · rwa [length_boundary_form rt htoken hne boundary h]

def note : FormPart :=
  ⟨ofString "f", some (ofString "a.txt"), some (ofString "text/plain"), [0x31, CR, LF, DASH]⟩

theorem sendable_note : note.Sendable asciiRuntime (latin1 (ofString "B7")) where
  field_ne := by decide
  field := ⟨⟨by decide, by decide, by decide⟩, by decide, by decide, by decide⟩
  file := by
    intro fileName h
    cases h
    exact ⟨⟨by decide, by decide, by decide⟩, by decide, by decide, by decide⟩
  type := by
    intro contentType h
    cases h
    exact ⟨by decide, by decide, by decide, by decide⟩
  short := by decide
  content := by decide

theorem note_read_back :
    (parseRequest asciiRuntime 16 (some (formContentType (ofString "B7")))
      ⟨formBody (latin1 (ofString "B7")) [note] [CR, LF], [1, 40, 2]⟩).1 = .ok [note.item] :=
  form_read_back asciiRuntime documented_asciiRuntime (ofString "B7") (by decide) (by decide) [note]
    (fun _ hp => List.mem_singleton.mp hp ▸ sendable_note) [CR, LF] [1, 40, 2] 16 (by decide)

end FileUploadBase
