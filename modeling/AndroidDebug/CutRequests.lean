import AndroidDebug.FormData

/-! Requests that are cut off: what was read of them before stays as it is. -/
namespace FileUploadBase

open JavaText MultipartStream ByteSource

variable {rt : Runtime} {outer token bytes rest part : Bytes} {field : Option JString}

/-! Each reading of a body is kept when more bytes follow. -/

theorem marker_append (more : Bytes) :
    (marker bytes = .next rest → marker (bytes ++ more) = .next (rest ++ more)) ∧
      (marker bytes = .last rest → marker (bytes ++ more) = .last (rest ++ more)) ∧
      (marker bytes = .wrong rest → marker (bytes ++ more) = .wrong (rest ++ more)) := by
  cases bytes with
  | nil => simp [marker]
  | cons b bytes =>
    by_cases hb : b = LF
    · simp only [marker, List.cons_append, if_pos hb, Marker.next.injEq, reduceCtorEq,
        IsEmpty.forall_iff, and_true]
      exact congrArg (· ++ more)
    · cases bytes with
      | nil => simp [marker, hb]
      | cons c bytes =>
        simp only [marker, List.cons_append, if_neg hb]
        split_ifs <;> simp +contextual

theorem drop_dashed_append {i : ℕ} (hfind : Delimiter.find (dashed token) bytes = some i)
    (more : Bytes) : (bytes ++ more).drop (i + (dashed token).length) =
      bytes.drop (i + (dashed token).length) ++ more := by
  have hle := (Delimiter.find_add_length_le hfind).resolve_right (dashed_ne_nil token)
  exact List.drop_append_of_le_length hle

theorem preamble_append (hp : preamble token bytes = .part rest) (more : Bytes) :
    preamble token (bytes ++ more) = .part (rest ++ more) := by
  rw [preamble] at hp ⊢
  cases hfind : Delimiter.find (dashed token) bytes with
  | none =>
    rw [hfind] at hp
    cases hp
  | some i =>
    rw [Delimiter.find_append hfind]
    simp only [hfind] at hp
    simp only [drop_dashed_append hfind]
    cases hmarker : marker (bytes.drop (i + (dashed token).length)) with
    | next after =>
      rw [hmarker] at hp
      cases hp
      rw [(marker_append more).1 hmarker]
    | last after => rw [hmarker] at hp; cases hp
    | wrong after => rw [hmarker] at hp; cases hp
    | missing => rw [hmarker] at hp; cases hp

/-- If the end of the parts depends on what follows, little is left to read. -/
theorem preamble_finished (hp : preamble token bytes = .finished (some rest)) :
    (∀ more, preamble token (bytes ++ more) = .finished (some (rest ++ more))) ∨
      rest.length ≤ BOUNDARY_PREFIX.length + token.length := by
  rw [preamble] at hp
  cases hfind : Delimiter.find (dashed token) bytes with
  | none =>
    rw [hfind] at hp
    cases hp
    right
    rw [List.length_drop]
    omega
  | some i =>
    left
    intro more
    rw [preamble, Delimiter.find_append hfind]
    simp only [hfind] at hp
    simp only [drop_dashed_append hfind]
    cases hmarker : marker (bytes.drop (i + (dashed token).length)) with
    | next after => rw [hmarker] at hp; cases hp
    | last after =>
      rw [hmarker] at hp
      cases hp
      rw [(marker_append more).2.1 hmarker]
    | wrong after =>
      rw [hmarker] at hp
      cases hp
      rw [(marker_append more).2.2 hmarker]
    | missing => rw [hmarker] at hp; cases hp

theorem headerPart_extend {i size : ℕ} (h : headerPart i size bytes = .ok (part, rest))
    (more : Bytes) : headerPart i size (bytes ++ more) = .ok (part, rest ++ more) := by
  induction bytes generalizing i size part with
  | nil =>
    rw [headerPart] at h
    split_ifs at h with hi
    cases h
    exact headerPart_complete hi size more
  | cons b bytes ih =>
    rw [headerPart] at h
    by_cases hi : HEADER_SEPARATOR.length ≤ i
    · rw [if_pos hi] at h
      cases h
      exact headerPart_complete hi size _
    by_cases hmax : HEADER_PART_SIZE_MAX < size + 1
    · rw [if_neg hi, if_pos hmax] at h
      cases h
    rw [if_neg hi, if_neg hmax] at h
    cases hnext : headerPart (if HEADER_SEPARATOR[i]? = some b then i + 1 else 0) (size + 1)
        bytes with
    | error e => rw [hnext] at h; cases h
    | ok next =>
      rw [hnext] at h
      cases h
      exact headerPart_map (by omega) (by omega) (ih hnext)

/-- A header section has at least its separator. -/
theorem headerPart_least {i size : ℕ} (h : headerPart i size bytes = .ok (part, rest)) :
    HEADER_SEPARATOR.length ≤ i + part.length := by
  induction bytes generalizing i size part with
  | nil =>
    rw [headerPart] at h
    split_ifs at h with hi
    exact Nat.le_add_right_of_le hi
  | cons b bytes ih =>
    rw [headerPart] at h
    by_cases hi : HEADER_SEPARATOR.length ≤ i
    · exact Nat.le_add_right_of_le hi
    by_cases hmax : HEADER_PART_SIZE_MAX < size + 1
    · rw [if_neg hi, if_pos hmax] at h
      cases h
    rw [if_neg hi, if_neg hmax] at h
    cases hnext : headerPart (if HEADER_SEPARATOR[i]? = some b then i + 1 else 0) (size + 1)
        bytes with
    | error e => rw [hnext] at h; cases h
    | ok next =>
      rw [hnext] at h
      cases h
      have hle := ih hnext
      rw [List.length_cons]
      split_ifs at hle <;> omega

/-! The next item. -/

variable (rt outer)

/-- What comes of a part whose header section has been read. -/
def partRead (field : Option JString) (token part body : Bytes) : Next :=
  match getParsedHeaders rt (rt.decodeHeaders part) with
  | none => .failed .illegalState
  | some headers =>
    match partKind rt field headers with
    | .item item => .item item field token body
    | .mixed fieldName subContentType =>
      match getBoundary rt (some subContentType) with
      | none => .failed .nullPointer
      | some subBoundary =>
        if subBoundary.length ≠ token.length then .failed (.multipart .illegalBoundary)
        else nextItem rt outer (some fieldName) subBoundary body
    | .ignored =>
      match Delimiter.find (delimiterOf token) body with
      | none => .failed (.multipart .streamEnded)
      | some i => nextItem rt outer field token (body.drop i)

variable {rt outer} {body : Bytes}

theorem nextItem_read (field : Option JString) (hp : preamble token bytes = .part rest)
    (hh : headerPart 0 0 rest = .ok (part, body)) :
    nextItem rt outer field token bytes = partRead rt outer field token part body := by
  rw [nextItem]
  split
  · rename_i h
    cases hp.symm.trans h
  · rename_i h
    cases hp.symm.trans h
    split
    · rename_i h
      cases hh.symm.trans h
    · rename_i h
      cases hh.symm.trans h
      rfl

theorem nextItem_nested (fieldName : JString)
    (hp : preamble token bytes = .finished (some rest)) :
    nextItem rt outer (some fieldName) token bytes = nextItem rt outer none outer rest := by
  rw [nextItem]
  split
  · rename_i h
    cases hp.symm.trans h
    rfl
  · rename_i h
    cases hp.symm.trans h

theorem nextItem_short (h : bytes.length ≤ BOUNDARY_PREFIX.length + token.length)
    (item : FileItemStream) (field' : Option JString) (token' : Bytes) :
    nextItem rt outer none token bytes ≠ .item item field' token' body := by
  rw [nextItem]
  split
  · simp
  · rename_i after hp
    have hrest : after.length ≤ 1 := by
      rw [preamble] at hp
      cases hfind : Delimiter.find (dashed token) bytes with
      | none =>
        rw [hfind] at hp
        cases hp
      | some i =>
        simp only [hfind] at hp
        cases hmarker : marker (bytes.drop (i + (dashed token).length)) with
        | next after =>
          rw [hmarker] at hp
          cases hp
          have hlt := marker_next_length hmarker
          simp only [List.length_drop, dashed, List.length_cons] at hlt
          simp only [BOUNDARY_PREFIX, List.length_cons, List.length_nil] at h
          omega
        | last after => rw [hmarker] at hp; cases hp
        | wrong after => rw [hmarker] at hp; cases hp
        | missing => rw [hmarker] at hp; cases hp
    split
    · simp
    · rename_i part body' hh
      have hleast := headerPart_least hh
      rw [headerPart_append hh, List.length_append] at hrest
      simp only [HEADER_SEPARATOR, List.length_cons, List.length_nil] at hleast
      omega

/-- An item that has been found is found in every longer body. -/
theorem nextItem_append {field field' : Option JString} {token token' bytes body : Bytes}
    {item : FileItemStream} (hlen : token.length = outer.length)
    (h : nextItem rt outer field token bytes = .item item field' token' body) (more : Bytes) :
    nextItem rt outer field token (bytes ++ more) = .item item field' token' (body ++ more) ∧
      token'.length = outer.length := by
  fun_induction nextItem rt outer field token bytes with
  | case1 | case2 | case4 | case5 | case7 | case8 | case10 => cases h
  | case3 token bytes fieldName rest hp hle ih =>
    rcases preamble_finished hp with hp' | hshort
    · rw [nextItem_nested fieldName (hp' more)]
      exact ih rfl h
    · rw [hlen] at hshort
      exact absurd h (nextItem_short hshort item field' token')
  | case6 field token bytes rest hp hlt part body hh hle headers hparsed item' hkind =>
    cases h
    rw [nextItem_read _ (preamble_append hp more) (headerPart_extend hh more), partRead]
    simp only [hparsed, hkind]
    exact ⟨trivial, hlen⟩
  | case9 field token bytes rest hp hlt part body hh hle headers hparsed fieldName subContentType
      hkind subBoundary hboundary hsame ih =>
    rw [nextItem_read field (preamble_append hp more) (headerPart_extend hh more), partRead]
    simp only [hparsed, hkind, hboundary, if_neg hsame]
    exact ih ((not_not.mp hsame).trans hlen) h
  | case11 field token bytes rest hp hlt part body hh hle headers hparsed hkind i hfind ih =>
    rw [nextItem_read field (preamble_append hp more) (headerPart_extend hh more), partRead]
    simp only [hparsed, hkind, Delimiter.find_append hfind,
      List.drop_append_of_le_length (Delimiter.find_le_length hfind)]
    exact ih hlen h

/-! The items. -/

/-- By induction on the items of the shorter body. -/
theorem items_append (hlen : token.length = outer.length) {files : List FileItem}
    (h : items rt outer field token bytes = .ok files) (more : Bytes) :
    ∃ others : Except Failure (List FileItem),
      items rt outer field token (bytes ++ more) = others.map (files ++ ·) := by
  fun_induction items rt outer field token bytes generalizing files with
  | case1 => cases h
  | case2 field token bytes hnext =>
    cases h
    exact ⟨items rt outer field token (bytes ++ more), by
      cases items rt outer field token (bytes ++ more) <;> rfl⟩
  | case3 => cases h
  | case4 field token bytes item field' token' body hnext i hfind hlt ih =>
    obtain ⟨hlonger, hlen'⟩ := nextItem_append hlen hnext more
    cases hrest : items rt outer field' token' (body.drop i) with
    | error e =>
      rw [hrest] at h
      cases h
    | ok after =>
      rw [hrest] at h
      cases h
      obtain ⟨others, hothers⟩ := ih hlen' hrest
      have hi := Delimiter.find_le_length hfind
      refine ⟨others, ?_⟩
      rw [items_eq, hlonger, itemsFrom, Delimiter.find_append hfind]
      simp only [List.drop_append_of_le_length hi, List.take_append_of_le_length hi, hothers]
      cases others <;> rfl

theorem itemsOf_append {contentType : Option JString} {cut : Bytes} {files : List FileItem}
    (h : itemsOf rt contentType cut = .ok files) (more : Bytes) :
    ∃ others : Except Failure (List FileItem),
      itemsOf rt contentType (cut ++ more) = others.map (files ++ ·) := by
  rw [itemsOf] at h ⊢
  split_ifs at h ⊢
  cases hboundary : getBoundary rt contentType with
  | none =>
    rw [hboundary] at h
    cases h
  | some boundary =>
    rw [hboundary] at h
    exact items_append rfl h more

/-- If a request that was cut off is accepted, the files that it brings are the first ones of the
whole request, and none of them is shorter. -/
theorem cut_request_keeps_files (rt : Runtime) (contentType : Option JString) (cut more : Bytes)
    (plan plan' : List ℕ) (bufSize : ℕ) (files whole : List FileItem)
    (h : ∀ boundary, getBoundary rt contentType = some boundary →
      boundary.length + BOUNDARY_PREFIX.length < bufSize)
    (hcut : (parseRequest rt bufSize contentType ⟨cut, plan⟩).1 = .ok files)
    (hwhole : (parseRequest rt bufSize contentType ⟨cut ++ more, plan'⟩).1 = .ok whole) :
    files <+: whole := by
  rw [parseRequest_eq cut plan h] at hcut
  rw [parseRequest_eq (cut ++ more) plan' h] at hwhole
  obtain ⟨others, hothers⟩ := itemsOf_append hcut more
  rw [hwhole] at hothers
  cases others with
  | error e => cases hothers
  | ok others =>
    cases hothers
    exact List.prefix_append files others

/-- A form of two files that ends behind the boundary between them. -/
theorem cut_request_keeps_note : [note.item] <+: [note, note].map FormPart.item := by
  have hparts : ∀ p ∈ [note, note], p.Sendable asciiRuntime (latin1 (ofString "B7")) := by
    intro p hp
    simp only [List.mem_cons, List.not_mem_nil, or_false, or_self] at hp
    exact hp ▸ sendable_note
  have hroom : ∀ boundary, getBoundary asciiRuntime (some (formContentType (ofString "B7"))) =
      some boundary → boundary.length + BOUNDARY_PREFIX.length < 16 := by
    intro boundary h
    rw [length_boundary_form asciiRuntime (by decide) (by decide) boundary h]
    decide
  refine cut_request_keeps_files asciiRuntime (some (formContentType (ofString "B7")))
    (dashed (latin1 (ofString "B7")) ++ formRest (latin1 (ofString "B7")) [] [note])
    (formRest (latin1 (ofString "B7")) (STREAM_TERMINATOR ++ []) [note]) [5] [] 16 _ _ hroom ?_ ?_
  · rw [parseRequest_eq _ _ hroom]
    exact itemsOf_form documented_asciiRuntime (by decide) (by decide)
      (fun p hp => hparts p (List.mem_cons_of_mem note hp)) (fun rest h => by cases h)
  · rw [parseRequest_eq _ _ hroom, List.append_assoc]
    exact itemsOf_form documented_asciiRuntime (by decide) (by decide) hparts
      (marker_terminator_whole [])

/-! A form that is cut off. -/

theorem headerPart_cut {i size : ℕ} {cut more : Bytes}
    (h : headerPart i size (cut ++ more) = .ok (part, rest)) (hcut : cut.length < part.length) :
    headerPart i size cut = .error .streamEnded := by
  induction cut generalizing i size part with
  | nil =>
    rw [headerPart, if_neg]
    intro hi
    rw [headerPart_complete hi] at h
    cases h
    exact Nat.not_lt_zero _ hcut
  | cons b cut ih =>
    rw [List.cons_append, headerPart] at h
    by_cases hi : HEADER_SEPARATOR.length ≤ i
    · rw [if_pos hi] at h
      cases h
      exact absurd hcut (Nat.not_lt_zero _)
    by_cases hmax : HEADER_PART_SIZE_MAX < size + 1
    · rw [if_neg hi, if_pos hmax] at h
      cases h
    rw [if_neg hi, if_neg hmax] at h
    cases hnext : headerPart (if HEADER_SEPARATOR[i]? = some b then i + 1 else 0) (size + 1)
        (cut ++ more) with
    | error e => rw [hnext] at h; cases h
    | ok next =>
      rw [hnext] at h
      cases h
      rw [headerPart, if_neg hi, if_neg hmax, ih hnext (Nat.lt_of_succ_lt_succ hcut)]
      rfl

theorem find_cut {d content : Bytes} (hd : d ≠ [])
    (h : Delimiter.find d (content ++ d) = some content.length) {n : ℕ}
    (hn : n < content.length + d.length) (more : Bytes) :
    Delimiter.find d ((content ++ (d ++ more)).take n) = none := by
  rw [← List.append_assoc, List.take_append_of_le_length (by rw [List.length_append]; omega)]
  cases hfind : Delimiter.find d ((content ++ d).take n) with
  | none => rfl
  | some i =>
    have hwhole := Delimiter.find_append hfind ((content ++ d).drop n)
    rw [List.take_append_drop, h] at hwhole
    cases hwhole
    have hle := (Delimiter.find_add_length_le hfind).resolve_right hd
    rw [List.length_take, List.length_append] at hle
    omega

theorem items_cut_boundary {before : Bytes} (hbefore : before = [] ∨ before = FIELD_SEPARATOR)
    {n : ℕ} (hn : n < before.length + (dashed token).length) (more : Bytes) :
    items rt outer none token ((before ++ (dashed token ++ more)).take n) = .ok [] := by
  have hwhole := find_dashed hbefore token []
  rw [List.append_nil] at hwhole
  have hfind := find_cut (dashed_ne_nil token) hwhole hn more
  exact items_finished (by rw [preamble, hfind])

/-- A part of which not everything has come is a failure. -/
theorem items_cut_part {p : FormPart} (hrt : rt.Documented) (hp : p.Sendable rt token)
    {before : Bytes} (hbefore : before = [] ∨ before = FIELD_SEPARATOR) (n : ℕ) (more : Bytes)
    (hn : n < (getBytes (headerText p.headers)).length + (p.content ++ delimiterOf token).length) :
    items rt outer none token (before ++ (dashed token ++ (FIELD_SEPARATOR ++
        (getBytes (headerText p.headers) ++ (p.content ++ (delimiterOf token ++ more))).take n))) =
      .error (.multipart .streamEnded) := by
  have hheader := headerPart_text (oneLine_headers hp) (.inr ⟨rfl, List.cons_ne_nil _ _⟩)
    (by rw [Nat.zero_add]; exact hp.short)
  rw [List.take_append]
  by_cases hshort : n < (getBytes (headerText p.headers)).length
  · have hcut : headerPart 0 0 ((getBytes (headerText p.headers)).take n) =
        .error .streamEnded := by
      have hwhole := hheader []
      rw [List.append_nil] at hwhole
      rw [← List.take_append_drop n (getBytes (headerText p.headers))] at hwhole
      refine headerPart_cut hwhole ?_
      rw [List.take_append_drop, List.length_take]
      omega
    have hpreamble := preamble_next hbefore token ((getBytes (headerText p.headers)).take n)
    rw [Nat.sub_eq_zero_of_le hshort.le, List.take_zero, List.append_nil, items_eq, nextItem]
    split
    · rename_i h
      cases hpreamble.symm.trans h
    · rename_i h
      cases hpreamble.symm.trans h
      split
      · rename_i h
        cases hcut.symm.trans h
        rfl
      · rename_i h
        cases hcut.symm.trans h
  · rw [List.length_append] at hn
    rw [List.take_of_length_le (Nat.le_of_not_lt hshort), items_eq, nextItem_part hrt hp hbefore,
      itemsFrom, find_cut (delimiterOf_ne_nil token) hp.content (by omega)]

theorem take_append_of_le {a b : Bytes} {n : ℕ} (h : a.length ≤ n) :
    (a ++ b).take n = a ++ b.take (n - a.length) := by
  rw [List.take_append, List.take_of_length_le h]

theorem items_tail {before tail : Bytes} (hbefore : before = [] ∨ before = FIELD_SEPARATOR)
    (htail : ∀ rest, marker tail ≠ .next rest) :
    items rt outer none token (before ++ (dashed token ++ tail)) = .ok [] := by
  obtain ⟨rest, hlast⟩ := preamble_tail hbefore token htail
  exact items_finished hlast

/-- Half of a line break does not begin another part. -/
theorem marker_separator {n : ℕ} (hn : n < FIELD_SEPARATOR.length) (more rest : Bytes) :
    marker ((FIELD_SEPARATOR ++ more).take n) ≠ .next rest := by
  rcases n with _ | _ | n
  · simp [marker]
  · simp [FIELD_SEPARATOR, marker, CR, LF]
  · simp only [FIELD_SEPARATOR, List.length_cons, List.length_nil] at hn
    omega

/-- By induction on the parts: the cut is in front of the first one, in it, or behind it. -/
theorem items_cut_form (hrt : rt.Documented) {parts : List FormPart}
    (hparts : ∀ p ∈ parts, p.Sendable rt token) {before : Bytes}
    (hbefore : before = [] ∨ before = FIELD_SEPARATOR) (outer epilogue : Bytes) (n : ℕ) :
    (∃ k, items rt outer none token ((before ++ (dashed token ++
        formRest token (STREAM_TERMINATOR ++ epilogue) parts)).take n) =
          .ok ((parts.take k).map FormPart.item)) ∨
      items rt outer none token ((before ++ (dashed token ++
        formRest token (STREAM_TERMINATOR ++ epilogue) parts)).take n) =
          .error (.multipart .streamEnded) := by
  induction parts generalizing before n with
  | nil =>
    by_cases hn : n < before.length + (dashed token).length
    · exact .inl ⟨0, items_cut_boundary hbefore hn _⟩
    · rw [take_append_of_le (by omega), take_append_of_le (by omega)]
      exact .inl ⟨0, items_tail hbefore (marker_terminator epilogue _)⟩
  | cons p parts ih =>
    have hp := hparts p List.mem_cons_self
    by_cases hn : n < before.length + (dashed token).length
    · exact .inl ⟨0, items_cut_boundary hbefore hn _⟩
    rw [take_append_of_le (by omega), take_append_of_le (by omega), formRest]
    generalize n - before.length - (dashed token).length = m
    by_cases hm : m < FIELD_SEPARATOR.length
    · exact .inl ⟨0, items_tail hbefore (marker_separator hm _)⟩
    rw [take_append_of_le (Nat.le_of_not_lt hm)]
    generalize m - FIELD_SEPARATOR.length = l
    by_cases hl : l < (getBytes (headerText p.headers)).length +
        (p.content ++ delimiterOf token).length
    · exact .inr (items_cut_part hrt hp hbefore l _ hl)
    rw [List.length_append] at hl
    rw [take_append_of_le (by omega), take_append_of_le (by omega), take_append_of_le (by omega)]
    generalize l - (getBytes (headerText p.headers)).length - p.content.length -
      (delimiterOf token).length = q
    have hfind : Delimiter.find (delimiterOf token) (p.content ++ (delimiterOf token ++
        (formRest token (STREAM_TERMINATOR ++ epilogue) parts).take q)) =
          some p.content.length := by
      rw [← List.append_assoc]
      exact Delimiter.find_append hp.content _
    have hrest := ih (fun r hr => hparts r (List.mem_cons_of_mem p hr)) (.inr rfl)
      (FIELD_SEPARATOR.length + ((dashed token).length + q))
    rw [take_append_of_le (Nat.le_add_right _ _), Nat.add_sub_cancel_left,
      take_append_of_le (Nat.le_add_right _ _), Nat.add_sub_cancel_left] at hrest
    rw [items_eq, nextItem_part hrt hp hbefore, itemsFrom, hfind]
    simp only [List.drop_left, List.take_left]
    rw [delimiterOf_eq, List.append_assoc]
    rcases hrest with ⟨k, hk⟩ | herror
    · refine .inl ⟨k + 1, ?_⟩
      rw [hk]
      rfl
    · refine .inr ?_
      rw [herror]
      rfl

theorem itemsOf_cut_form (hrt : rt.Documented) {token : JString}
    (htoken : ParameterParser.Inert semicolon token) (hne : token ≠ []) {parts : List FormPart}
    (hparts : ∀ p ∈ parts, p.Sendable rt (latin1 token)) (epilogue : Bytes) (n : ℕ) :
    (∃ k, itemsOf rt (some (formContentType token))
        ((formBody (latin1 token) parts epilogue).take n) =
          .ok ((parts.take k).map FormPart.item)) ∨
      itemsOf rt (some (formContentType token))
        ((formBody (latin1 token) parts epilogue).take n) =
          .error (.multipart .streamEnded) := by
  rw [itemsOf, if_neg (by simp [multipart_form hrt token]), getBoundary_form rt htoken hne]
  exact items_cut_form hrt hparts (.inl rfl) _ epilogue n

/-- A form that is cut off anywhere fails, or its first files come in full and the others are
missing. -/
theorem cut_form_read (rt : Runtime) (hrt : rt.Documented) (token : JString)
    (htoken : ParameterParser.Inert semicolon token) (hne : token ≠ []) (parts : List FormPart)
    (hparts : ∀ p ∈ parts, p.Sendable rt (latin1 token)) (epilogue : Bytes) (n : ℕ)
    (plan : List ℕ) (bufSize : ℕ) (hbuf : token.length + BOUNDARY_PREFIX.length < bufSize) :
    (∃ k, (parseRequest rt bufSize (some (formContentType token))
        ⟨(formBody (latin1 token) parts epilogue).take n, plan⟩).1 =
          .ok ((parts.take k).map FormPart.item)) ∨
      (parseRequest rt bufSize (some (formContentType token))
        ⟨(formBody (latin1 token) parts epilogue).take n, plan⟩).1 =
          .error (.multipart .streamEnded) := by
  have hroom : ∀ boundary, getBoundary rt (some (formContentType token)) = some boundary →
      boundary.length + BOUNDARY_PREFIX.length < bufSize := by
    intro boundary h
    rwa [length_boundary_form rt htoken hne boundary h]
  rw [parseRequest_eq _ plan hroom]
  exact itemsOf_cut_form hrt htoken hne hparts epilogue n

/-- Two files, cut off inside the boundary between them. -/
theorem cut_form_read_note :
    (∃ k, (parseRequest asciiRuntime 16 (some (formContentType (ofString "B7")))
        ⟨(formBody (latin1 (ofString "B7")) [note, note] []).take 100, [7]⟩).1 =
          .ok (([note, note].take k).map FormPart.item)) ∨
      (parseRequest asciiRuntime 16 (some (formContentType (ofString "B7")))
        ⟨(formBody (latin1 (ofString "B7")) [note, note] []).take 100, [7]⟩).1 =
          .error (.multipart .streamEnded) := by
  refine cut_form_read asciiRuntime documented_asciiRuntime (ofString "B7") (by decide) (by decide)
    [note, note] (fun p hp => ?_) [] 100 [7] 16 (by decide)
  simp only [List.mem_cons, List.not_mem_nil, or_false, or_self] at hp
  exact hp ▸ sendable_note

end FileUploadBase
