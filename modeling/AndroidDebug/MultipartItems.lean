import AndroidDebug.FormHeaders

/-! What a request body says, read as a whole: the items that the buffered reader must find. -/
namespace FileUploadBase

open JavaText MultipartStream ByteSource

/-! Each step leaves less of the body. -/

theorem marker_next_length {bytes rest : Bytes} (h : marker bytes = .next rest) :
    rest.length < bytes.length := by
  rw [marker.eq_def] at h
  split at h
  · cases h
  · split at h
    · cases h
      exact Nat.lt_succ_self _
    · split at h
      · cases h
      · split_ifs at h
        cases h
        exact Nat.lt_succ_of_lt (Nat.lt_succ_self _)

theorem marker_over_length {bytes rest : Bytes}
    (h : marker bytes = .last rest ∨ marker bytes = .wrong rest) : rest.length ≤ bytes.length := by
  rw [marker.eq_def] at h
  split at h
  · simp at h
  · split at h
    · simp at h
    · split at h
      · simp at h
      · split_ifs at h <;> rcases h with h | h <;> cases h <;>
          simp only [List.length_cons] <;> omega

theorem preamble_part_length {token bytes rest : Bytes} (h : preamble token bytes = .part rest) :
    rest.length < bytes.length := by
  rw [preamble] at h
  split at h
  · cases h
  · split at h
    · rename_i i hfind rest' hmarker
      cases h
      have := marker_next_length hmarker
      rw [List.length_drop] at this
      omega
    all_goals cases h

theorem preamble_finished_length {token bytes rest : Bytes}
    (h : preamble token bytes = .finished (some rest)) : rest.length ≤ bytes.length := by
  rw [preamble] at h
  split at h
  · cases h
    rw [List.length_drop]
    exact Nat.sub_le _ _
  · split at h
    · cases h
    · rename_i i hfind rest' hmarker
      cases h
      have := marker_over_length (.inl hmarker)
      rw [List.length_drop] at this
      omega
    · rename_i i hfind rest' hmarker
      cases h
      have := marker_over_length (.inr hmarker)
      rw [List.length_drop] at this
      omega
    · cases h

theorem headerPart_append {i size : ℕ} {bytes part rest : Bytes}
    (h : headerPart i size bytes = .ok (part, rest)) : bytes = part ++ rest := by
  induction bytes generalizing i size part with
  | nil =>
    rw [headerPart] at h
    split_ifs at h
    cases h
    rfl
  | cons b bytes ih =>
    rw [headerPart] at h
    by_cases hi : HEADER_SEPARATOR.length ≤ i
    · rw [if_pos hi] at h
      cases h
      rfl
    by_cases hmax : HEADER_PART_SIZE_MAX < size + 1
    · rw [if_neg hi, if_pos hmax] at h
      cases h
    rw [if_neg hi, if_neg hmax] at h
    cases hnext : headerPart (if HEADER_SEPARATOR[i]? = some b then i + 1 else 0) (size + 1)
        bytes with
    | error e => rw [hnext] at h; cases h
    | ok next =>
      rw [hnext] at h
      cases h
      exact congrArg (b :: ·) (ih hnext)

theorem headerPart_length {bytes part rest : Bytes}
    (h : headerPart 0 0 bytes = .ok (part, rest)) : rest.length ≤ bytes.length := by
  rw [headerPart_append h, List.length_append]
  exact Nat.le_add_left _ _

/-! The items of a body. -/

/-- The next item with the delimiter that ends it and the bytes from its content on. -/
inductive Next where
  | item (item : FileItemStream) (field : Option JString) (token body : Bytes)
  | finished
  | failed (e : Failure)

variable (rt : Runtime) (outer : Bytes)

/-- While a nested body is read `field` is its name, and after it the outer one goes on. -/
def nextItem (field : Option JString) (token bytes : Bytes) : Next :=
  match h : preamble token bytes with
  | .finished rest =>
    match field, rest with
    | none, _ => .finished
    | some _, none => .failed (.multipart .indexOutOfBounds)
    | some _, some rest =>
      have := preamble_finished_length (h.trans (by rfl))
      nextItem none outer rest
  | .part rest =>
    have := preamble_part_length h
    match hh : headerPart 0 0 rest with
    | .error e => .failed (.multipart e)
    | .ok (part, body) =>
      have := headerPart_length hh
      match getParsedHeaders rt (rt.decodeHeaders part) with
      | none => .failed .illegalState
      | some headers =>
        match partKind rt field headers with
        | .item item => .item item field token body
        | .mixed fieldName subContentType =>
          match getBoundary rt (some subContentType) with
          | none => .failed .nullPointer
          | some subBoundary =>
            if subBoundary.length ≠ token.length then .failed (.multipart .illegalBoundary)
            else nextItem (some fieldName) subBoundary body
        | .ignored =>
          match Delimiter.find (delimiterOf token) body with
          | none => .failed (.multipart .streamEnded)
          | some i => nextItem field token (body.drop i)
termination_by 2 * bytes.length + if field.isSome then 1 else 0
decreasing_by
  all_goals
    simp only [List.length_drop, Option.isSome_some, Option.isSome_none, Bool.false_eq_true,
      if_true, if_false]
    omega

variable {rt outer}

theorem nextItem_shortens {field field' : Option JString} {token token' bytes body : Bytes}
    {item : FileItemStream}
    (h : nextItem rt outer field token bytes = .item item field' token' body) :
    body.length < bytes.length := by
  fun_induction nextItem rt outer field token bytes with
  | case3 token bytes _ rest hpreamble hle ih => exact (ih h).trans_le hle
  | case6 =>
    cases h
    omega
  | case9 field token bytes rest _ hlt part body₁ _ hle headers _ _ _ _ subBoundary _ _ ih =>
    have := ih h
    omega
  | case11 field token bytes rest _ hlt part body₁ _ hle headers _ _ i _ ih =>
    have := ih h
    rw [List.length_drop] at this
    omega
  | case1 | case2 | case4 | case5 | case7 | case8 | case10 => cases h

variable (rt outer)

/-- The items from here on, each with the bytes up to the next delimiter. -/
def items (field : Option JString) (token bytes : Bytes) : Except Failure (List FileItem) :=
  match h : nextItem rt outer field token bytes with
  | .failed e => .error e
  | .finished => .ok []
  | .item item field token body =>
    match Delimiter.find (delimiterOf token) body with
    | none => .error (.multipart .streamEnded)
    | some i =>
      have := nextItem_shortens h
      (items field token (body.drop i)).map (⟨item, body.take i⟩ :: ·)
termination_by bytes.length
decreasing_by
  rw [List.length_drop]
  omega

/-- The items once the next one has been found. -/
def itemsFrom : Next → Except Failure (List FileItem)
  | .failed e => .error e
  | .finished => .ok []
  | .item item field token body =>
    match Delimiter.find (delimiterOf token) body with
    | none => .error (.multipart .streamEnded)
    | some i => (items rt outer field token (body.drop i)).map (⟨item, body.take i⟩ :: ·)

theorem items_eq (field : Option JString) (token bytes : Bytes) :
    items rt outer field token bytes =
      itemsFrom rt outer (nextItem rt outer field token bytes) := by
  rw [items]
  split
  · rename_i e h
    rw [h, itemsFrom]
  · rename_i h
    rw [h, itemsFrom]
  · rename_i item field token body h
    conv_rhs => rw [h, itemsFrom]

def itemsOf (contentType : Option JString) (bytes : Bytes) : Except Failure (List FileItem) :=
  if (contentType.filter fun c => MULTIPART <+: lower rt c).isNone then .error .invalidContentType
  else
    match getBoundary rt contentType with
    | none => .error .noBoundary
    | some boundary => items rt boundary none boundary bytes

/-! The reader of the items finds them. -/

variable {rt}

/-- The reader between two parts: nothing has been taken from the next one. -/
structure Between (it : FileItemIterator) (field : Option JString) (token bytes : Bytes) :
    Prop where
  good : Good it.multi token
  pending_eq : pending it.multi = bytes
  field_eq : it.currentFieldName = field
  skips : it.skipPreamble = true
  not_eof : it.eof = false
  length_eq : token.length = it.boundary.length

inductive Found (boundary : Bytes) : Next → Except Failure Bool × FileItemIterator → Prop
  | item {it : FileItemIterator} {item : FileItemStream} {inner : Item} {field : Option JString}
      {token body : Bytes} (between : Between it field token body)
      (boundary_eq : it.boundary = boundary) (current : it.currentItem = some (item, inner))
      (valid : it.itemValid = true) (aligned : Aligned it.multi inner)
      (opened : inner.closed = false) :
      Found boundary (.item item field token body) (.ok true, it)
  | finished {it : FileItemIterator} (eof : it.eof = true) :
      Found boundary .finished (.ok false, it)
  | failed {it : FileItemIterator} (e : Failure) : Found boundary (.failed e) (.error e, it)

theorem Between.congr {it : FileItemIterator} {field field' : Option JString}
    {token token' bytes bytes' : Bytes} {multi : Stream} (h : Between it field token bytes)
    (hgood : Good multi token') (hpending : pending multi = bytes')
    (hlen : token'.length = token.length) :
    Between { it with multi, currentFieldName := field' } field' token' bytes' :=
  ⟨hgood, hpending, rfl, h.skips, h.not_eof, hlen.trans h.length_eq⟩

/-- Outside a nested body there are no bytes to lose: the last refill has failed. -/
theorem nextItemLoop_drained {it : FileItemIterator} (fuel : ℕ) (hhead : it.multi.head = 0)
    (htail : it.multi.tail = -1) (hskips : it.skipPreamble = true) :
    ∃ it', nextItemLoop rt (fuel + 1) it = (.error (.multipart .indexOutOfBounds), it') := by
  have hskip := skipPreamble_drained hhead htail
  rw [nextItemLoop]
  simp only [hskips, if_true, hskip]
  exact ⟨_, rfl⟩

variable {it : FileItemIterator} {field : Option JString} {token bytes : Bytes}

theorem nextItemLoop_ended (fuel : ℕ) (h : Between it field token bytes) {rest : Option Bytes}
    (hp : preamble token bytes = .finished rest) :
    ∃ multi, nextItemLoop rt (fuel + 1) it = bodyEnded (nextItemLoop rt fuel) { it with multi } ∧
      match rest with
      | some rest => Good multi token ∧ pending multi = rest
      | none => multi.head = 0 ∧ multi.tail = -1 ∧
          multi.boundaryLength = BOUNDARY_PREFIX.length + token.length := by
  have hskipped := skipPreamble_skipped h.good
  rw [h.pending_eq, hp] at hskipped
  rw [nextItemLoop]
  simp only [h.skips, if_true]
  generalize MultipartStream.skipPreamble it.multi = r at hskipped
  cases hskipped with
  | @finished multi rest good pending_eq => exact ⟨multi, rfl, good, pending_eq⟩
  | @drained multi head_eq tail_eq boundary => exact ⟨multi, rfl, head_eq, tail_eq, boundary⟩

theorem nextItemLoop_part (fuel : ℕ) (h : Between it field token bytes) {rest : Bytes}
    (hp : preamble token bytes = .part rest) :
    ∃ multi, nextItemLoop rt (fuel + 1) it = partBegun rt (nextItemLoop rt fuel) { it with multi } ∧
      Good multi token ∧ pending multi = rest := by
  have hskipped := skipPreamble_skipped h.good
  rw [h.pending_eq, hp] at hskipped
  rw [nextItemLoop]
  simp only [h.skips, if_true]
  generalize MultipartStream.skipPreamble it.multi = r at hskipped
  cases hskipped with
  | @part multi rest good pending_eq => exact ⟨multi, rfl, good, pending_eq⟩

theorem nextItemLoop_opened (fuel : ℕ) (h : Between it field token bytes) {rest part body : Bytes}
    {headers : FileItemHeaders} (hp : preamble token bytes = .part rest)
    (hheader : headerPart 0 0 rest = .ok (part, body))
    (hparsed : getParsedHeaders rt (rt.decodeHeaders part) = some headers) :
    ∃ multi, nextItemLoop rt (fuel + 1) it =
        partOpened rt (nextItemLoop rt fuel) headers { it with multi } ∧
      Between { it with multi } field token body := by
  obtain ⟨multi, hloop, hgood, hpending⟩ := nextItemLoop_part fuel h hp
  rw [← hpending] at hheader
  rcases hgood.readHeaders_cases with
    ⟨e, -, he, -⟩ | ⟨part', body', multi', hok, hread, hgood', hpending'⟩
  · cases hheader.symm.trans he
  · cases hheader.symm.trans hok
    refine ⟨multi', ?_, hgood', hpending', h.field_eq, h.skips, h.not_eof, h.length_eq⟩
    rw [hloop, partBegun]
    simp only [hread, hparsed]

/-- By induction along the parts: the reader takes one turn for each. -/
theorem nextItemLoop_found {outer : Bytes} (fuel : ℕ) (h : Between it field token bytes)
    (houter : it.boundary = outer)
    (hfuel : 2 * bytes.length + (if field.isSome then 1 else 0) < fuel) :
    Found outer (nextItem rt outer field token bytes) (nextItemLoop rt fuel it) := by
  fun_induction nextItem rt outer field token bytes generalizing it fuel with
  | case1 token bytes rest hpreamble =>
    obtain ⟨fuel, rfl⟩ : ∃ k, fuel = k + 1 := ⟨fuel - 1, by omega⟩
    obtain ⟨multi, hloop, -⟩ := nextItemLoop_ended fuel h hpreamble
    rw [hloop, bodyEnded]
    simp only [h.field_eq]
    exact .finished rfl
  | case2 token bytes fieldName hpreamble =>
    obtain ⟨fuel, rfl⟩ : ∃ k, fuel = k + 1 := ⟨fuel - 1, by omega⟩
    obtain ⟨multi, hloop, hhead, htail, hlength⟩ := nextItemLoop_ended fuel h hpreamble
    obtain ⟨fuel, rfl⟩ : ∃ k, fuel = k + 1 := by
      simp only [Option.isSome_some, if_true] at hfuel
      exact ⟨fuel - 1, by omega⟩
    have hset : ∃ multi', setBoundary multi it.boundary = (.ok (), multi') ∧ multi'.head = 0 ∧
        multi'.tail = -1 := by
      rw [setBoundary, if_neg (by rw [hlength, h.length_eq]; omega)]
      exact ⟨_, rfl, hhead, htail⟩
    obtain ⟨multi', hset, hhead', htail'⟩ := hset
    have hdrained : ∃ it', nextItemLoop rt (fuel + 1) { it with
        multi := multi', currentFieldName := none } =
          (.error (.multipart .indexOutOfBounds), it') :=
      nextItemLoop_drained fuel hhead' htail' h.skips
    obtain ⟨it', hdrained⟩ := hdrained
    rw [hloop, bodyEnded]
    simp only [h.field_eq, hset]
    rw [hdrained]
    exact .failed _
  | case3 token bytes fieldName rest hpreamble hle ih =>
    obtain ⟨fuel, rfl⟩ : ∃ k, fuel = k + 1 := ⟨fuel - 1, by omega⟩
    obtain ⟨multi, hloop, hgood, hpending⟩ := nextItemLoop_ended fuel h hpreamble
    obtain ⟨multi', hset, hgood', hpending'⟩ := hgood.setBoundary h.length_eq.symm
    rw [hloop, bodyEnded]
    simp only [h.field_eq, hset]
    have hlength : outer.length = token.length := houter ▸ h.length_eq.symm
    refine ih fuel (h.congr (houter ▸ hgood') (hpending'.trans hpending) hlength) houter ?_
    simp only [Option.isSome_some, Option.isSome_none, if_true, Bool.false_eq_true, if_false]
      at hfuel ⊢
    omega
  | case4 field token bytes rest hpreamble hlt e hheader =>
    obtain ⟨fuel, rfl⟩ : ∃ k, fuel = k + 1 := ⟨fuel - 1, by omega⟩
    obtain ⟨multi, hloop, hgood, hpending⟩ := nextItemLoop_part fuel h hpreamble
    rw [← hpending] at hheader
    rcases hgood.readHeaders_cases with ⟨e', multi', he', hread⟩ | ⟨part, body, multi', hok, -⟩
    · cases hheader.symm.trans he'
      rw [hloop, partBegun]
      simp only [hread]
      exact .failed _
    · cases hheader.symm.trans hok
  | case5 field token bytes rest hpreamble hlt part body hheader hle hparsed =>
    obtain ⟨fuel, rfl⟩ : ∃ k, fuel = k + 1 := ⟨fuel - 1, by omega⟩
    obtain ⟨multi, hloop, hgood, hpending⟩ := nextItemLoop_part fuel h hpreamble
    rw [← hpending] at hheader
    rcases hgood.readHeaders_cases with
      ⟨e', -, he', -⟩ | ⟨part', body', multi', hok, hread, hgood', hpending'⟩
    · cases hheader.symm.trans he'
    · cases hheader.symm.trans hok
      rw [hloop, partBegun]
      simp only [hread, hparsed]
      exact .failed _
  | case6 field token bytes rest hpreamble hlt part body hheader hle headers hparsed item hkind =>
    obtain ⟨fuel, rfl⟩ : ∃ k, fuel = k + 1 := ⟨fuel - 1, by omega⟩
    obtain ⟨multi, hloop, hbetween⟩ := nextItemLoop_opened fuel h hpreamble hheader hparsed
    rw [hloop, partOpened]
    simp only [h.field_eq, hkind]
    have hgood := hbetween.good
    exact .item ⟨hgood.of_notifier _, hbetween.pending_eq, rfl, h.skips, h.not_eof,
      h.length_eq⟩ houter rfl rfl ((aligned_findSeparator hgood.ok _).of_counts _ _)
      (findSeparator_closed _ _)
  | case7 field token bytes rest hpreamble hlt part body hheader hle headers hparsed fieldName
      subContentType hkind hnone =>
    obtain ⟨fuel, rfl⟩ : ∃ k, fuel = k + 1 := ⟨fuel - 1, by omega⟩
    obtain ⟨multi, hloop, hbetween⟩ := nextItemLoop_opened fuel h hpreamble hheader hparsed
    rw [hloop, partOpened]
    simp only [h.field_eq, hkind, hnone]
    exact .failed _
  | case8 field token bytes rest hpreamble hlt part body hheader hle headers hparsed fieldName
      subContentType hkind subBoundary hsub hlen =>
    obtain ⟨fuel, rfl⟩ : ∃ k, fuel = k + 1 := ⟨fuel - 1, by omega⟩
    obtain ⟨multi, hloop, hbetween⟩ := nextItemLoop_opened fuel h hpreamble hheader hparsed
    have hset : setBoundary multi subBoundary = (.error .illegalBoundary, multi) := by
      rw [setBoundary, if_pos (by rw [hbetween.good.boundaryLength]; omega)]
    rw [hloop, partOpened]
    simp only [h.field_eq, hkind, hsub, hset]
    exact .failed _
  | case9 field token bytes rest hpreamble hlt part body hheader hle headers hparsed fieldName
      subContentType hkind subBoundary hsub hlen ih =>
    obtain ⟨fuel, rfl⟩ : ∃ k, fuel = k + 1 := ⟨fuel - 1, by omega⟩
    obtain ⟨multi, hloop, hbetween⟩ := nextItemLoop_opened fuel h hpreamble hheader hparsed
    obtain ⟨multi', hset, hgood', hpending'⟩ := hbetween.good.setBoundary (not_not.mp hlen)
    rw [hloop, partOpened]
    simp only [h.field_eq, hkind, hsub, hset]
    refine ih fuel ⟨hgood', hpending'.trans hbetween.pending_eq, rfl, rfl, h.not_eof,
      (not_not.mp hlen).trans h.length_eq⟩ houter ?_
    simp only [Option.isSome_some, if_true]
    omega
  | case10 field token bytes rest hpreamble hlt part body hheader hle headers hparsed hkind hfind =>
    obtain ⟨fuel, rfl⟩ : ∃ k, fuel = k + 1 := ⟨fuel - 1, by omega⟩
    obtain ⟨multi, hloop, hbetween⟩ := nextItemLoop_opened fuel h hpreamble hheader hparsed
    rw [hloop, partOpened]
    have hdiscard := hbetween.good.discardBodyData_eq
    rw [hbetween.pending_eq, hfind] at hdiscard
    obtain ⟨multi', hdiscard⟩ := hdiscard
    simp only [h.field_eq, hkind, hdiscard]
    exact .failed _
  | case11 field token bytes rest hpreamble hlt part body hheader hle headers hparsed hkind i hfind
      ih =>
    obtain ⟨fuel, rfl⟩ : ∃ k, fuel = k + 1 := ⟨fuel - 1, by omega⟩
    obtain ⟨multi, hloop, hbetween⟩ := nextItemLoop_opened fuel h hpreamble hheader hparsed
    rw [hloop, partOpened]
    have hdiscard := hbetween.good.discardBodyData_eq
    rw [hbetween.pending_eq, hfind] at hdiscard
    obtain ⟨multi', hdiscard, hgood', hpending'⟩ := hdiscard
    simp only [h.field_eq, hkind, hdiscard]
    refine ih fuel ⟨hgood', hpending', rfl, h.skips, h.not_eof, h.length_eq⟩ houter ?_
    rw [List.length_drop]
    omega

/-! Whole requests. -/

theorem hasNext_found (rt : Runtime) {outer : Bytes} {next : Next} {b : Bool}
    (h : Found outer next (.ok b, it)) : hasNext rt it = (.ok b, it) := by
  cases h with
  | item between boundary_eq current valid =>
    rw [hasNext, if_neg (by simp [between.not_eof]), if_pos valid]
  | finished eof => rw [hasNext, if_pos eof]

theorem parseItems_hasNext (fuel : ℕ) {b : Bool} {it' : FileItemIterator}
    (h : hasNext rt it = (.ok b, it')) (h' : hasNext rt it' = (.ok b, it')) :
    parseItems rt (fuel + 1) it = parseItems rt (fuel + 1) it' := by
  rw [parseItems, h, parseItems, h']

/-- Behind an item that has been copied the reader looks for the next one. -/
theorem findNextItem_copied (rt : Runtime) {inner : Item} {item : FileItemStream}
    (h : Between it field token bytes) (hcurrent : it.currentItem = some (item, inner))
    (hclosed : inner.closed = true) :
    Found it.boundary (nextItem rt it.boundary field token bytes) (findNextItem rt it) := by
  have hclose : close it.multi inner = (.ok (), it.multi, inner) := by rw [close, if_pos hclosed]
  have hlength := h.good.ok.length_pending
  rw [h.pending_eq] at hlength
  rw [findNextItem, if_neg (by simp [h.not_eof]), hcurrent]
  simp only [hclose]
  refine nextItemLoop_found _ ⟨h.good, h.pending_eq, h.field_eq, h.skips, h.not_eof, h.length_eq⟩
    rfl ?_
  split <;> omega

theorem hasNext_copied (rt : Runtime) (it : FileItemIterator) {outer : Bytes} {inner : Item}
    {item : FileItemStream}
    (h : Between it field token bytes) (houter : it.boundary = outer)
    (hcurrent : it.currentItem = some (item, inner)) (hclosed : inner.closed = true)
    (hvalid : it.itemValid = false) :
    Found outer (nextItem rt outer field token bytes) (hasNext rt it) := by
  have hfound := findNextItem_copied rt h hcurrent hclosed
  rw [houter] at hfound
  rwa [hasNext, if_neg (by simp [h.not_eof]), if_neg (by simp [hvalid])]

/-- By induction on the turns: each item leaves fewer bytes behind it. -/
theorem parseItems_found {outer : Bytes} {next : Next} {b : Bool} (fuel : ℕ)
    (h : Found outer next (.ok b, it)) (hfuel : 0 < fuel)
    (hitem : ∀ item field token body, next = .item item field token body → body.length < fuel) :
    (parseItems rt fuel it).1 = itemsFrom rt outer next := by
  induction fuel generalizing it next b with
  | zero => exact absurd hfuel (Nat.lt_irrefl 0)
  | succ fuel ih =>
    have hnext := hasNext_found rt h
    cases h with
    | finished eof =>
      rw [parseItems, hnext]
      rfl
    | @item it item inner field token body between boundary_eq current valid aligned opened =>
      have hlength := hitem item field token body rfl
      have hcopy := between.good.copy_eq aligned opened
      rw [between.pending_eq] at hcopy
      rw [parseItems, hnext, itemsFrom]
      simp only [current]
      cases hfind : Delimiter.find (delimiterOf token) body with
      | none =>
        rw [hfind] at hcopy
        obtain ⟨t, item', heq⟩ := hcopy
        simp only [heq]
      | some i =>
        rw [hfind] at hcopy
        obtain ⟨t, item', heq, hclosed, hgood, hpending⟩ := hcopy
        simp only [heq]
        congr 1
        rw [items_eq]
        -- the delimiter is there, so the loop has a turn left
        obtain ⟨fuel, rfl⟩ : ∃ k, fuel = k + 1 := by
          have hroom := Delimiter.find_add_length_le hfind
          have hlen : 0 < (delimiterOf token).length := Nat.succ_pos _
          have := hroom.resolve_right (delimiterOf_ne_nil token)
          exact ⟨fuel - 1, by omega⟩
        have hcopied := hasNext_copied rt
          { it with multi := t, itemValid := false, currentItem := some (item, item') }
          ⟨hgood, hpending, between.field_eq, between.skips, between.not_eof, between.length_eq⟩
          boundary_eq rfl hclosed rfl
        generalize hr : hasNext rt
          { it with multi := t, itemValid := false, currentItem := some (item, item') } = r
          at hcopied
        generalize hn : nextItem rt outer field token (body.drop i) = next at hcopied ⊢
        cases hcopied with
        | failed e =>
          rw [parseItems, hr]
          rfl
        | finished eof =>
          rw [parseItems, hr]
          rfl
        | @item it' item' inner' field' token' body' between' boundary' current' valid' aligned'
            opened' =>
          have hfound : Found outer (.item item' field' token' body') (.ok true, it') :=
            .item between' boundary' current' valid' aligned' opened'
          rw [parseItems_hasNext fuel hr (hasNext_found rt hfound)]
          refine ih hfound (Nat.succ_pos _) fun item₁ field₁ token₁ body₁ h₁ => ?_
          cases h₁
          have hshort := nextItem_shortens hn
          rw [List.length_drop] at hshort
          omega

/-- The iterator of a request stands at the first item of the body. -/
theorem getItemIterator_found {rt : Runtime} {contentType : Option JString} {boundary : Bytes}
    (body : Bytes) (plan : List ℕ) {bufSize : ℕ}
    (hmultipart : ¬(contentType.filter fun c => MULTIPART <+: lower rt c).isNone = true)
    (hboundary : getBoundary rt contentType = some boundary)
    (h : boundary.length + BOUNDARY_PREFIX.length < bufSize) :
    ∃ r, Found boundary (nextItem rt boundary none boundary body) r ∧
      getItemIterator rt bufSize contentType ⟨body, plan⟩ =
        (r.1.map fun _ => r.2, r.2.multi.notifier) := by
  have hgood := good_create boundary body plan ⟨0, 0, []⟩ h
  have hpending := (framed_create boundary body plan bufSize ⟨0, 0, []⟩).2
  have hlength := hgood.ok.length_pending
  rw [hpending] at hlength
  refine ⟨findNextItem rt ⟨create ⟨body, plan⟩ boundary bufSize ⟨0, 0, []⟩, boundary, none, none,
    true, false, false⟩, ?_, ?_⟩
  · rw [findNextItem, if_neg (by simp)]
    refine nextItemLoop_found _ ⟨hgood, hpending, rfl, rfl, rfl, rfl⟩ rfl ?_
    simp only [Option.isSome_none, Bool.false_eq_true, if_false]
    omega
  · simp only [getItemIterator, if_neg hmultipart, hboundary]

/-- However a request arrives, its items are those of the whole body. -/
theorem parseRequest_eq {rt : Runtime} {contentType : Option JString} {bufSize : ℕ} (body : Bytes)
    (plan : List ℕ)
    (h : ∀ boundary, getBoundary rt contentType = some boundary →
      boundary.length + BOUNDARY_PREFIX.length < bufSize) :
    (parseRequest rt bufSize contentType ⟨body, plan⟩).1 = itemsOf rt contentType body := by
  rw [parseRequest, itemsOf]
  by_cases hmultipart : (contentType.filter fun c => MULTIPART <+: lower rt c).isNone = true
  · rw [getItemIterator, if_pos hmultipart, if_pos hmultipart]
  rw [if_neg hmultipart]
  cases hboundary : getBoundary rt contentType with
  | none =>
    rw [getItemIterator, if_neg hmultipart, hboundary]
  | some boundary =>
    obtain ⟨r, hfound, heq⟩ :=
      getItemIterator_found body plan hmultipart hboundary (h boundary hboundary)
    rw [heq]
    dsimp only
    rw [items_eq]
    generalize nextItem rt boundary none boundary body = next at hfound ⊢
    cases hfound with
    | failed e => rfl
    | @finished it eof =>
      exact parseItems_found it.multi.turns (.finished eof) (Nat.succ_pos _)
        (fun _ _ _ _ h => by cases h)
    | @item it item inner field token body' between boundary_eq current valid aligned opened =>
      have hlength := between.good.ok.length_pending
      rw [between.pending_eq] at hlength
      refine parseItems_found it.multi.turns
        (.item between boundary_eq current valid aligned opened) (Nat.succ_pos _)
        (fun _ _ _ _ h => ?_)
      cases h
      omega

/-! The reader never goes on for ever. -/

theorem headerPart_error {i size : ℕ} {bytes : Bytes} {e : Fault}
    (h : headerPart i size bytes = .error e) : e = .streamEnded ∨ e = .headerTooLong := by
  induction bytes generalizing i size with
  | nil =>
    rw [headerPart] at h
    split_ifs at h
    cases h
    exact .inl rfl
  | cons b bytes ih =>
    rw [headerPart] at h
    by_cases hi : HEADER_SEPARATOR.length ≤ i
    · rw [if_pos hi] at h
      cases h
    by_cases hmax : HEADER_PART_SIZE_MAX < size + 1
    · rw [if_neg hi, if_pos hmax] at h
      cases h
      exact .inr rfl
    rw [if_neg hi, if_neg hmax] at h
    cases hnext : headerPart (if HEADER_SEPARATOR[i]? = some b then i + 1 else 0) (size + 1)
        bytes with
    | ok next => rw [hnext] at h; cases h
    | error e' =>
      rw [hnext] at h
      cases h
      exact ih hnext

theorem nextItem_ne_stalled (rt : Runtime) (outer : Bytes) (field : Option JString)
    (token bytes : Bytes) :
    nextItem rt outer field token bytes ≠ .failed (.multipart .stalled) := by
  fun_induction nextItem rt outer field token bytes with
  | case3 token bytes fieldName rest hpreamble hle ih => exact ih
  | case4 field token bytes rest hpreamble hlt e hheader =>
    rintro ⟨⟩
    rcases headerPart_error hheader with h | h <;> cases h
  | case9 => assumption
  | case11 => assumption
  | case1 | case2 | case5 | case6 | case7 | case8 | case10 => simp

theorem items_ne_stalled (rt : Runtime) (outer : Bytes) (field : Option JString)
    (token bytes : Bytes) :
    items rt outer field token bytes ≠ .error (.multipart .stalled) := by
  fun_induction items rt outer field token bytes with
  | case1 field token bytes e h =>
    rintro ⟨⟩
    exact nextItem_ne_stalled rt outer field token bytes h
  | case2 => simp
  | case3 => simp
  | case4 field token bytes item field' token' body h i hfind hlt ih =>
    intro hmap
    cases hrest : items rt outer field' token' (body.drop i) with
    | ok rest => rw [hrest] at hmap; cases hmap
    | error e =>
      rw [hrest] at hmap
      cases hmap
      exact ih hrest

/-- With a buffer that is larger than the delimiter, the items depend neither on the sizes of the
reads nor on the buffer: they are those of the whole body, and the reader always comes to an
end. -/
theorem items_for_every_arrival (rt : Runtime) (contentType : Option JString) (body : Bytes)
    (plan : List ℕ) (bufSize : ℕ)
    (h : ∀ boundary, getBoundary rt contentType = some boundary →
      boundary.length + BOUNDARY_PREFIX.length < bufSize) :
    (parseRequest rt bufSize contentType ⟨body, plan⟩).1 = itemsOf rt contentType body ∧
      (parseRequest rt bufSize contentType ⟨body, plan⟩).1 ≠ .error (.multipart .stalled) := by
  rw [parseRequest_eq body plan h]
  refine ⟨rfl, ?_⟩
  rw [itemsOf]
  split
  · simp
  · split
    · simp
    · exact items_ne_stalled rt _ none _ body

/-- A field that comes a byte at a time into a buffer of eight. -/
theorem items_byte_by_byte :
    (parseRequest asciiRuntime 8 (some (formContentType (ofString "B7")))
        ⟨getBytes (ofString "--B7\r\nContent-Disposition: form-data; name=n\r\n\r\n1\r\n--B7--"),
          List.replicate 64 1⟩).1 =
      itemsOf asciiRuntime (some (formContentType (ofString "B7")))
        (getBytes
          (ofString "--B7\r\nContent-Disposition: form-data; name=n\r\n\r\n1\r\n--B7--")) ∧
    (parseRequest asciiRuntime 8 (some (formContentType (ofString "B7")))
        ⟨getBytes (ofString "--B7\r\nContent-Disposition: form-data; name=n\r\n\r\n1\r\n--B7--"),
          List.replicate 64 1⟩).1 ≠ .error (.multipart .stalled) := by
  refine items_for_every_arrival asciiRuntime _ _ _ 8 fun boundary h => ?_
  cases (getBoundary_form asciiRuntime (show ParameterParser.Inert semicolon (ofString "B7") by
    decide) (by decide)).symm.trans h
  decide

end FileUploadBase
