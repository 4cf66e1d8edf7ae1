import AndroidDebug.BodyData

/-! The bytes between the parts: delimiters, what follows them, and headers. -/
namespace MultipartStream

open ByteSource

variable {s t : Stream}

/-! Single bytes. -/

theorem nextByte_cons (h : Ok s) {b : UInt8} {rest : Bytes} (hp : window s = b :: rest) :
    nextByte s = (.ok b, { s with head := s.head + 1 }) := by
  have hget : s.buffer[s.head.toNat]? = some b := by
    have htake := take_buffer h (n := 1) (by rw [hp]; simp)
    rw [pending, hp, List.cons_append, List.take_succ_cons, List.take_zero] at htake
    have hhead : ((s.buffer.drop s.head.toNat).take 1)[0]? = some b := by rw [htake]; rfl
    rwa [List.getElem?_take_of_lt Nat.one_pos, List.getElem?_drop, Nat.add_zero] at hhead
  rw [nextByte, hget]

theorem readByte_nil (h : Ok s) (hsize : 0 < s.bufSize) (hp : pending s = []) :
    readByte s = (.error .noMoreData, { s with head := 0, tail := -1 }) := by
  obtain ⟨hwindow, hrest⟩ := List.append_eq_nil_iff.mp hp
  have hlen := h.length_window
  rw [hwindow, List.length_nil] at hlen
  rw [readByte, if_pos (by omega), read_eq_none_iff.mpr ⟨hsize, hrest⟩]

/-- With nothing in the buffer the reader may go back to its start. -/
theorem moved_restart (h : Ok s) (hempty : s.head = s.tail) :
    Moved s { s with head := 0, tail := 0 } 0 ∧ window { s with head := 0, tail := 0 } = [] := by
  have hlen := h.length_window
  have hwindow : window s = [] := List.length_eq_zero_iff.mp (by omega)
  have hnew : window { s with head := 0, tail := 0 } = [] := rfl
  refine ⟨⟨⟨Int.le_refl _, Int.le_refl _, Int.natCast_nonneg _, h.boundaryLength_pos,
    h.boundaryLength_le, h.keepRegion_ge⟩, ⟨rfl, rfl, rfl, rfl⟩, ?_⟩, hnew⟩
  rw [pending, hnew, pending, hwindow]
  rfl

theorem readByte_cons (h : Ok s) (hsize : 0 < s.bufSize) {b : UInt8} {rest : Bytes}
    (hp : pending s = b :: rest) : ∃ t, readByte s = (.ok b, t) ∧ Moved s t 1 := by
  by_cases hempty : s.head = s.tail
  · have hlen := h.length_window
    have hwindow : window s = [] := List.length_eq_zero_iff.mp (by omega)
    obtain ⟨hrestart, hnew⟩ := moved_restart h hempty
    cases hread : s.input.read s.bufSize with
    | none =>
      rw [pending, hwindow, (read_eq_none_iff.mp hread).2] at hp
      cases hp
    | some brought =>
      obtain ⟨bytes, input⟩ := brought
      obtain ⟨hmoved, hfilled⟩ := moved_filled hrestart.ok hread
      rw [hnew, List.nil_append] at hfilled
      have hall := hrestart.trans hmoved
      cases bytes with
      | nil => exact absurd rfl ((brings_of_read hread).ne_nil hsize)
      | cons c bytes =>
        have hpending := hall.pending_eq
        rw [hp, pending, hfilled, Nat.add_zero, List.drop_zero, List.cons_append,
          List.cons.injEq] at hpending
        have hone := moved_advance hmoved.ok (n := 1) (by rw [hfilled]; simp)
        refine ⟨_, ?_, hall.trans hone⟩
        rw [readByte, if_pos hempty, hread, ← hpending.1]
        exact nextByte_cons hmoved.ok hfilled
  · have hlen := h.length_window
    have hle := h.head_le
    cases hw : window s with
    | nil =>
      rw [hw, List.length_nil] at hlen
      omega
    | cons c w =>
      rw [pending, hw, List.cons_append, List.cons.injEq] at hp
      rw [readByte, if_neg hempty, nextByte_cons h hw, hp.1]
      exact ⟨_, rfl, moved_advance h (n := 1) (by rw [hw]; simp)⟩

/-! What follows a delimiter. -/

/-- Another part, the end of the parts, neither, or the end of the request. -/
inductive Marker where
  | next (rest : Bytes)
  | last (rest : Bytes)
  | wrong (rest : Bytes)
  | missing
  deriving DecidableEq

def marker : Bytes → Marker
  | [] => .missing
  | b :: rest =>
    if b = LF then .next rest
    else
      match rest with
      | [] => .missing
      | c :: rest =>
        if [b, c] = STREAM_TERMINATOR then .last rest
        else if [b, c] = FIELD_SEPARATOR then .next rest
        else .wrong rest

structure Drained (s t : Stream) : Prop where
  head_eq : t.head = 0
  tail_eq : t.tail = -1
  frame : Frame s t

/-- The reader has passed some bytes and what is pending then is `rest`. -/
structure Reached (s t : Stream) (rest : Bytes) : Prop where
  ok : Ok t
  frame : Frame s t
  pending_eq : pending t = rest

theorem Moved.reached {n : ℕ} (h : Moved s t n) : Reached s t ((pending s).drop n) :=
  ⟨h.ok, h.frame, h.pending_eq⟩

theorem Reached.trans {u : Stream} {rest rest' : Bytes} (h : Reached s t rest)
    (h' : Reached t u rest') : Reached s u rest' :=
  ⟨h'.ok, h.frame.trans h'.frame, h'.pending_eq⟩

theorem Reached.size_pos {rest : Bytes} (h : Reached s t rest) (hsize : 0 < s.bufSize) :
    0 < t.bufSize := by
  rw [h.frame.bufSize]
  exact hsize

theorem readByte_cases (h : Ok s) (hsize : 0 < s.bufSize) :
    (pending s = [] ∧ ∃ t, readByte s = (.error .noMoreData, t) ∧ Drained s t) ∨
    ∃ b rest t, pending s = b :: rest ∧ readByte s = (.ok b, t) ∧ Reached s t rest := by
  cases hp : pending s with
  | nil =>
    refine .inl ⟨rfl, _, readByte_nil h hsize hp, rfl, rfl, ?_⟩
    exact ⟨rfl, rfl, rfl, rfl⟩
  | cons b rest =>
    obtain ⟨t, heq, hmoved⟩ := readByte_cons h hsize hp
    have hreached := hmoved.reached
    rw [hp, List.drop_succ_cons, List.drop_zero] at hreached
    exact .inr ⟨b, rest, t, rfl, heq, hreached⟩

inductive Marked (s : Stream) (bytes : Bytes) : Except Fault Bool × Stream → Prop
  | next {t : Stream} {rest : Bytes} (marker_eq : marker bytes = .next rest)
      (reached : Reached s t rest) : Marked s bytes (.ok true, t)
  | last {t : Stream} {rest : Bytes} (marker_eq : marker bytes = .last rest)
      (reached : Reached s t rest) : Marked s bytes (.ok false, t)
  | wrong {t : Stream} {rest : Bytes} (marker_eq : marker bytes = .wrong rest)
      (reached : Reached s t rest) : Marked s bytes (.error .streamEnded, t)
  | missing {t : Stream} (marker_eq : marker bytes = .missing) (drained : Drained s t) :
      Marked s bytes (.error .streamEnded, t)

theorem readBoundary_marked (h : Ok s) (hsize : 0 < s.bufSize)
    (hwindow : delimiter s <+: window s) :
    Marked s ((pending s).drop s.boundaryLength) (readBoundary s) := by
  have hlen := hwindow.length_le
  rw [h.length_delimiter] at hlen
  have hmoved := moved_advance h hlen
  have hreached := hmoved.reached
  rw [readBoundary, readMarker]
  rcases readByte_cases hmoved.ok hsize with ⟨hnil, t, heq, hdrained⟩ | ⟨b, rest, t, hcons, heq, ht⟩
  · rw [hmoved.pending_eq] at hnil
    rw [heq, hnil]
    exact .missing rfl ⟨hdrained.head_eq, hdrained.tail_eq, hmoved.frame.trans hdrained.frame⟩
  · rw [hmoved.pending_eq] at hcons
    have hst := hreached.trans ht
    rw [heq, hcons]
    dsimp only
    by_cases hLF : b = LF
    · rw [if_pos hLF]
      exact .next (by rw [marker.eq_def]; exact if_pos hLF) hst
    rw [if_neg hLF]
    rcases readByte_cases ht.ok (hst.size_pos hsize) with
      ⟨hnil, u, heq, hdrained⟩ | ⟨c, rest', u, hcons', heq, hu⟩
    · rw [ht.pending_eq] at hnil
      rw [heq, hnil]
      exact .missing (by rw [marker, if_neg hLF])
        ⟨hdrained.head_eq, hdrained.tail_eq, hst.frame.trans hdrained.frame⟩
    · rw [ht.pending_eq] at hcons'
      have hsu := hst.trans hu
      rw [heq, hcons']
      dsimp only
      by_cases hlast : [b, c] = STREAM_TERMINATOR
      · rw [if_pos hlast]
        exact .last (by simp only [marker, if_neg hLF, if_pos hlast]) hsu
      by_cases hnext : [b, c] = FIELD_SEPARATOR
      · rw [if_neg hlast, if_pos hnext]
        exact .next (by simp only [marker, if_neg hLF, if_neg hlast, if_pos hnext]) hsu
      · rw [if_neg hlast, if_neg hnext]
        exact .wrong (by simp only [marker, if_neg hLF, if_neg hlast, if_neg hnext]) hsu

/-! Headers. -/

/-- The header section in front of `bytes` and what follows it. -/
def headerPart : ℕ → ℕ → Bytes → Except Fault (Bytes × Bytes)
  | i, _, [] => if HEADER_SEPARATOR.length ≤ i then .ok ([], []) else .error .streamEnded
  | i, size, b :: rest =>
    if HEADER_SEPARATOR.length ≤ i then .ok ([], b :: rest)
    else if HEADER_PART_SIZE_MAX < size + 1 then .error .headerTooLong
    else
      (headerPart (if HEADER_SEPARATOR[i]? = some b then i + 1 else 0) (size + 1) rest).map
        fun part => (b :: part.1, part.2)

theorem headerPart_complete {i : ℕ} (hi : HEADER_SEPARATOR.length ≤ i) (size : ℕ)
    (bytes : Bytes) : headerPart i size bytes = .ok ([], bytes) := by
  cases bytes <;> rw [headerPart, if_pos hi]

inductive Headed (s : Stream) (front : Bytes) :
    Except Fault (Bytes × Bytes) → Except Fault Bytes × Stream → Prop
  | ok {t : Stream} {part rest : Bytes} (reached : Reached s t rest) :
      Headed s front (.ok (part, rest)) (.ok (front ++ part), t)
  | error {t : Stream} (e : Fault) (he : e = .streamEnded ∨ e = .headerTooLong) :
      Headed s front (.error e) (.error e, t)

theorem headed_complete {i : ℕ} (hi : HEADER_SEPARATOR.length ≤ i) (size : ℕ) (baos : Bytes)
    (h : Ok s) : Headed s baos (headerPart i size (pending s)) (readHeaderBytes i size baos s) := by
  have hdone : Headed s baos (.ok ([], pending s)) (.ok (baos ++ []), s) :=
    .ok (Moved.refl h).reached
  rw [headerPart_complete hi, readHeaderBytes, if_pos hi]
  rwa [List.append_nil] at hdone

/-- By induction on what is pending. -/
theorem readHeaderBytes_headed (i size : ℕ) (baos : Bytes) {bytes : Bytes} (h : Ok s)
    (hsize : 0 < s.bufSize) (hp : pending s = bytes) :
    Headed s baos (headerPart i size bytes) (readHeaderBytes i size baos s) := by
  induction bytes generalizing i size baos s with
  | nil =>
    by_cases hi : HEADER_SEPARATOR.length ≤ i
    · exact hp ▸ headed_complete hi size baos h
    rcases readByte_cases h hsize with ⟨-, t, heq, -⟩ | ⟨b, rest, t, hcons, -⟩
    · rw [readHeaderBytes, if_neg hi, heq, headerPart, if_neg hi]
      exact .error _ (.inl rfl)
    · rw [hp] at hcons
      cases hcons
  | cons b bytes ih =>
    by_cases hi : HEADER_SEPARATOR.length ≤ i
    · exact hp ▸ headed_complete hi size baos h
    rcases readByte_cases h hsize with ⟨hnil, -⟩ | ⟨c, rest, t, hcons, heq, ht⟩
    · rw [hp] at hnil
      cases hnil
    rw [hp, List.cons.injEq] at hcons
    obtain ⟨rfl, rfl⟩ := hcons
    rw [readHeaderBytes, if_neg hi, heq, headerPart, if_neg hi]
    dsimp only
    by_cases hmax : HEADER_PART_SIZE_MAX < size + 1
    · rw [if_pos hmax, if_pos hmax]
      exact .error _ (.inr rfl)
    rw [if_neg hmax, if_neg hmax]
    have hnext := ih (if HEADER_SEPARATOR[i]? = some b then i + 1 else 0) (size + 1)
      (baos ++ [b]) ht.ok (ht.size_pos hsize) ht.pending_eq
    generalize readHeaderBytes _ (size + 1) _ t = r at hnext ⊢
    generalize headerPart _ (size + 1) bytes = p at hnext ⊢
    cases hnext with
    | ok reached =>
      rw [List.append_assoc]
      exact .ok (ht.trans reached)
    | error e he => exact .error e he

theorem readHeaders_headed (h : Ok s) (hsize : 0 < s.bufSize) :
    Headed s [] (headerPart 0 0 (pending s)) (readHeaders s) :=
  readHeaderBytes_headed 0 0 [] h hsize rfl

/-! Looking for the next delimiter. -/

/-- The reader between two parts: the line break is part of the delimiter again. -/
structure Framed (s : Stream) (token : Bytes) : Prop where
  ok : Ok s
  boundary : s.boundary = BOUNDARY_PREFIX ++ token
  boundaryLength : s.boundaryLength = BOUNDARY_PREFIX.length + token.length
  keepRegion : s.keepRegion = BOUNDARY_PREFIX.length + token.length

/-- And its buffer has room for more than it keeps back. -/
structure Good (s : Stream) (token : Bytes) : Prop extends Framed s token where
  bufSize : s.keepRegion < s.bufSize

/-- The delimiter without the line break in front of it. -/
def dashed (token : Bytes) : Bytes := DASH :: DASH :: token

/-- What `skipPreamble` finds: another part, or none and what is then pending. Nothing can be
read any more after `finished none`. -/
inductive Preamble where
  | part (rest : Bytes)
  | finished (rest : Option Bytes)
  deriving DecidableEq

def preamble (token bytes : Bytes) : Preamble :=
  match Delimiter.find (dashed token) bytes with
  | none => .finished (some (bytes.drop (bytes.length - (BOUNDARY_PREFIX.length + token.length))))
  | some i =>
    match marker (bytes.drop (i + (dashed token).length)) with
    | .next rest => .part rest
    | .last rest | .wrong rest => .finished (some rest)
    | .missing => .finished none

inductive Skipped (s : Stream) (token : Bytes) : Preamble → Except Fault Bool × Stream → Prop
  | part {t : Stream} {rest : Bytes} (good : Good t token)
      (pending_eq : pending t = rest) : Skipped s token (.part rest) (.ok true, t)
  | finished {t : Stream} {rest : Bytes} (good : Good t token)
      (pending_eq : pending t = rest) : Skipped s token (.finished (some rest)) (.ok false, t)
  | drained {t : Stream} (head_eq : t.head = 0) (tail_eq : t.tail = -1)
      (boundary : t.boundaryLength = BOUNDARY_PREFIX.length + token.length) :
      Skipped s token (.finished none) (.ok false, t)

/-- The reader while it looks for a delimiter that may have no line break in front. -/
def shortened (s : Stream) : Stream :=
  { s with
    boundary := arraycopy s.boundary 2 s.boundary 0 (s.boundary.length - 2)
    boundaryLength := s.boundary.length - 2 }

/-- The bytes of the boundary while the line break is left out: the last two stand twice. -/
theorem shortened_boundary {token : Bytes} (h : Framed s token) :
    (shortened s).boundary = dashed token ++ s.boundary.drop (s.boundary.length - 2) ∧
      (shortened s).boundaryLength = (dashed token).length := by
  have hlen : ((s.boundary.length : ℤ) - 2).toNat = (dashed token).length := by
    rw [h.boundary]
    simp only [dashed, BOUNDARY_PREFIX, List.length_append, List.length_cons, List.length_nil]
    omega
  have hnat : s.boundary.length - 2 = (dashed token).length := by omega
  have hdrop : s.boundary.drop 2 = dashed token := by
    rw [h.boundary]
    rfl
  refine ⟨?_, hnat⟩
  simp only [shortened, arraycopy, Int.toNat_zero, List.take_zero, List.nil_append, Int.zero_add,
    hlen, hnat, show ((2 : ℤ).toNat) = 2 from rfl, hdrop, List.take_length]

theorem Framed.shortened_ok {token : Bytes} (h : Framed s token) :
    Ok (shortened s) ∧ delimiter (shortened s) = dashed token := by
  obtain ⟨hboundary, hlength⟩ := shortened_boundary h
  have hkeep := h.keepRegion
  refine ⟨⟨h.ok.head_nonneg, h.ok.head_le, h.ok.tail_le, ?_, ?_, ?_⟩, ?_⟩
  · rw [hlength]
    exact Nat.succ_pos _
  · rw [hboundary, hlength, List.length_append]
    exact Nat.le_add_right _ _
  · rw [hlength, show (shortened s).keepRegion = s.keepRegion from rfl, hkeep]
    simp only [dashed, BOUNDARY_PREFIX, List.length_cons, List.length_nil]
    omega
  · rw [delimiter, hboundary, hlength, List.take_left]

/-- The delimiter with its line break again. -/
def restored (s : Stream) : Stream :=
  { s with
    boundaryLength := s.boundary.length
    boundary := ((arraycopy s.boundary 0 s.boundary 2 (s.boundary.length - 2)).set 0 CR).set 1 LF }

theorem skipPreamble_eq (s : Stream) :
    skipPreamble s =
      (match (readToBoundary (shortened s)).1 with
        | .error e => if e.isMalformed then .ok false else .error e
        | .ok nextChunk => .ok nextChunk, restored (readToBoundary (shortened s)).2) := rfl

theorem restored_boundary {token : Bytes} (h : Framed s token)
    (hb : t.boundary = (shortened s).boundary) :
    (restored t).boundary = BOUNDARY_PREFIX ++ token ∧
      (restored t).boundaryLength = BOUNDARY_PREFIX.length + token.length := by
  obtain ⟨hboundary, -⟩ := shortened_boundary h
  rw [h.boundary] at hboundary
  rw [hboundary] at hb
  have hlen : t.boundary.length = token.length + 4 := by
    rw [hb]
    simp only [dashed, BOUNDARY_PREFIX, List.length_append, List.length_cons, List.length_nil,
      List.length_drop]
    omega
  have hcount : ((t.boundary.length : ℤ) - 2).toNat = (dashed token).length := by
    simp only [dashed, List.length_cons]
    omega
  have hend : (2 + ((t.boundary.length : ℤ) - 2)).toNat = t.boundary.length := by omega
  refine ⟨?_, ?_⟩
  · have htake : t.boundary.take (dashed token).length = dashed token := by rw [hb, List.take_left]
    have htwo : t.boundary.take 2 = [DASH, DASH] := by
      rw [hb]
      rfl
    have hcopy : arraycopy t.boundary 0 t.boundary 2 (t.boundary.length - 2) =
        DASH :: DASH :: dashed token := by
      simp only [arraycopy, hcount, hend, Int.toNat_zero, List.drop_zero, List.drop_length,
        List.append_nil, show ((2 : ℤ).toNat) = 2 from rfl, htake, htwo]
      rfl
    simp only [restored, hcopy]
    rfl
  · simp only [restored, hlen, BOUNDARY_PREFIX, List.length_cons, List.length_nil]
    omega

theorem Reached.restored {token rest : Bytes} (h : Good s token)
    (hr : Reached (shortened s) t rest) :
    Good (restored t) token ∧ pending (restored t) = rest := by
  obtain ⟨hboundary, hlength⟩ := restored_boundary h.toFramed hr.frame.boundary
  have hkeep : t.keepRegion = BOUNDARY_PREFIX.length + token.length :=
    hr.frame.keepRegion.trans h.keepRegion
  have hsize : t.bufSize = s.bufSize := hr.frame.bufSize
  have hlarge : t.keepRegion < t.bufSize := by
    rw [hsize, hr.frame.keepRegion]
    exact h.bufSize
  refine ⟨⟨⟨⟨hr.ok.head_nonneg, hr.ok.head_le, hr.ok.tail_le, ?_, ?_, ?_⟩, hboundary, hlength,
    hkeep⟩, hlarge⟩, hr.pending_eq⟩
  · rw [hlength]
    exact Nat.add_pos_left (Nat.succ_pos _) _
  · rw [hlength, hboundary, List.length_append]
  · rw [hlength]
    exact Nat.le_of_eq hkeep.symm

/-- The reader finds what a search in all pending bytes would find. -/
theorem skipPreamble_skipped {token : Bytes} (h : Good s token) :
    Skipped s token (preamble token (pending s)) (skipPreamble s) := by
  obtain ⟨hok, hdelimiter⟩ := h.shortened_ok
  obtain ⟨-, hlength⟩ := shortened_boundary h.toFramed
  have hbody := readBodyData_body hok
  have hpending : pending (shortened s) = pending s := rfl
  have hbufSize : (shortened s).bufSize = s.bufSize := rfl
  have hlarge := h.bufSize
  rw [skipPreamble_eq, readToBoundary, discardBodyData]
  generalize readBodyData (shortened s) = r at hbody
  cases hbody with
  | @done t i find moved in_window =>
    rw [hdelimiter, hpending] at find
    have hmarked := readBoundary_marked moved.ok
      (moved.reached.size_pos (by rw [hbufSize]; omega)) in_window
    rw [moved.pending_eq, hpending, List.drop_drop, moved.frame.boundaryLength, hlength] at hmarked
    simp only [preamble, find, Except.map]
    generalize readBoundary t = r at hmarked
    cases hmarked with
    | next marker_eq reached =>
      rw [marker_eq]
      obtain ⟨hgood, hrest⟩ := (moved.reached.trans reached).restored h
      exact .part hgood hrest
    | last marker_eq reached =>
      rw [marker_eq]
      obtain ⟨hgood, hrest⟩ := (moved.reached.trans reached).restored h
      exact .finished hgood hrest
    | wrong marker_eq reached =>
      rw [marker_eq]
      obtain ⟨hgood, hrest⟩ := (moved.reached.trans reached).restored h
      exact .finished hgood hrest
    | missing marker_eq drained =>
      rw [marker_eq]
      have hframe := moved.frame.trans drained.frame
      exact .drained drained.head_eq drained.tail_eq
        (restored_boundary h.toFramed hframe.boundary).2
  | cut none moved =>
    rw [hdelimiter, hpending] at none
    obtain ⟨hgood, hrest⟩ := moved.reached.restored h
    rw [hpending, show (shortened s).keepRegion = s.keepRegion from rfl, h.keepRegion] at hrest
    simp only [preamble, none]
    exact .finished hgood hrest
  | stalled moved _ stuck =>
    have hsmall := stuck.small
    rw [moved.frame.bufSize, moved.frame.keepRegion, hbufSize] at hsmall
    exact absurd hsmall (Nat.not_le.mpr hlarge)

/-! Between two parts. -/

/-- What ends the content of a part. -/
def delimiterOf (token : Bytes) : Bytes := BOUNDARY_PREFIX ++ token

theorem delimiterOf_ne_nil (token : Bytes) : delimiterOf token ≠ [] := List.cons_ne_nil _ _

theorem Good.delimiter_eq {token : Bytes} (h : Good s token) : delimiter s = delimiterOf token := by
  rw [delimiter, h.boundary, h.boundaryLength, delimiterOf, ← List.length_append, List.take_length]

theorem Good.of_reached {token rest : Bytes} (h : Good s token) (hr : Reached s t rest) :
    Good t token := by
  refine ⟨⟨hr.ok, hr.frame.boundary.trans h.boundary,
    hr.frame.boundaryLength.trans h.boundaryLength, hr.frame.keepRegion.trans h.keepRegion⟩, ?_⟩
  rw [hr.frame.keepRegion, hr.frame.bufSize]
  exact h.bufSize

theorem Good.bufSize_pos {token : Bytes} (h : Good s token) : 0 < s.bufSize :=
  Nat.zero_lt_of_lt h.bufSize

theorem Good.setBoundary {token token' : Bytes} (h : Good s token)
    (hlen : token'.length = token.length) :
    ∃ t, MultipartStream.setBoundary s token' = (.ok (), t) ∧ Good t token' ∧
      pending t = pending s := by
  have hboundary := h.boundaryLength
  have hend : ((BOUNDARY_PREFIX.length : ℤ) + token'.length).toNat = s.boundary.length := by
    rw [h.boundary, List.length_append, hlen]
    omega
  have hcopy : arraycopy token' 0 s.boundary BOUNDARY_PREFIX.length token'.length =
      BOUNDARY_PREFIX ++ token' := by
    simp only [arraycopy, Int.toNat_natCast, Int.toNat_zero, List.drop_zero, List.take_length,
      hend, List.drop_length, List.append_nil]
    rw [h.boundary, List.take_left]
  have hset : MultipartStream.setBoundary s token' =
      (.ok (), { s with boundary := BOUNDARY_PREFIX ++ token' }) := by
    rw [MultipartStream.setBoundary, if_neg (by rw [hboundary, hlen]; omega), hcopy]
  refine ⟨_, hset, ⟨⟨⟨h.ok.head_nonneg, h.ok.head_le, h.ok.tail_le, h.ok.boundaryLength_pos, ?_,
    h.ok.keepRegion_ge⟩, rfl, ?_, ?_⟩, h.bufSize⟩, rfl⟩
  · rw [List.length_append, hlen, hboundary]
  · rw [hlen]
    exact hboundary
  · rw [hlen]
    exact h.keepRegion

theorem copyLoop_unfilled (fuel : ℕ) (out : Bytes) {item : Item} (hopen : item.closed = false)
    (hpos : item.pos = -1) (hpad : item.pad < 0) (hav : available s item = 0) :
    ∃ t item', copyLoop (fuel + 1) out s item = (.error .indexOutOfBounds, t, item') := by
  have hmake : makeAvailable s item = (.error .indexOutOfBounds, s,
      { item with total := item.total + (s.tail - s.head - item.pad) }) := by
    rw [makeAvailable, if_neg (not_not.mpr hpos)]
    exact if_pos hpad
  have hread : (read s item DEFAULT_BUFFER_SIZE) = (.error .indexOutOfBounds, s,
      { item with total := item.total + (s.tail - s.head - item.pad) }) := by
    rw [read, if_neg (by simp [hopen]), if_neg (by decide), ensureAvailable, if_pos hav, hmake]
  exact ⟨_, _, by rw [copyLoop, hread]⟩

/-- A reader whose refill has failed breaks off at the next attempt to read a part. -/
theorem skipPreamble_drained (hhead : s.head = 0) (htail : s.tail = -1) :
    (skipPreamble s).1 = .error .indexOutOfBounds := by
  have hsearch : findSeparator (shortened s) = -1 := by
    rw [findSeparator, findSeparatorFrom]
    apply if_pos
    simp only [shortened, hhead, htail]
    omega
  have hitem : newInputStream (shortened s) = ⟨0, -1, -1, false⟩ := by
    rw [newInputStream, Item.findSeparator, hsearch]
    simp only [if_true, shortened, hhead, htail]
    rw [if_neg (by omega)]
    rfl
  have hav : available (shortened s) ⟨0, -1, -1, false⟩ = 0 := by
    simp only [available, if_true, shortened, hhead, htail]
    rfl
  obtain ⟨t, item, hloop⟩ := copyLoop_unfilled
    (((shortened s).tail - (shortened s).head).toNat + (shortened s).input.rest.length) [] rfl rfl
    (show (-1 : ℤ) < 0 by omega) hav
  have hcopy : (copy (shortened s) (newInputStream (shortened s))).1 =
      .error .indexOutOfBounds := by
    rw [hitem, copy, Stream.turns, hloop]
    dsimp only
    rw [if_neg (by decide)]
  have hread : (readToBoundary (shortened s)).1 = .error .indexOutOfBounds := by
    rw [readToBoundary, discardBodyData, readBodyData]
    simp only [hcopy, Except.map]
  rw [skipPreamble_eq, hread]
  rfl

theorem Good.readHeaders_cases {token : Bytes} (h : Good s token) :
    (∃ e t, headerPart 0 0 (pending s) = .error e ∧ readHeaders s = (.error e, t)) ∨
    ∃ part rest t, headerPart 0 0 (pending s) = .ok (part, rest) ∧
      readHeaders s = (.ok part, t) ∧ Good t token ∧ pending t = rest := by
  have hheaded := readHeaders_headed h.ok h.bufSize_pos
  generalize readHeaders s = r at hheaded
  generalize headerPart 0 0 (pending s) = p at hheaded
  cases hheaded with
  | @ok t part rest reached =>
    exact .inr ⟨part, rest, t, rfl, rfl, h.of_reached reached, reached.pending_eq⟩
  | @error t e he => exact .inl ⟨e, t, rfl, rfl⟩

/-- The content of a part, as it comes out of a copy. -/
theorem Good.copy_eq {token : Bytes} {item : Item} (h : Good s token) (ha : Aligned s item)
    (hopen : item.closed = false) :
    match Delimiter.find (delimiterOf token) (pending s) with
    | none => ∃ t item', copy s item = (.error .streamEnded, t, item')
    | some i => ∃ t item', copy s item = (.ok ((pending s).take i), t, item') ∧
        item'.closed = true ∧ Good t token ∧ pending t = (pending s).drop i := by
  have hended := copyLoop_ended s.turns [] h.ok ha hopen (by have := h.ok.length_pending; omega)
  rw [copy]
  generalize copyLoop s.turns [] s item = r at hended
  rw [← h.delimiter_eq]
  cases hended with
  | done i find moved aligned pos_ne none_left closed_eq =>
    simp only [find, close_at_end pos_ne none_left closed_eq]
    exact ⟨_, _, rfl, rfl, h.of_reached moved.reached, moved.pending_eq⟩
  | cut none moved aligned truncated closed_eq =>
    simp only [none]
    exact ⟨_, _, rfl⟩
  | stalled moved _ stuck =>
    have hsmall := stuck.small
    have hlarge := h.bufSize
    rw [moved.frame.bufSize, moved.frame.keepRegion] at hsmall
    exact absurd hsmall (Nat.not_le.mpr hlarge)

theorem Good.discardBodyData_eq {token : Bytes} (h : Good s token) :
    match Delimiter.find (delimiterOf token) (pending s) with
    | none => ∃ t, discardBodyData s = (.error .streamEnded, t)
    | some i => ∃ t, discardBodyData s = (.ok (), t) ∧ Good t token ∧
        pending t = (pending s).drop i := by
  have hcopy := h.copy_eq (aligned_findSeparator h.ok _) (findSeparator_closed s ⟨0, 0, 0, false⟩)
  rw [discardBodyData, readBodyData, newInputStream]
  cases hfind : Delimiter.find (delimiterOf token) (pending s) with
  | none =>
    rw [hfind] at hcopy
    obtain ⟨t, item', heq⟩ := hcopy
    simp only [heq]
    exact ⟨t, rfl⟩
  | some i =>
    rw [hfind] at hcopy
    obtain ⟨t, item', heq, -, hgood, hpending⟩ := hcopy
    simp only [heq]
    exact ⟨t, rfl, hgood, hpending⟩

/-! The listener's numbers do not matter to the reader. -/

theorem Good.of_notifier {token : Bytes} (h : Good s token) (notifier : ProgressNotifier) :
    Good { s with notifier } token :=
  ⟨⟨⟨h.ok.head_nonneg, h.ok.head_le, h.ok.tail_le, h.ok.boundaryLength_pos,
    h.ok.boundaryLength_le, h.ok.keepRegion_ge⟩, h.boundary, h.boundaryLength, h.keepRegion⟩,
    h.bufSize⟩

/-! The beginning of a request. -/

/-- A new reader stands in front of the whole body. -/
theorem framed_create (boundary body : Bytes) (plan : List ℕ) (bufSize : ℕ)
    (notifier : ProgressNotifier) :
    Framed (create ⟨body, plan⟩ boundary bufSize notifier) boundary ∧
      pending (create ⟨body, plan⟩ boundary bufSize notifier) = body := by
  have hlen : BOUNDARY_PREFIX.length = 4 := rfl
  refine ⟨⟨⟨Int.le_refl _, Int.le_refl _, Int.natCast_nonneg _, ?_, ?_, Nat.le_refl _⟩, rfl,
    Nat.add_comm _ _, Nat.add_comm _ _⟩, ?_⟩
  · simp only [create]
    omega
  · simp only [create, List.length_append]
    omega
  · simp [pending, window, create]

theorem good_create (boundary body : Bytes) (plan : List ℕ) {bufSize : ℕ}
    (notifier : ProgressNotifier) (h : boundary.length + BOUNDARY_PREFIX.length < bufSize) :
    Good (create ⟨body, plan⟩ boundary bufSize notifier) boundary := by
  refine ⟨(framed_create boundary body plan bufSize notifier).1, ?_⟩
  simp only [create, Stream.bufSize, List.length_replicate]
  exact h

theorem readBoundary_ne_stalled (h : Ok s) (hwindow : delimiter s <+: window s) :
    (readBoundary s).1 ≠ .error .stalled := by
  have hlen := hwindow.length_le
  have hpos := h.boundaryLength_pos
  have htail := h.tail_le
  have hhead := h.head_nonneg
  have hroom := h.length_window
  rw [h.length_delimiter] at hlen
  have hsize : 0 < s.bufSize := by
    rw [Stream.bufSize]
    omega
  have hmarked := readBoundary_marked h hsize hwindow
  generalize readBoundary s = r at hmarked
  cases hmarked <;> simp

/-- The search for the first part hangs exactly if the boundary fills the buffer, the request does
too, and the first delimiter is not in it. -/
theorem first_search_hangs_iff (boundary body : Bytes) (plan : List ℕ) (bufSize : ℕ)
    (notifier : ProgressNotifier) :
    (skipPreamble (create ⟨body, plan⟩ boundary bufSize notifier)).1 = .error .stalled ↔
      bufSize ≤ boundary.length + BOUNDARY_PREFIX.length ∧ bufSize ≤ body.length ∧
        Delimiter.find (dashed boundary) (body.take bufSize) = none := by
  obtain ⟨hframed, hpending⟩ := framed_create boundary body plan bufSize notifier
  obtain ⟨hok, hdelimiter⟩ := hframed.shortened_ok
  generalize hs : shortened (create ⟨body, plan⟩ boundary bufSize notifier) = s at hok hdelimiter
  have hstuck : Stuck s ↔ bufSize ≤ boundary.length + BOUNDARY_PREFIX.length ∧
      bufSize ≤ body.length ∧ Delimiter.find (dashed boundary) (body.take bufSize) = none := by
    have hsize : s.bufSize = bufSize := by
      rw [← hs]
      simp [shortened, create, Stream.bufSize]
    have hall : pending s = body := by
      rw [← hs]
      exact hpending
    have hkeep : s.keepRegion = boundary.length + BOUNDARY_PREFIX.length := by
      rw [← hs]
      rfl
    constructor
    · rintro ⟨hnone, hlong, hsmall⟩
      rw [hdelimiter, hall, hsize] at hnone
      rw [hsize, hall] at hlong
      rw [hsize, hkeep] at hsmall
      exact ⟨hsmall, hlong, hnone⟩
    · rintro ⟨hsmall, hlong, hnone⟩
      refine ⟨?_, ?_, ?_⟩
      · rwa [hdelimiter, hall, hsize]
      · rwa [hsize, hall]
      · rwa [hsize, hkeep]
  rw [← hstuck, ← readBodyData_stalls_iff hok, skipPreamble_eq, hs, readToBoundary, discardBodyData]
  have hbody := readBodyData_body hok
  generalize readBodyData s = r at hbody
  cases hbody with
  | @done t i find moved in_window =>
    have hne := readBoundary_ne_stalled moved.ok in_window
    simp only [Except.map]
    generalize readBoundary t = r at hne
    obtain ⟨result, t'⟩ := r
    cases result with
    | ok b => simp
    | error e =>
      dsimp only at hne ⊢
      split <;> simp_all
  | cut none moved => simp [Except.map, Fault.isMalformed]
  | stalled => simp [Except.map, Fault.isMalformed]

end MultipartStream
