import AndroidDebug.MultipartStream

/-! What the stream of an item hands over: the bytes up to the next delimiter, however the
request arrives. -/
namespace MultipartStream

open ByteSource

/-- The bytes of the buffer that have not been handed over. -/
def window (s : Stream) : Bytes := (s.buffer.take s.tail.toNat).drop s.head.toNat

/-- What the reader has not passed yet, in the buffer or still to come. -/
def pending (s : Stream) : Bytes := window s ++ s.input.rest

def delimiter (s : Stream) : Bytes := s.boundary.take s.boundaryLength

structure Ok (s : Stream) : Prop where
  head_nonneg : 0 ≤ s.head
  head_le : s.head ≤ s.tail
  tail_le : s.tail ≤ s.buffer.length
  boundaryLength_pos : 0 < s.boundaryLength
  boundaryLength_le : s.boundaryLength ≤ s.boundary.length
  keepRegion_ge : s.boundaryLength ≤ s.keepRegion

variable {s : Stream}

theorem Ok.length_delimiter (h : Ok s) : (delimiter s).length = s.boundaryLength := by
  rw [delimiter, List.length_take, Nat.min_eq_left h.boundaryLength_le]

theorem Ok.delimiter_ne_nil (h : Ok s) : delimiter s ≠ [] := by
  apply List.ne_nil_of_length_pos
  rw [h.length_delimiter]
  exact h.boundaryLength_pos

theorem Ok.length_window (h : Ok s) : ((window s).length : ℤ) = s.tail - s.head := by
  have := h.head_nonneg
  have := h.head_le
  have := h.tail_le
  rw [window, List.length_drop, List.length_take]
  omega

/-! The search in the buffer. -/

section Search

variable {t : ℕ}

/-- The bytes from `f` on that the search may look at. -/
def span (s : Stream) (t f : ℕ) : Bytes := (s.buffer.take t).drop f

theorem getElem?_span {f j : ℕ} (h : f + j < t) : (span s t f)[j]? = s.buffer[f + j]? := by
  rw [span, List.getElem?_drop, List.getElem?_take_of_lt h]

theorem length_span {f : ℕ} (hlen : t ≤ s.buffer.length) : (span s t f).length = t - f := by
  rw [span, List.length_drop, List.length_take, Nat.min_eq_left hlen]

theorem drop_span (f j : ℕ) : (span s t f).drop j = span s t (f + j) := by
  rw [span, List.drop_drop, span]

theorem findByte_none {value : UInt8} {f : ℕ} (ht : s.tail = t) (h : findByte s value f = -1)
    (j : ℕ) (hj : f + j < t) : s.buffer[f + j]? ≠ some value := by
  simp only [findByte, ht] at h
  split at h
  · omega
  · rename_i hnone
    have := List.find?_eq_none.mp hnone j (List.mem_range.mpr (by omega))
    simpa using this

theorem findByte_some {value : UInt8} {f : ℕ} (ht : s.tail = t) (h : findByte s value f ≠ -1) :
    ∃ j, findByte s value f = (f + j : ℕ) ∧ f + j < t ∧ s.buffer[f + j]? = some value ∧
      ∀ k < j, s.buffer[f + k]? ≠ some value := by
  simp only [findByte, ht] at h ⊢
  split at h
  · rename_i j hj
    obtain ⟨hval, hmem, hbefore⟩ := List.find?_range_eq_some.mp hj
    have hjt := List.mem_range.mp hmem
    refine ⟨j, by omega, by omega, by simpa using hval, fun k hk => ?_⟩
    simpa using hbefore k hk
  · exact absurd rfl h

/-- Where a first byte differs there is no delimiter. -/
theorem first_of_prefix {d w : Bytes} (hd : d ≠ []) (h : d <+: w) : w[0]? = some (d.headD 0) := by
  obtain ⟨b, d', rfl⟩ := List.exists_cons_of_ne_nil hd
  obtain ⟨r, rfl⟩ := h
  rfl

theorem matchesAt_iff (h : Ok s) {f : ℕ} (hf : s.buffer[f]? = some (s.boundary.headD 0))
    (hlen : f + s.boundaryLength ≤ t) (ht : t ≤ s.buffer.length) :
    matchesAt s f = true ↔ delimiter s <+: span s t f := by
  have hspan : s.boundaryLength ≤ (span s t f).length := by
    rw [length_span ht]
    omega
  rw [List.prefix_iff_eq_take, h.length_delimiter, matchesAt, List.all_eq_true]
  have hget : ∀ k < s.boundaryLength, (delimiter s)[k]? = s.boundary[k]? := fun k hk => by
    rw [delimiter, List.getElem?_take_of_lt hk]
  constructor
  · intro hall
    apply List.ext_getElem?
    intro k
    by_cases hk : k < s.boundaryLength
    · rw [hget k hk, List.getElem?_take_of_lt hk, getElem?_span (by omega)]
      have := hall k (List.mem_range.mpr hk)
      simp only [Int.toNat_natCast, Bool.or_eq_true, beq_iff_eq, decide_eq_true_eq] at this
      rcases this with rfl | this
      · rw [Nat.add_zero, hf]
        have := h.boundaryLength_le
        cases hb : s.boundary with
        | nil => simp [hb] at this; omega
        | cons b bs => rfl
      · exact this.symm
    · rw [List.getElem?_eq_none (by rw [h.length_delimiter]; omega),
        List.getElem?_eq_none (by rw [List.length_take]; omega)]
  · intro heq k hk
    have hk := List.mem_range.mp hk
    have : (delimiter s)[k]? = s.buffer[f + k]? := by
      rw [heq, List.getElem?_take_of_lt hk, getElem?_span (by omega)]
    rw [hget k hk] at this
    simp [this]

theorem headD_delimiter (h : Ok s) : (delimiter s).headD 0 = s.boundary.headD 0 := by
  have := h.boundaryLength_pos
  obtain ⟨n, hn⟩ := Nat.exists_eq_succ_of_ne_zero (Nat.ne_of_gt this)
  cases hb : s.boundary <;> simp [delimiter, hb, hn]

theorem findSeparatorFrom_eq (h : Ok s) (ht : s.tail = t) (hlen : t ≤ s.buffer.length)
    (fuel f : ℕ) (hfuel : t < fuel + f) :
    findSeparatorFrom s fuel f =
      match Delimiter.find (delimiter s) (span s t f) with
      | none => -1
      | some i => (f + i : ℕ) := by
  induction fuel generalizing f with
  | zero =>
    rw [Delimiter.find_eq_none_of_length]
    · rfl
    · rw [length_span hlen, h.length_delimiter]
      have := h.boundaryLength_pos
      omega
  | succ fuel ih =>
    have hd := h.delimiter_ne_nil
    have hheadD := headD_delimiter h
    rw [findSeparatorFrom]
    by_cases hmax : s.tail - s.boundaryLength < f
    · rw [if_pos hmax, Delimiter.find_eq_none_of_length]
      rw [length_span hlen, h.length_delimiter]
      have := h.boundaryLength_pos
      omega
    rw [if_neg hmax]
    by_cases hnone : findByte s (s.boundary.headD 0) f = -1
    · have hfind : Delimiter.find (delimiter s) (span s t f) = none := by
        rw [Delimiter.find_eq_none_iff hd]
        intro j hpre
        have hj := first_of_prefix hd hpre
        rw [drop_span] at hj
        have hjt : f + j < t := by
          have := (List.getElem?_eq_some_iff.mp hj).1
          rw [length_span hlen] at this
          omega
        rw [getElem?_span (by omega), hheadD] at hj
        exact findByte_none ht hnone j hjt hj
      rw [if_pos (.inl hnone), hfind]
    · obtain ⟨j, hj, hjt, hval, hbefore⟩ := findByte_some ht hnone
      -- no delimiter begins before the byte that was found
      have hskip : Delimiter.find (delimiter s) (span s t f) =
          (Delimiter.find (delimiter s) (span s t (f + j))).map (· + j) := by
        have hcut : span s t f = (span s t f).take j ++ span s t (f + j) := by
          rw [← drop_span, List.take_append_drop]
        have htake : ((span s t f).take j).length = j := by
          rw [List.length_take, length_span hlen]
          omega
        rw [hcut, Delimiter.find_skip, htake]
        intro k hk hpre
        rw [← hcut, drop_span] at hpre
        have hk' := first_of_prefix hd hpre
        rw [htake] at hk
        rw [getElem?_span (by omega), hheadD] at hk'
        exact hbefore k hk hk'
      simp only [hj]
      by_cases hlast : s.tail - s.boundaryLength < (f + j : ℕ)
      · have hfind : Delimiter.find (delimiter s) (span s t (f + j)) = none := by
          apply Delimiter.find_eq_none_of_length
          rw [length_span hlen, h.length_delimiter]
          omega
        rw [if_pos (.inr hlast), hskip, hfind]
        rfl
      rw [if_neg (by omega)]
      have hroom : f + j + s.boundaryLength ≤ t := by omega
      have hiff := matchesAt_iff h hval hroom hlen
      by_cases hmatch : matchesAt s (f + j : ℕ) = true
      · rw [if_pos hmatch, hskip, (Delimiter.find_eq_zero_iff hd _).mpr (hiff.mp hmatch)]
        simp
      · rw [if_neg hmatch, hskip]
        have hnext := ih (f + j + 1) (by omega)
        have hcast : ((f + j : ℕ) : ℤ) + 1 = (f + j + 1 : ℕ) := by omega
        rw [hcast, hnext]
        cases hspan : span s t (f + j) with
        | nil =>
          have := congrArg List.length hspan
          rw [length_span hlen] at this
          simp only [List.length_nil] at this
          omega
        | cons b rest =>
          have hrest : span s t (f + j + 1) = rest := by
            rw [← drop_span, hspan, List.drop_succ_cons, List.drop_zero]
          rw [hspan] at hiff
          rw [Delimiter.find_cons_neg fun hpre => hmatch (hiff.mpr hpre), hrest]
          cases Delimiter.find (delimiter s) rest with
          | none => rfl
          | some i =>
            simp only [Option.map_some]
            exact congrArg Nat.cast (by omega)

end Search

theorem findSeparator_eq (h : Ok s) :
    findSeparator s =
      match Delimiter.find (delimiter s) (window s) with
      | none => -1
      | some i => s.head + i := by
  obtain ⟨f, hf⟩ := Int.eq_ofNat_of_zero_le h.head_nonneg
  have hnonneg : 0 ≤ s.tail := Int.le_trans h.head_nonneg h.head_le
  obtain ⟨t, ht⟩ := Int.eq_ofNat_of_zero_le hnonneg
  have hle := h.tail_le
  have := findSeparatorFrom_eq h ht (by omega) ((s.tail - s.head).toNat + 1) f (by omega)
  rw [findSeparator, hf]
  rw [hf] at this
  rw [this]
  simp only [window, span, hf, ht, Int.toNat_natCast, Int.natCast_add]

/-! How the reader moves on. -/

/-- Reads only change what the buffer holds. -/
structure Frame (s t : Stream) : Prop where
  boundary : t.boundary = s.boundary
  boundaryLength : t.boundaryLength = s.boundaryLength
  keepRegion : t.keepRegion = s.keepRegion
  bufSize : t.bufSize = s.bufSize

theorem Frame.refl (s : Stream) : Frame s s := ⟨rfl, rfl, rfl, rfl⟩

theorem Frame.trans {s t u : Stream} (h : Frame s t) (h' : Frame t u) : Frame s u :=
  ⟨h'.boundary.trans h.boundary, h'.boundaryLength.trans h.boundaryLength,
    h'.keepRegion.trans h.keepRegion, h'.bufSize.trans h.bufSize⟩

theorem Frame.delimiter {s t : Stream} (h : Frame s t) :
    MultipartStream.delimiter t = MultipartStream.delimiter s := by
  rw [MultipartStream.delimiter, h.boundary, h.boundaryLength, MultipartStream.delimiter]

structure Moved (s t : Stream) (n : ℕ) : Prop where
  ok : Ok t
  frame : Frame s t
  pending_eq : pending t = (pending s).drop n

theorem Moved.refl (h : Ok s) : Moved s s 0 := ⟨h, .refl s, rfl⟩

theorem Moved.trans {s t u : Stream} {m n : ℕ} (h : Moved s t m) (h' : Moved t u n) :
    Moved s u (m + n) :=
  ⟨h'.ok, h.frame.trans h'.frame, by rw [h'.pending_eq, h.pending_eq, List.drop_drop]⟩

theorem window_advance (h : Ok s) (n : ℕ) :
    window { s with head := s.head + n } = (window s).drop n := by
  have := h.head_nonneg
  simp only [window, List.drop_drop]
  congr 1
  omega

theorem moved_advance (h : Ok s) {n : ℕ} (hn : n ≤ (window s).length) :
    Moved s { s with head := s.head + n } n := by
  have hlen := h.length_window
  have := h.head_nonneg
  refine ⟨⟨?_, ?_, h.tail_le, h.boundaryLength_pos, h.boundaryLength_le, h.keepRegion_ge⟩,
    ⟨rfl, rfl, rfl, rfl⟩, ?_⟩
  · dsimp only
    omega
  · dsimp only
    omega
  · simp only [pending, window_advance h n]
    rw [List.drop_append_of_le_length hn]

/-- The marks of an item are right: `pos` is the next delimiter in the buffer, or there is none in
it and `pad` bytes are kept back. -/
inductive Aligned (s : Stream) (item : Item) : Prop where
  | unseen (pos_eq : item.pos = -1)
      (none : Delimiter.find (delimiter s) (window s) = none)
      (pad_nonneg : 0 ≤ item.pad) (pad_le : item.pad ≤ s.tail - s.head)
      (pad_eq : item.pad = s.keepRegion ∨ item.pad = s.tail - s.head ∧ item.pad ≤ s.keepRegion)
  | seen (i : ℕ) (some : Delimiter.find (delimiter s) (window s) = some i)
      (pos_eq : item.pos = s.head + i)

theorem aligned_findSeparator (h : Ok s) (item : Item) : Aligned s (item.findSeparator s) := by
  have hle := h.head_le
  rw [Item.findSeparator, findSeparator_eq h]
  cases hfind : Delimiter.find (delimiter s) (window s) with
  | none =>
    simp only [if_true]
    split
    · exact .unseen rfl hfind (Int.natCast_nonneg _) (by dsimp only; omega) (.inl rfl)
    · exact .unseen rfl hfind (by dsimp only; omega) (Int.le_refl _)
        (.inr ⟨rfl, by dsimp only; omega⟩)
  | some i =>
    have := h.head_nonneg
    have hne : s.head + (i : ℤ) ≠ -1 := by omega
    simp only [hne, if_false]
    exact .seen i hfind rfl

@[simp] theorem findSeparator_closed (s : Stream) (item : Item) :
    (item.findSeparator s).closed = item.closed := by
  rw [Item.findSeparator]
  split <;> rfl

variable {item : Item}

theorem Aligned.available_nonneg (h : Aligned s item) (hs : Ok s) : 0 ≤ available s item := by
  cases h with
  | unseen pos_eq _ _ pad_le _ =>
    rw [available, if_pos pos_eq]
    omega
  | seen i _ pos_eq =>
    have := hs.head_nonneg
    rw [available, if_neg (by omega)]
    omega

/-- What is available is in the buffer and belongs to the item. -/
theorem Aligned.available_le (h : Aligned s item) (hs : Ok s) :
    (available s item).toNat ≤ (window s).length ∧
      (available s item).toNat ≤ Delimiter.segment (delimiter s) s.keepRegion (pending s) := by
  have hwindow := hs.length_window
  cases h with
  | unseen pos_eq hnone pad_nonneg pad_le pad_eq =>
    rw [available, if_pos pos_eq]
    refine ⟨by omega, ?_⟩
    rcases pad_eq with hpad | ⟨hpad, -⟩
    · have hd := hs.delimiter_ne_nil
      have hlen := hs.length_delimiter
      have hkeep := hs.keepRegion_ge
      have hdrop := Delimiter.find_drop hd (k := (s.tail - s.head - item.pad).toNat) hnone
        (by omega) s.input.rest
      cases hfind : Delimiter.find (delimiter s) (pending s) with
      | none =>
        rw [Delimiter.segment_of_none hfind, pending, List.length_append]
        omega
      | some i =>
        rw [Delimiter.segment_of_find hfind]
        rw [pending, hdrop, Option.map_eq_some_iff] at hfind
        obtain ⟨j, -, rfl⟩ := hfind
        omega
    · omega
  | seen i hsome pos_eq =>
    have := hs.head_nonneg
    have hfind := Delimiter.find_append hsome s.input.rest
    rw [available, if_neg (by omega), pending, Delimiter.segment_of_find hfind]
    have := Delimiter.find_le_length hsome
    omega

/-- Bytes of the item may be passed. -/
theorem Aligned.advance (h : Aligned s item) (hs : Ok s) {n : ℕ}
    (hn : (n : ℤ) ≤ available s item) : Aligned { s with head := s.head + n } item := by
  have hle := (h.available_le hs).1
  have hwindow := window_advance hs n
  have hnonneg := hs.head_nonneg
  cases h with
  | unseen pos_eq hnone pad_nonneg pad_le pad_eq =>
    rw [available, if_pos pos_eq] at hn
    refine .unseen pos_eq ?_ pad_nonneg (by dsimp only; omega) ?_
    · rw [hwindow]
      exact Delimiter.find_drop_eq_none hs.delimiter_ne_nil hnone n
    · rcases pad_eq with hpad | ⟨hpad, hkeep⟩
      · exact .inl hpad
      · exact .inr ⟨by dsimp only; omega, hkeep⟩
  | seen i hsome pos_eq =>
    rw [available, if_neg (by omega)] at hn
    refine .seen (i - n) ?_ (by dsimp only; omega)
    rw [hwindow]
    exact Delimiter.find_drop_of_le hs.delimiter_ne_nil hsome (by omega)

theorem take_arraycopy (src dest : Bytes) {destPos : ℕ} (h : destPos ≤ dest.length) (n : ℕ)
    (hn : n ≤ src.length) :
    (arraycopy src 0 dest destPos n).take (destPos + n) = dest.take destPos ++ src.take n := by
  have hlen : (dest.take destPos ++ src.take n).length = destPos + n := by
    rw [List.length_append, List.length_take, List.length_take]
    omega
  simp only [arraycopy, Int.toNat_natCast, Int.toNat_zero, List.drop_zero]
  rw [List.take_append_of_le_length (Nat.le_of_eq hlen.symm),
    List.take_of_length_le (Nat.le_of_eq hlen)]

theorem length_arraycopy {src dest : Bytes} (srcPos destPos : ℕ) {n : ℕ}
    (hsrc : srcPos + n ≤ src.length) (hdest : destPos + n ≤ dest.length) :
    (arraycopy src srcPos dest destPos n).length = dest.length := by
  have hsum : ((destPos : ℤ) + n).toNat = destPos + n := by omega
  simp only [arraycopy, Int.toNat_natCast, hsum, List.length_append, List.length_take,
    List.length_drop]
  omega

theorem moved_filled (h : Ok s) {bytes : Bytes} {input : Source UInt8}
    (hread : s.input.read (s.bufSize - s.tail).toNat = some (bytes, input)) :
    Moved s (s.filled s.tail bytes input) 0 ∧
      window (s.filled s.tail bytes input) = window s ++ bytes := by
  have hbrings := brings_of_read hread
  have hhead := h.head_nonneg
  have hle := h.head_le
  have htail := h.tail_le
  obtain ⟨t, ht⟩ := Int.eq_ofNat_of_zero_le (Int.le_trans hhead hle)
  have hroom : t + bytes.length ≤ s.buffer.length := by
    have := hbrings.length_le
    rw [Stream.bufSize, ht] at this
    omega
  have hsize : (arraycopy bytes 0 s.buffer t bytes.length).length = s.buffer.length :=
    length_arraycopy 0 t (by omega) hroom
  have hwindow : window (s.filled s.tail bytes input) = window s ++ bytes := by
    have hsum : ((t : ℤ) + bytes.length).toNat = t + bytes.length := by omega
    have htake := take_arraycopy bytes s.buffer (show t ≤ s.buffer.length by omega)
      bytes.length (Nat.le_refl _)
    rw [List.take_length] at htake
    simp only [window, Stream.filled, ht, hsum, Int.toNat_natCast, htake]
    rw [List.drop_append_of_le_length]
    rw [List.length_take]
    omega
  refine ⟨⟨⟨hhead, ?_, ?_, h.boundaryLength_pos, h.boundaryLength_le, h.keepRegion_ge⟩,
    ⟨rfl, rfl, rfl, ?_⟩, ?_⟩, hwindow⟩
  · simp only [Stream.filled]
    omega
  · simp only [Stream.filled, ht, hsize]
    omega
  · simp only [Stream.bufSize, Stream.filled, ht, hsize]
  · rw [pending, hwindow, pending, hbrings.rest_eq, List.append_assoc]
    rfl

inductive Refilled (s : Stream) (item : Item) : Except Fault ℤ × Stream × Item → Prop
  | served {t : Stream} {item' : Item} (moved : Moved s t 0) (aligned : Aligned t item')
      (closed : item'.closed = item.closed)
      (more : 0 < available t item' ∨ item'.pos ≠ -1) :
      Refilled s item (.ok (available t item'), t, item')
  | ended {t : Stream} {item' : Item} (moved : Moved s t 0) (aligned : Aligned t item')
      (closed : item'.closed = item.closed)
      (none_left : available t item' = 0) (pos_eq : item'.pos = -1) (head_eq : t.head = 0)
      (room : t.tail < t.bufSize) (rest : t.input.rest = []) :
      Refilled s item (.error .streamEnded, t, item')
  | stalled {t : Stream} {item' : Item} (moved : Moved s t 0) (aligned : Aligned t item')
      (none_left : available t item' = 0) (pos_eq : item'.pos = -1)
      (full : (window t).length = s.bufSize) :
      Refilled s item (.error .stalled, t, item')

theorem Refilled.of_moved {t : Stream} {item' : Item} {r : Except Fault ℤ × Stream × Item}
    (hm : Moved s t 0) (hclosed : item'.closed = item.closed)
    (h : Refilled t item' r) : Refilled s item r := by
  cases h with
  | served moved aligned closed more =>
    exact .served (hm.trans moved) aligned (closed.trans hclosed) more
  | ended moved aligned closed none_left pos_eq head_eq room rest =>
    exact .ended (hm.trans moved) aligned (closed.trans hclosed) none_left pos_eq
      head_eq room rest
  | stalled moved aligned none_left pos_eq full =>
    exact .stalled (hm.trans moved) aligned none_left pos_eq (full.trans hm.frame.bufSize)

/-- By induction on the turns: each one that goes on leaves the marks right and the item with
nothing available. -/
theorem refill_refilled (h : Ok s) (ha : Aligned s item) (hpos : item.pos = -1)
    (hav : available s item = 0) (hhead : s.head = 0) :
    Refilled s item (refill s item) := by
  fun_induction refill s item with
  | case1 s item hread =>
    obtain ⟨hroom, hrest⟩ := read_eq_none_iff.mp hread
    exact .ended (.refl h) ha rfl hav hpos hhead (by omega) hrest
  | case2 s item bytes input hread t item' av hmore =>
    obtain ⟨hmoved, -⟩ := moved_filled h hread
    exact .served hmoved (aligned_findSeparator hmoved.ok item) (findSeparator_closed t item)
      hmore
  | case3 s item input hread t item' av hmore =>
    obtain ⟨hmoved, hwindow⟩ := moved_filled h hread
    have haligned := aligned_findSeparator hmoved.ok item
    obtain ⟨hnone, hpos'⟩ := not_or.mp hmore
    have hzero : available t item' = 0 :=
      Int.le_antisymm (Int.not_lt.mp hnone) (haligned.available_nonneg hmoved.ok)
    refine .stalled hmoved haligned hzero (not_not.mp hpos') ?_
    have hlen := h.length_window
    have htail := h.tail_le
    have hfull : ¬0 < (s.bufSize - s.tail).toNat := fun hpos =>
      (brings_of_read hread).ne_nil hpos rfl
    rw [hwindow, List.append_nil]
    rw [Stream.bufSize] at hfull ⊢
    omega
  | case4 s item bytes input hread t item' av hmore hne hlt ih =>
    obtain ⟨hmoved, -⟩ := moved_filled h hread
    have haligned := aligned_findSeparator hmoved.ok item
    obtain ⟨hnone, hpos'⟩ := not_or.mp hmore
    have hzero : available t item' = 0 :=
      Int.le_antisymm (Int.not_lt.mp hnone) (haligned.available_nonneg hmoved.ok)
    exact (ih hmoved.ok haligned (not_not.mp hpos') hzero hhead).of_moved hmoved
      (findSeparator_closed t item)

/-- Moving the bytes kept back to the start of the buffer. -/
theorem moved_compact (h : Ok s) {pad : ℤ} (hnonneg : 0 ≤ pad) (hpad : pad = s.tail - s.head) :
    Moved s { s with
      buffer := arraycopy s.buffer (s.tail - pad) s.buffer 0 pad, head := 0, tail := pad } 0 ∧
    window { s with
      buffer := arraycopy s.buffer (s.tail - pad) s.buffer 0 pad, head := 0, tail := pad } =
        window s := by
  obtain ⟨pad, rfl⟩ := Int.eq_ofNat_of_zero_le hnonneg
  have hhead := h.head_nonneg
  have htail := h.tail_le
  obtain ⟨f, hf⟩ := Int.eq_ofNat_of_zero_le hhead
  have hstart : s.tail - pad = f := by omega
  have hend : s.tail = (f + pad : ℕ) := by omega
  have hbound : f + pad ≤ s.buffer.length := by omega
  have hsize : (arraycopy s.buffer (s.tail - pad) s.buffer 0 pad).length = s.buffer.length := by
    rw [hstart]
    exact length_arraycopy f 0 hbound (by omega)
  have hwindow : window { s with
      buffer := arraycopy s.buffer (s.tail - pad) s.buffer 0 pad, head := 0, tail := pad } =
        window s := by
    have hlen : ((s.buffer.drop f).take pad).length = pad := by
      rw [List.length_take, List.length_drop]
      omega
    have hback : (s.tail - pad).toNat = f := by omega
    have htoNat : s.tail.toNat = f + pad := by omega
    simp only [window, arraycopy, hback, htoNat, hf, Int.toNat_natCast, Int.toNat_zero,
      List.take_zero, List.nil_append, List.drop_zero]
    rw [List.take_append_of_le_length (Nat.le_of_eq hlen.symm),
      List.take_of_length_le (Nat.le_of_eq hlen), List.take_drop, Nat.add_comm]
  refine ⟨⟨⟨Int.le_refl _, Int.natCast_nonneg _, ?_, h.boundaryLength_pos,
    h.boundaryLength_le, h.keepRegion_ge⟩, ⟨rfl, rfl, rfl, hsize⟩, ?_⟩,
    hwindow⟩
  · dsimp only
    omega
  · rw [pending, hwindow]
    rfl

/-- What happens when the item asks for bytes and there are none. -/
theorem makeAvailable_refilled (h : Ok s) (ha : Aligned s item) (hpos : item.pos = -1)
    (hav : available s item = 0) : Refilled s item (makeAvailable s item) := by
  cases ha with
  | seen i _ pos_eq =>
    have := h.head_nonneg
    omega
  | unseen _ hnone pad_nonneg pad_le pad_eq =>
    rw [available, if_pos hpos] at hav
    obtain ⟨hmoved, hwindow⟩ := moved_compact h pad_nonneg (by omega)
    rw [makeAvailable, if_neg (not_not.mpr hpos)]
    simp only [hav, Int.add_zero]
    rw [if_neg (Int.not_lt.mpr pad_nonneg)]
    rw [← hwindow] at hnone
    have haligned : Aligned { s with
        buffer := arraycopy s.buffer (s.tail - item.pad) s.buffer 0 item.pad, head := 0,
        tail := item.pad } item :=
      .unseen hpos hnone pad_nonneg (by dsimp only; omega) (by dsimp only; omega)
    have hzero : available { s with
        buffer := arraycopy s.buffer (s.tail - item.pad) s.buffer 0 item.pad, head := 0,
        tail := item.pad } item = 0 := by
      rw [available, if_pos hpos]
      dsimp only
      omega
    exact (refill_refilled hmoved.ok haligned hpos hzero rfl).of_moved hmoved rfl

/-! What a call of the item can come to. -/

/-- No delimiter and less than the buffer may keep back: the request ended in the item. -/
structure Truncated (s : Stream) : Prop where
  none : Delimiter.find (delimiter s) (pending s) = none
  length_le : (pending s).length ≤ s.keepRegion
  length_lt : (pending s).length < s.bufSize

/-- The buffer is full, has no delimiter in it and is kept back as a whole. -/
structure Stuck (s : Stream) : Prop where
  none : Delimiter.find (delimiter s) ((pending s).take s.bufSize) = none
  length_le : s.bufSize ≤ (pending s).length
  small : s.bufSize ≤ s.keepRegion

theorem Aligned.truncated (h : Aligned s item) (hs : Ok s) (hav : available s item = 0)
    (hpos : item.pos = -1) (hhead : s.head = 0) (hroom : s.tail < s.bufSize)
    (hrest : s.input.rest = []) : Truncated s := by
  have hlen := hs.length_window
  cases h with
  | seen i _ pos_eq => omega
  | unseen _ hnone pad_nonneg pad_le pad_eq =>
    rw [available, if_pos hpos] at hav
    have hpending : pending s = window s := by rw [pending, hrest, List.append_nil]
    refine ⟨by rw [hpending]; exact hnone, ?_, ?_⟩
    · rw [hpending]
      omega
    · rw [hpending]
      omega

theorem Aligned.stuck (h : Aligned s item) (hs : Ok s) (hav : available s item = 0)
    (hpos : item.pos = -1) (hfull : (window s).length = s.bufSize) : Stuck s := by
  have hlen := hs.length_window
  have hhead := hs.head_nonneg
  cases h with
  | seen i _ pos_eq => omega
  | unseen _ hnone pad_nonneg pad_le pad_eq =>
    rw [available, if_pos hpos] at hav
    refine ⟨?_, ?_, by omega⟩
    · rw [pending, List.take_append_of_le_length (Nat.le_of_eq hfull.symm), ← hfull,
        List.take_length]
      exact hnone
    · rw [pending, List.length_append]
      omega

theorem Aligned.find_eq_zero (h : Aligned s item) (hav : available s item = 0)
    (hpos : item.pos ≠ -1) : Delimiter.find (delimiter s) (pending s) = some 0 := by
  cases h with
  | unseen pos_eq => exact absurd pos_eq hpos
  | seen i hsome pos_eq =>
    rw [available, if_neg hpos, pos_eq] at hav
    obtain rfl : i = 0 := by omega
    exact Delimiter.find_append hsome _

/-- The item after a call that passed `n` bytes of it. -/
structure Passed (s : Stream) (item : Item) (t : Stream) (item' : Item) (n : ℕ) : Prop where
  moved : Moved s t n
  aligned : Aligned t item'
  closed : item'.closed = item.closed
  le_segment : n ≤ Delimiter.segment (delimiter s) s.keepRegion (pending s)

/-- The ways in which no byte is passed any more. -/
inductive Over {α : Type} (s : Stream) (item : Item) (none : α) :
    Except Fault α × Stream × Item → Prop
  | finished {t : Stream} {item' : Item} (passed : Passed s item t item' 0)
      (at_delimiter : Delimiter.find (delimiter s) (pending s) = some 0)
      (pos_ne : item'.pos ≠ -1) (none_left : available t item' = 0) :
      Over s item none (.ok none, t, item')
  | ended {t : Stream} {item' : Item} (passed : Passed s item t item' 0)
      (truncated : Truncated t) (none_left : available t item' = 0) (pos_eq : item'.pos = -1)
      (rest : t.input.rest = []) : Over s item none (.error .streamEnded, t, item')
  | stalled {t : Stream} {item' : Item} (passed : Moved s t 0) (stuck : Stuck t) :
      Over s item none (.error .stalled, t, item')

theorem Moved.passed {t : Stream} {item' : Item} (h : Moved s t 0) (ha : Aligned t item')
    (hc : item'.closed = item.closed) : Passed s item t item' 0 :=
  ⟨h, ha, hc, Nat.zero_le _⟩

theorem Moved.pending_zero {t : Stream} (h : Moved s t 0) : pending t = pending s := by
  rw [h.pending_eq, List.drop_zero]

theorem ensureAvailable_cases (h : Ok s) (ha : Aligned s item) :
    (∃ t item', ensureAvailable s item = (.ok (available t item'), t, item') ∧
      Passed s item t item' 0 ∧ 0 < available t item') ∨
    Over s item 0 (ensureAvailable s item) := by
  by_cases hav : available s item = 0
  · rw [ensureAvailable, if_pos hav]
    by_cases hpos : item.pos = -1
    · have hr := makeAvailable_refilled h ha hpos hav
      generalize makeAvailable s item = r at hr
      cases hr with
      | @served t item' moved aligned closed more =>
        have hnonneg := aligned.available_nonneg moved.ok
        by_cases hzero : available t item' = 0
        · have hne : item'.pos ≠ -1 := more.resolve_left (by omega)
          have hfind := aligned.find_eq_zero hzero hne
          rw [moved.pending_zero, moved.frame.delimiter] at hfind
          rw [hzero]
          exact .inr (.finished (moved.passed aligned closed) hfind hne hzero)
        · exact .inl ⟨t, item', rfl, moved.passed aligned closed, by omega⟩
      | ended moved aligned closed none_left pos_eq head_eq room rest =>
        exact .inr (.ended (moved.passed aligned closed)
          (aligned.truncated moved.ok none_left pos_eq head_eq room rest) none_left pos_eq rest)
      | stalled moved aligned none_left pos_eq full =>
        rw [← moved.frame.bufSize] at full
        exact .inr (.stalled moved (aligned.stuck moved.ok none_left pos_eq full))
    · rw [makeAvailable, if_pos hpos]
      exact .inr (.finished ((Moved.refl h).passed ha rfl) (ha.find_eq_zero hav hpos) hpos hav)
  · have := ha.available_nonneg h
    rw [ensureAvailable, if_neg hav]
    exact .inl ⟨s, item, rfl, (Moved.refl h).passed ha rfl, by omega⟩

/-- The numbers that are only counted do not matter. -/
theorem Aligned.of_counts (h : Aligned s item) (notifier : ProgressNotifier) (total : ℤ) :
    Aligned { s with notifier } { item with total } := by
  cases h with
  | unseen pos_eq hnone pad_nonneg pad_le pad_eq =>
    exact .unseen pos_eq hnone pad_nonneg pad_le pad_eq
  | seen i hsome pos_eq => exact .seen i hsome pos_eq

theorem Passed.advance {t : Stream} {item' : Item} (h : Passed s item t item' 0) {n : ℕ}
    (hn : (n : ℤ) ≤ available t item') (total : ℤ) :
    Passed s item { t with head := t.head + n } { item' with total } n := by
  have hok := h.moved.ok
  obtain ⟨hwindow, hsegment⟩ := h.aligned.available_le hok
  have hmoved := h.moved.trans (moved_advance hok (n := n) (by omega))
  rw [Nat.zero_add] at hmoved
  rw [h.moved.pending_zero, h.moved.frame.delimiter, h.moved.frame.keepRegion] at hsegment
  exact ⟨hmoved, (h.aligned.advance hok hn).of_counts _ total, h.closed, by omega⟩

theorem take_buffer (h : Ok s) {n : ℕ} (hn : n ≤ (window s).length) :
    (s.buffer.drop s.head.toNat).take n = (pending s).take n := by
  have hlen := h.length_window
  have := h.head_nonneg
  rw [pending, List.take_append_of_le_length hn, window, List.take_drop, List.take_drop,
    List.take_take, Nat.min_eq_left (by omega)]

/-- A call that hands over bytes hands over the next ones of the item. -/
theorem read_cases (h : Ok s) (ha : Aligned s item) (hopen : item.closed = false) {len : ℕ}
    (hlen : 0 < len) :
    (∃ n t item', 0 < n ∧ n ≤ len ∧ Passed s item t item' n ∧
      read s item len = (.ok (some ((pending s).take n)), t, item')) ∨
    Over s item none (read s item len) := by
  rw [read, if_neg (by simp [hopen]), if_neg (Nat.ne_of_gt hlen)]
  rcases ensureAvailable_cases h ha with ⟨t, item', heq, hpassed, hpos⟩ | hover
  · obtain ⟨n, hn⟩ := Int.eq_ofNat_of_zero_le (a := min (available t item') len) (by omega)
    have hwindow := (hpassed.aligned.available_le hpassed.moved.ok).1
    have htake := take_buffer hpassed.moved.ok (n := n) (by omega)
    rw [hpassed.moved.pending_zero] at htake
    simp only [heq, hn, Int.toNat_natCast, htake]
    rw [if_neg (by omega)]
    exact .inl ⟨n, _, _, by omega, by omega, hpassed.advance (by omega) _, rfl⟩
  · generalize ensureAvailable s item = r at hover
    cases hover with
    | finished passed at_delimiter pos_ne none_left =>
      exact .inr (.finished passed at_delimiter pos_ne none_left)
    | ended passed truncated none_left pos_eq rest =>
      exact .inr (.ended passed truncated none_left pos_eq rest)
    | stalled moved stuck => exact .inr (.stalled moved stuck)

theorem skip_cases (h : Ok s) (ha : Aligned s item) (hopen : item.closed = false) (bytes : ℕ) :
    (∃ n t item', n ≤ bytes ∧ (0 < bytes → 0 < n) ∧ Passed s item t item' n ∧
      skip s item bytes = (.ok (n : ℤ), t, item')) ∨
    Over s item 0 (skip s item bytes) := by
  rw [skip, if_neg (by simp [hopen])]
  rcases ensureAvailable_cases h ha with ⟨t, item', heq, hpassed, hpos⟩ | hover
  · obtain ⟨n, hn⟩ := Int.eq_ofNat_of_zero_le (a := min (available t item') bytes) (by omega)
    simp only [heq, hn]
    rw [if_neg (by omega)]
    exact .inl ⟨n, _, _, by omega, by omega, hpassed.advance (by omega) item'.total, rfl⟩
  · generalize ensureAvailable s item = r at hover
    cases hover with
    | finished passed at_delimiter pos_ne none_left =>
      exact .inr (.finished passed at_delimiter pos_ne none_left)
    | ended passed truncated none_left pos_eq rest =>
      exact .inr (.ended passed truncated none_left pos_eq rest)
    | stalled moved stuck => exact .inr (.stalled moved stuck)

end MultipartStream
