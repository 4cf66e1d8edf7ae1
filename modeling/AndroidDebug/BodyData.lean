import AndroidDebug.ItemStream

/-! Whole items: read with calls of any sizes, copied, or closed before their end. -/
namespace MultipartStream

open ByteSource

variable {s t : Stream} {item item' : Item}

theorem Ok.length_pending (h : Ok s) : (pending s).length + 1 = s.turns := by
  have := h.length_window
  rw [pending, List.length_append, Stream.turns]
  omega

theorem Passed.trans {u : Stream} {item'' : Item} {m n : ℕ} (hs : Ok s)
    (h : Passed s item t item' m) (h' : Passed t item' u item'' n) :
    Passed s item u item'' (m + n) := by
  have hsegment := h'.le_segment
  rw [h.moved.pending_eq, h.moved.frame.delimiter, h.moved.frame.keepRegion,
    (Delimiter.segment_drop hs.delimiter_ne_nil h.le_segment).1] at hsegment
  have := h.le_segment
  exact ⟨h.moved.trans h'.moved, h'.aligned, h'.closed.trans h.closed, by omega⟩

theorem Passed.find_eq {n : ℕ} (hs : Ok s) (h : Passed s item t item' n) :
    Delimiter.find (delimiter s) (pending s) =
      (Delimiter.find (delimiter t) (pending t)).map (n + ·) := by
  rw [h.moved.pending_eq, h.moved.frame.delimiter]
  exact Delimiter.find_of_drop hs.delimiter_ne_nil h.le_segment

/-! Any calls. -/

inductive Call where
  | read (len : ℕ)
  | skip (bytes : ℕ)

inductive Answer where
  | bytes (bytes : Bytes)
  | skipped (count : ℤ)
  | eof
  deriving DecidableEq

def answer (s : Stream) (item : Item) : Call → Except Fault Answer × Stream × Item
  | .read len =>
    let done := read s item len
    (done.1.map fun bytes => (bytes.map .bytes).getD .eof, done.2)
  | .skip bytes =>
    let done := skip s item bytes
    (done.1.map .skipped, done.2)

/-- The answers up to the first call that fails. -/
def answers (s : Stream) (item : Item) : List Call → Except Fault (List Answer) × Stream × Item
  | [] => (.ok [], s, item)
  | call :: calls =>
    match answer s item call with
    | (.error e, s, item) => (.error e, s, item)
    | (.ok first, s, item) =>
      let rest := answers s item calls
      (rest.1.map (first :: ·), rest.2)

/-- Each call is answered with the next bytes of what is left of an item, as many as it asks for or
fewer, and with none only if it asks for none or none is left. -/
inductive Serves : Bytes → List Call → List Answer → Prop
  | nil (left : Bytes) : Serves left [] []
  | read {left : Bytes} {len n : ℕ} {calls : List Call} {given : List Answer} (le_len : n ≤ len)
      (le_left : n ≤ left.length) (pos : 0 < n ∨ len = 0) (h : Serves (left.drop n) calls given) :
      Serves left (.read len :: calls) (.bytes (left.take n) :: given)
  | eof {len : ℕ} {calls : List Call} {given : List Answer} (pos : 0 < len)
      (h : Serves [] calls given) : Serves [] (.read len :: calls) (.eof :: given)
  | skip {left : Bytes} {bytes n : ℕ} {calls : List Call} {given : List Answer}
      (le_bytes : n ≤ bytes) (le_left : n ≤ left.length) (pos : 0 < n ∨ bytes = 0 ∨ left = [])
      (h : Serves (left.drop n) calls given) :
      Serves left (.skip bytes :: calls) (.skipped n :: given)

/-- What one call does: it passes some bytes, or it is at the end, or it fails. -/
inductive Answered (s : Stream) (item : Item) (call : Call) :
    Except Fault Answer × Stream × Item → Prop
  | passed {t : Stream} {item' : Item} {a : Answer} {n : ℕ} (passed : Passed s item t item' n)
      (serves : ∀ {left calls given}, n ≤ left.length → (pending s).take n = left.take n →
        Serves (left.drop n) calls given → Serves left (call :: calls) (a :: given)) :
      Answered s item call (.ok a, t, item')
  | finished {t : Stream} {item' : Item} {a : Answer} (passed : Passed s item t item' 0)
      (at_delimiter : Delimiter.find (delimiter s) (pending s) = some 0)
      (serves : ∀ {calls given}, Serves [] calls given → Serves [] (call :: calls) (a :: given)) :
      Answered s item call (.ok a, t, item')
  | failed {t : Stream} {item' : Item} (e : Fault)
      (bad : Delimiter.find (delimiter s) (pending s) = none ∨ s.bufSize ≤ s.keepRegion) :
      Answered s item call (.error e, t, item')

theorem Passed.cut {n : ℕ} (hs : Ok s) (h : Passed s item t item' n) (ht : Truncated t) :
    Delimiter.find (delimiter s) (pending s) = none := by
  rw [h.find_eq hs, ht.none, Option.map_none]

theorem Moved.small {n : ℕ} (h : Moved s t n) (ht : Stuck t) : s.bufSize ≤ s.keepRegion := by
  have hsmall := ht.small
  rwa [h.frame.bufSize, h.frame.keepRegion] at hsmall

theorem answer_answered (h : Ok s) (ha : Aligned s item) (hopen : item.closed = false)
    (call : Call) : Answered s item call (answer s item call) := by
  cases call with
  | read len =>
    rw [answer]
    rcases Nat.eq_zero_or_pos len with rfl | hlen
    · have hread : read s item 0 = (.ok (some []), s, item) := by
        rw [read, if_neg (by simp [hopen]), if_pos rfl]
      rw [hread]
      exact .passed ((Moved.refl h).passed ha rfl) fun _ _ hrest =>
        Serves.read (Nat.le_refl 0) (Nat.zero_le _) (.inr rfl) hrest
    · rcases read_cases h ha hopen hlen with ⟨n, t, item', hpos, hle, hpassed, heq⟩ | hover
      · rw [heq]
        refine .passed hpassed fun hleft htake hrest => ?_
        have hserved := Serves.read hle hleft (.inl hpos) hrest
        rwa [← htake] at hserved
      · generalize read s item len = r at hover
        cases hover with
        | finished passed at_delimiter =>
          exact .finished passed at_delimiter fun hrest => .eof hlen hrest
        | ended passed truncated => exact .failed _ (.inl (passed.cut h truncated))
        | stalled moved stuck => exact .failed _ (.inr (moved.small stuck))
  | skip bytes =>
    rw [answer]
    rcases skip_cases h ha hopen bytes with ⟨n, t, item', hle, hpos, hpassed, heq⟩ | hover
    · rw [heq]
      refine .passed hpassed fun hleft _ hrest => .skip hle hleft ?_ hrest
      rcases Nat.eq_zero_or_pos bytes with hzero | hbytes
      · exact .inr (.inl hzero)
      · exact .inl (hpos hbytes)
    · generalize skip s item bytes = r at hover
      cases hover with
      | finished passed at_delimiter =>
        exact .finished passed at_delimiter fun hrest =>
          Serves.skip (Nat.zero_le _) (Nat.zero_le 0) (.inr (.inr rfl)) hrest
      | ended passed truncated => exact .failed _ (.inl (passed.cut h truncated))
      | stalled moved stuck => exact .failed _ (.inr (moved.small stuck))

/-- By induction on the calls; one can only fail if the item has no end or the buffer is small. -/
theorem answers_served (h : Ok s) (ha : Aligned s item) (hopen : item.closed = false)
    {i : ℕ} (hfind : Delimiter.find (delimiter s) (pending s) = some i)
    (hlarge : s.keepRegion < s.bufSize) (calls : List Call) :
    ∃ given t item' n, answers s item calls = (.ok given, t, item') ∧ Passed s item t item' n ∧
      Serves ((pending s).take i) calls given := by
  induction calls generalizing s item i with
  | nil => exact ⟨[], s, item, 0, rfl, (Moved.refl h).passed ha rfl, .nil _⟩
  | cons call calls ih =>
    have hfirst := answer_answered h ha hopen call
    rw [answers]
    generalize answer s item call = r at hfirst
    cases hfirst with
    | failed e bad =>
      rcases bad with hnone | hsmall
      · rw [hfind] at hnone
        cases hnone
      · omega
    | @passed u item₁ a m hpassed hserves =>
      have hu := hpassed.find_eq h
      rw [hfind, eq_comm, Option.map_eq_some_iff] at hu
      obtain ⟨j, hj, rfl⟩ := hu
      obtain ⟨rest, t, item', n, heq, hrest, hserved⟩ := ih hpassed.moved.ok hpassed.aligned
        (hpassed.closed.trans hopen) hj (by
          rw [hpassed.moved.frame.keepRegion, hpassed.moved.frame.bufSize]
          exact hlarge)
      simp only [heq]
      refine ⟨_, _, _, _, rfl, hpassed.trans h hrest, hserves ?_ ?_ ?_⟩
      · have hle := Delimiter.find_le_length hfind
        rw [List.length_take]
        omega
      · rw [List.take_take, Nat.min_eq_left (Nat.le_add_right m j)]
      · rwa [List.drop_take, Nat.add_sub_cancel_left, ← hpassed.moved.pending_eq]
    | @finished u item₁ a hpassed hat hserves =>
      obtain rfl := Option.some.inj (hfind.symm.trans hat)
      have hu : Delimiter.find (delimiter u) (pending u) = some 0 := by
        rw [hpassed.moved.pending_zero, hpassed.moved.frame.delimiter]
        exact hat
      obtain ⟨rest, t, item', n, heq, hrest, hserved⟩ := ih hpassed.moved.ok hpassed.aligned
        (hpassed.closed.trans hopen) hu (by
          rw [hpassed.moved.frame.keepRegion, hpassed.moved.frame.bufSize]
          exact hlarge)
      simp only [heq]
      rw [List.take_zero] at hserved ⊢
      exact ⟨_, _, _, _, rfl, hpassed.trans h hrest, hserves hserved⟩

/-! Copying an item and closing it. -/

/-- How a loop over an item ends: at the delimiter, after `value`, or not at all. -/
inductive Ended {α : Type} (s : Stream) (closed : Bool) (value : ℕ → α) :
    Except Fault α × Stream × Item → Prop
  | done {t : Stream} {item : Item} (i : ℕ)
      (find : Delimiter.find (delimiter s) (pending s) = some i) (moved : Moved s t i)
      (aligned : Aligned t item) (pos_ne : item.pos ≠ -1) (none_left : available t item = 0)
      (closed_eq : item.closed = closed) : Ended s closed value (.ok (value i), t, item)
  | cut {t : Stream} {item : Item} (none : Delimiter.find (delimiter s) (pending s) = none)
      (moved : Moved s t ((pending s).length - s.keepRegion)) (aligned : Aligned t item)
      (truncated : Truncated t) (closed_eq : item.closed = false) :
      Ended s closed value (.error .streamEnded, t, item)
  | stalled {t : Stream} {item : Item} {n : ℕ} (moved : Moved s t n)
      (le_segment : n ≤ Delimiter.segment (delimiter s) s.keepRegion (pending s))
      (stuck : Stuck t) : Ended s closed value (.error .stalled, t, item)

variable {α : Type} {closed : Bool} {value : ℕ → α}

theorem Truncated.ended (h : Truncated t) (hp : Passed s item t item' 0)
    (hopen : item.closed = false) : Ended s closed value (.error .streamEnded, t, item') := by
  have hnone := h.none
  have hlen := h.length_le
  rw [hp.moved.pending_zero, hp.moved.frame.delimiter] at hnone
  rw [hp.moved.pending_zero, hp.moved.frame.keepRegion] at hlen
  have hmoved := hp.moved
  rw [← Nat.sub_eq_zero_of_le hlen] at hmoved
  exact .cut hnone hmoved hp.aligned h (hp.closed.trans hopen)

/-- The loop goes on after `n` bytes. -/
theorem Ended.of_passed {value' : ℕ → α} {n : ℕ} (hs : Ok s)
    (hp : Passed s item t item' n) (hvalue : ∀ i, value' i = value (n + i))
    {r : Except Fault α × Stream × Item} (h : Ended t closed value' r) :
    Ended s closed value r := by
  have hfind := hp.find_eq hs
  cases h with
  | done i find moved aligned pos_ne none_left closed_eq =>
    rw [find, Option.map_some] at hfind
    rw [hvalue]
    exact .done (n + i) hfind (hp.moved.trans moved) aligned pos_ne none_left closed_eq
  | cut none moved aligned truncated closed_eq =>
    rw [none, Option.map_none] at hfind
    have hmoved := hp.moved.trans moved
    have hlen := hp.le_segment
    rw [Delimiter.segment_of_none hfind] at hlen
    rw [hp.moved.frame.keepRegion, hp.moved.pending_eq, List.length_drop] at hmoved
    have hsum :
        n + ((pending s).length - n - s.keepRegion) = (pending s).length - s.keepRegion := by
      omega
    rw [hsum] at hmoved
    exact .cut hfind hmoved aligned truncated closed_eq
  | stalled moved le_segment stuck =>
    rw [hp.moved.frame.delimiter, hp.moved.frame.keepRegion, hp.moved.pending_eq,
      (Delimiter.segment_drop hs.delimiter_ne_nil hp.le_segment).1] at le_segment
    have := hp.le_segment
    exact .stalled (hp.moved.trans moved) (by omega) stuck

/-- By induction on the turns left, of which there are more than bytes. -/
theorem copyLoop_ended (fuel : ℕ) (out : Bytes) (h : Ok s) (ha : Aligned s item)
    (hopen : item.closed = false) (hfuel : (pending s).length < fuel) :
    Ended s false (fun i => out ++ (pending s).take i) (copyLoop fuel out s item) := by
  induction fuel generalizing out s item with
  | zero => exact absurd hfuel (Nat.not_lt_zero _)
  | succ fuel ih =>
    rw [copyLoop]
    rcases read_cases h ha hopen (show 0 < DEFAULT_BUFFER_SIZE by decide) with
      ⟨n, t, item', hpos, -, hpassed, heq⟩ | hover
    · rw [heq]
      dsimp only
      have hle := hpassed.le_segment.trans Delimiter.segment_le
      have hlen : (pending t).length < fuel := by
        rw [hpassed.moved.pending_eq, List.length_drop]
        omega
      refine (ih (out ++ (pending s).take n) hpassed.moved.ok hpassed.aligned
        (hpassed.closed.trans hopen) hlen).of_passed h hpassed fun i => ?_
      rw [hpassed.moved.pending_eq, List.append_assoc, ← List.take_add]
    · generalize read s item DEFAULT_BUFFER_SIZE = r at hover
      cases hover with
      | finished passed at_delimiter pos_ne none_left =>
        have hdone : Ended s false (fun i => out ++ (pending s).take i)
            (.ok (out ++ (pending s).take 0), _, _) :=
          .done 0 at_delimiter passed.moved passed.aligned pos_ne none_left
            (passed.closed.trans hopen)
        simpa using hdone
      | ended passed truncated => exact truncated.ended passed hopen
      | stalled moved stuck => exact .stalled moved (Nat.zero_le _) stuck

theorem skip_all (h : Ok s) (ha : Aligned s item) (hopen : item.closed = false)
    (hpos : 0 < available s item) :
    ∃ n t, 0 < n ∧ Passed s item t item n ∧
      skip s item (available s item).toNat = (.ok (n : ℤ), t, item) := by
  obtain ⟨n, hn⟩ := Int.eq_ofNat_of_zero_le (a := available s item) (by omega)
  refine ⟨n, _, by omega,
    ((Moved.refl h).passed ha rfl).advance (n := n) (Int.le_of_eq hn.symm) item.total, ?_⟩
  rw [skip, if_neg (by simp [hopen]), ensureAvailable, if_neg (by omega)]
  simp only [hn, Int.toNat_natCast, Int.min_self]
  rw [if_neg (by omega)]

theorem closeLoop_ended (fuel : ℕ) (h : Ok s) (ha : Aligned s item)
    (hopen : item.closed = false) (hfuel : (pending s).length < fuel) :
    Ended s true (fun _ => ()) (closeLoop fuel s item) := by
  induction fuel generalizing s item with
  | zero => exact absurd hfuel (Nat.not_lt_zero _)
  | succ fuel ih =>
    rw [closeLoop]
    rcases ensureAvailable_cases h ha with ⟨t, item', heq, hpassed, hpos⟩ | hover
    · obtain ⟨n, u, hn, hskipped, hskip⟩ := skip_all hpassed.moved.ok hpassed.aligned
        (hpassed.closed.trans hopen) hpos
      simp only [heq, hskip]
      rw [if_neg (by omega)]
      have htrans := hpassed.trans h hskipped
      rw [Nat.zero_add] at htrans
      have hle := htrans.le_segment.trans Delimiter.segment_le
      have hlen : (pending u).length < fuel := by
        rw [htrans.moved.pending_eq, List.length_drop]
        omega
      exact (ih htrans.moved.ok htrans.aligned (htrans.closed.trans hopen) hlen).of_passed h
        htrans fun _ => rfl
    · generalize ensureAvailable s item = r at hover
      cases hover with
      | @finished t item' passed at_delimiter pos_ne none_left =>
        simp only [if_true]
        refine .done 0 at_delimiter passed.moved ?_ pos_ne none_left rfl
        cases passed.aligned with
        | unseen pos_eq => exact absurd pos_eq pos_ne
        | seen i hsome pos_eq => exact .seen i hsome pos_eq
      | ended passed truncated => exact truncated.ended passed hopen
      | stalled moved stuck => exact .stalled moved (Nat.zero_le _) stuck

theorem close_ended (h : Ok s) (ha : Aligned s item) (hopen : item.closed = false) :
    Ended s true (fun _ => ()) (close s item) := by
  rw [close, if_neg (by simp [hopen])]
  have := h.length_pending
  exact closeLoop_ended s.turns h ha hopen (by omega)

/-- Closing what has been read to its end. -/
theorem close_at_end (hpos : item.pos ≠ -1) (hav : available s item = 0)
    (hopen : item.closed = false) :
    close s item = (.ok (), s, { item with closed := true }) := by
  rw [close, if_neg (by simp [hopen]), Stream.turns, closeLoop, ensureAvailable, if_pos hav,
    makeAvailable, if_pos hpos]
  rfl

/-- After the end of the request there is nothing to close. -/
theorem close_truncated (h : Ok t) (ha : Aligned t item) (htr : Truncated t)
    (hopen : item.closed = false) : Moved t (close t item).2.1 0 := by
  have hended := close_ended h ha hopen
  generalize close t item = r at hended
  cases hended with
  | done i find =>
    rw [htr.none] at find
    cases find
  | cut none moved =>
    rw [Nat.sub_eq_zero_of_le htr.length_le] at moved
    exact moved
  | stalled moved _ stuck =>
    have hlong := stuck.length_le
    have hshort := htr.length_lt
    rw [moved.pending_eq, moved.frame.bufSize, List.length_drop] at hlong
    omega

/-- What reading the body of a part comes to. -/
inductive Body (s : Stream) : Except Fault Bytes × Stream → Prop
  | done {t : Stream} (i : ℕ) (find : Delimiter.find (delimiter s) (pending s) = some i)
      (moved : Moved s t i) (in_window : delimiter t <+: window t) :
      Body s (.ok ((pending s).take i), t)
  | cut {t : Stream} (none : Delimiter.find (delimiter s) (pending s) = none)
      (moved : Moved s t ((pending s).length - s.keepRegion)) :
      Body s (.error .streamEnded, t)
  | stalled {t : Stream} {n : ℕ} (moved : Moved s t n)
      (le_segment : n ≤ Delimiter.segment (delimiter s) s.keepRegion (pending s))
      (stuck : Stuck t) : Body s (.error .stalled, t)

theorem Aligned.in_window (h : Aligned t item) (hpos : item.pos ≠ -1)
    (hav : available t item = 0) : delimiter t <+: window t := by
  cases h with
  | unseen pos_eq => exact absurd pos_eq hpos
  | seen i hsome pos_eq =>
    rw [available, if_neg hpos, pos_eq] at hav
    obtain rfl : i = 0 := by omega
    have hprefix := Delimiter.prefix_of_find hsome
    rwa [List.drop_zero] at hprefix

theorem copy_body (h : Ok s) (ha : Aligned s item) (hopen : item.closed = false) :
    Body s ((copy s item).1, (copy s item).2.1) := by
  have hended := copyLoop_ended s.turns [] h ha hopen (by have := h.length_pending; omega)
  rw [copy]
  generalize copyLoop s.turns [] s item = r at hended
  cases hended with
  | done i find moved aligned pos_ne none_left closed_eq =>
    simp only [close_at_end pos_ne none_left closed_eq]
    exact .done i find moved (aligned.in_window pos_ne none_left)
  | cut none moved aligned truncated closed_eq =>
    have hclosed := close_truncated moved.ok aligned truncated closed_eq
    have hmoved := moved.trans hclosed
    rw [Nat.add_zero] at hmoved
    exact .cut none hmoved
  | stalled moved le_segment stuck => exact .stalled moved le_segment stuck

theorem readBodyData_body (h : Ok s) : Body s (readBodyData s) :=
  copy_body h (aligned_findSeparator h _) (findSeparator_closed s _)

/-! A buffer that a delimiter and what is kept back for it would fill. -/

/-- Without room for more than what is kept back, only a delimiter in the buffer helps. -/
theorem ensureAvailable_stalled (h : Ok s) (ha : Aligned s item) (hs : Stuck s) :
    ∃ t item', ensureAvailable s item = (.error .stalled, t, item') := by
  have hblind : ∀ {t : Stream} {item' : Item}, Moved s t 0 → Aligned t item' →
      item'.pos = -1 ∧ available t item' = 0 := by
    intro t item' hmoved haligned
    have hok := hmoved.ok
    have hlen := hok.length_window
    have hhead := hok.head_nonneg
    have htail := hok.tail_le
    have hsize : t.buffer.length = s.bufSize := hmoved.frame.bufSize
    have hsmall := hs.small
    have hkeep := hmoved.frame.keepRegion
    cases haligned with
    | unseen pos_eq _ _ pad_le pad_eq =>
      rw [available, if_pos pos_eq]
      exact ⟨pos_eq, by omega⟩
    | seen i hsome pos_eq =>
      have hwindow : window t = (pending t).take (window t).length := by
        rw [pending, List.take_append_of_le_length (Nat.le_refl _), List.take_length]
      have htake : (pending s).take s.bufSize =
          window t ++ ((pending s).take s.bufSize).drop (window t).length := by
        conv_lhs => rw [← List.take_append_drop (window t).length ((pending s).take s.bufSize)]
        rw [List.take_take, Nat.min_eq_left (by omega), ← hmoved.pending_zero, ← hwindow]
      have hnone := hs.none
      rw [htake, ← hmoved.frame.delimiter, Delimiter.find_append hsome] at hnone
      cases hnone
  rcases ensureAvailable_cases h ha with ⟨t, item', -, hpassed, hpos⟩ | hover
  · have := (hblind hpassed.moved hpassed.aligned).2
    omega
  · generalize ensureAvailable s item = r at hover
    cases hover with
    | finished passed at_delimiter pos_ne =>
      exact absurd (hblind passed.moved passed.aligned).1 pos_ne
    | ended passed truncated =>
      have hshort := truncated.length_lt
      have hlong := hs.length_le
      rw [passed.moved.pending_zero, passed.moved.frame.bufSize] at hshort
      omega
    | stalled moved stuck => exact ⟨_, _, rfl⟩

theorem readBodyData_stalls_iff (h : Ok s) :
    (readBodyData s).1 = .error .stalled ↔ Stuck s := by
  constructor
  · intro hstalled
    have hbody := readBodyData_body h
    generalize readBodyData s = r at hbody hstalled
    cases hbody with
    | done => cases hstalled
    | cut => cases hstalled
    | @stalled t n moved le_segment stuck =>
      have hlong := stuck.length_le
      have hnone := stuck.none
      rw [moved.pending_eq, moved.frame.bufSize, List.length_drop] at hlong
      rw [moved.pending_eq, moved.frame.bufSize, moved.frame.delimiter] at hnone
      refine ⟨?_, by omega, moved.small stuck⟩
      -- a delimiter in the front would not have been passed
      cases hfind : Delimiter.find (delimiter s) ((pending s).take s.bufSize) with
      | none => rfl
      | some j =>
        have hwhole := Delimiter.find_append hfind ((pending s).drop s.bufSize)
        rw [List.take_append_drop] at hwhole
        rw [Delimiter.segment_of_find hwhole] at le_segment
        have hdrop := Delimiter.find_drop_of_le h.delimiter_ne_nil hfind le_segment
        rw [List.drop_take] at hdrop
        have hmore := Delimiter.find_append hdrop
          ((((pending s).drop n).take s.bufSize).drop (s.bufSize - n))
        have hfront : ((pending s).drop n).take (s.bufSize - n) =
            (((pending s).drop n).take s.bufSize).take (s.bufSize - n) := by
          rw [List.take_take, Nat.min_eq_left (Nat.sub_le _ _)]
        rw [hfront, List.take_append_drop, hnone] at hmore
        cases hmore
  · intro hs
    obtain ⟨t, item', hensure⟩ := ensureAvailable_stalled h
      (aligned_findSeparator h ⟨0, 0, 0, false⟩) hs
    have hread : read s (newInputStream s) DEFAULT_BUFFER_SIZE = (.error .stalled, t, item') := by
      rw [read, if_neg (by simp [newInputStream]), if_neg (by decide), newInputStream, hensure]
    rw [readBodyData, copy, Stream.turns, copyLoop, hread]
    rfl

end MultipartStream
