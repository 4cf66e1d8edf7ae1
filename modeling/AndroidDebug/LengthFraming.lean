import Mathlib.Data.List.Basic
import Mathlib.Data.List.Induction
import Mathlib.Algebra.Ring.Nat
import Mathlib.Tactic.Common

/-! Big-endian integers and length-prefixed frames on a chunked byte stream.
A frame is a length field followed by as many bytes as the field says. -/
namespace LengthFraming

/-- The low `k` bytes of `n`, most significant first. -/
def be : ℕ → ℕ → List UInt8
  | 0, _ => []
  | k + 1, n => be k (n / 256) ++ [UInt8.ofNat n]

def readBE (bs : List UInt8) : ℕ := bs.foldl (fun acc b => acc * 256 + b.toNat) 0

@[simp] theorem length_be (k n : ℕ) : (be k n).length = k := by
  induction k generalizing n with
  | zero => rfl
  | succ k ih => simp [be, ih]

@[simp] theorem readBE_nil : readBE [] = 0 := rfl

theorem readBE_append_singleton (bs : List UInt8) (b : UInt8) :
    readBE (bs ++ [b]) = readBE bs * 256 + b.toNat := by
  simp [readBE, List.foldl_append]

theorem readBE_be {k n : ℕ} (h : n < 256 ^ k) : readBE (be k n) = n := by
  induction k generalizing n with
  | zero =>
    have hn : n = 0 := by simpa using h
    simp [be, hn]
  | succ k ih =>
    have hd : n / 256 < 256 ^ k := by
      apply (Nat.div_lt_iff_lt_mul (by decide)).mpr
      simpa [Nat.pow_succ] using h
    rw [be, readBE_append_singleton, ih hd, UInt8.toNat_ofNat']
    omega

variable {w limit : ℕ}

structure IsFrame (w : ℕ) (f : List UInt8) : Prop where
  header : w ≤ f.length
  length : f.length = w + readBE (f.take w)

theorem isFrame_mk {n : ℕ} {body : List UInt8} (h : body.length = n) (hn : n < 256 ^ w) :
    IsFrame w (be w n ++ body) := by
  constructor
  · simp
  · simp [List.take_left' (length_be w n), readBE_be hn, h]

/-- A stream decoder keeps a state between chunks and hands out the frames it completes. -/
structure FrameDecoder where
  State : Type
  init : State
  feed : State → List UInt8 → State × List (List UInt8)

def FrameDecoder.run (d : FrameDecoder) : d.State → List (List UInt8) → List (List UInt8)
  | _, [] => []
  | s, c :: cs => (d.feed s c).2 ++ d.run (d.feed s c).1 cs

/-- Over any chunking of a concatenation of frames within the limit, the decoder hands
out exactly these frames in order. -/
def FrameDecoder.EmitsSlices (d : FrameDecoder) (w limit : ℕ) : Prop :=
  ∀ frames chunks : List (List UInt8),
    (∀ f ∈ frames, IsFrame w f ∧ f.length ≤ limit) →
    chunks.flatten = frames.flatten → d.run d.init chunks = frames

/-- The frame at the front of the buffered bytes, when it is complete. -/
def nextFrame (w limit : ℕ) (buf : List UInt8) : Option (List UInt8 × List UInt8) :=
  let n := w + readBE (buf.take w)
  if w ≤ buf.length ∧ n ≤ limit ∧ n ≤ buf.length then some (buf.take n, buf.drop n) else none

def drain (w limit : ℕ) : ℕ → List UInt8 → List (List UInt8) × List UInt8
  | 0, buf => ([], buf)
  | k + 1, buf =>
    match nextFrame w limit buf with
    | none => ([], buf)
    | some (f, rest) => (f :: (drain w limit k rest).1, (drain w limit k rest).2)

/-- The reference decoder: append each chunk to the buffered bytes, then cut frames off
the front while one is complete. -/
def cumulator (w limit : ℕ) : FrameDecoder where
  State := List UInt8
  init := []
  feed buf chunk :=
    ((drain w limit (buf ++ chunk).length (buf ++ chunk)).2,
      (drain w limit (buf ++ chunk).length (buf ++ chunk)).1)

theorem nextFrame_nil (hw : 0 < w) : nextFrame w limit [] = none := by
  unfold nextFrame
  apply if_neg
  rintro ⟨h, -, -⟩
  exact absurd hw (Nat.not_lt.mpr h)

theorem nextFrame_append {f : List UInt8} (hf : IsFrame w f) (hl : f.length ≤ limit)
    (rest : List UInt8) : nextFrame w limit (f ++ rest) = some (f, rest) := by
  have ht : (f ++ rest).take w = f.take w := List.take_append_of_le_length hf.header
  unfold nextFrame
  simp only [ht, ← hf.length]
  have hw := hf.header
  rw [if_pos (by simp only [List.length_append]; omega), List.take_left, List.drop_left]

theorem nextFrame_incomplete {p q : List UInt8} (hf : IsFrame w (p ++ q)) (hq : q ≠ []) :
    nextFrame w limit p = none := by
  have hpos : 0 < q.length := List.length_pos_of_ne_nil hq
  have hlen := hf.length
  unfold nextFrame
  apply if_neg
  rintro ⟨hw, -, hn⟩
  rw [List.take_append_of_le_length hw, List.length_append] at hlen
  omega

theorem drain_frames {frames : List (List UInt8)} {p : List UInt8}
    (hf : ∀ f ∈ frames, IsFrame w f ∧ f.length ≤ limit) (hp : nextFrame w limit p = none) :
    ∀ k, frames.length ≤ k → drain w limit k (frames.flatten ++ p) = (frames, p) := by
  induction frames with
  | nil =>
    intro k _
    cases k with
    | zero => simp [drain]
    | succ k => simp [drain, hp]
  | cons f fs ih =>
    intro k hk
    obtain ⟨m, rfl⟩ : ∃ m, k = m + 1 := ⟨k - 1, by simp at hk; omega⟩
    obtain ⟨hff, hfl⟩ := hf f (by simp)
    have hrest := ih (fun g hg => hf g (by simp [hg])) m (by simpa using hk)
    rw [List.flatten_cons, List.append_assoc, drain,
      nextFrame_append hff hfl (fs.flatten ++ p)]
    simp only [hrest]

/-- A prefix of a frame stream is some whole frames and an incomplete rest. -/
theorem prefix_split {frames : List (List UInt8)} (hw : 0 < w)
    (hf : ∀ f ∈ frames, IsFrame w f ∧ f.length ≤ limit) {a b : List UInt8}
    (h : a ++ b = frames.flatten) :
    ∃ done rest p, frames = done ++ rest ∧ a = done.flatten ++ p ∧ p ++ b = rest.flatten ∧
      nextFrame w limit p = none := by
  induction frames generalizing a with
  | nil =>
    obtain ⟨rfl, rfl⟩ := List.append_eq_nil_iff.mp h
    exact ⟨[], [], [], rfl, rfl, rfl, nextFrame_nil hw⟩
  | cons f fs ih =>
    rw [List.flatten_cons] at h
    rcases List.append_eq_append_iff.mp h with ⟨q, rfl, hb⟩ | ⟨a', rfl, hb⟩
    · by_cases hq : q = []
      · subst hq
        simp only [List.append_nil, List.nil_append] at h hb ⊢
        obtain ⟨done, rest, p, hd, ha, hr, hp⟩ :=
          ih (fun g hg => hf g (by simp [hg])) (a := []) (by simpa using hb)
        refine ⟨a :: done, rest, p, by rw [hd]; rfl, ?_, hr, hp⟩
        simp [← ha]
      · exact ⟨[], (a ++ q) :: fs, a, rfl, by simp, by simp [hb],
          nextFrame_incomplete (hf (a ++ q) (by simp)).1 hq⟩
    · obtain ⟨done, rest, p, hd, rfl, hr, hp⟩ :=
        ih (fun g hg => hf g (by simp [hg])) hb.symm
      exact ⟨f :: done, rest, p, by rw [hd]; rfl, by simp, hr, hp⟩

theorem length_le_flatten {frames : List (List UInt8)} (hw : 0 < w)
    (hf : ∀ f ∈ frames, IsFrame w f ∧ f.length ≤ limit) :
    frames.length ≤ frames.flatten.length := by
  induction frames with
  | nil => simp
  | cons f fs ih =>
    have hh := (hf f (by simp)).1.header
    have := ih fun g hg => hf g (by simp [hg])
    simp only [List.length_cons, List.flatten_cons, List.length_append]
    omega

/-- The induction is on the chunks; the buffer is always the incomplete rest of what has
arrived, so it and the chunks to come spell the frames still to be handed out. -/
theorem cumulator_run (hw : 0 < w) {chunks frames : List (List UInt8)} {buf : List UInt8}
    (hf : ∀ f ∈ frames, IsFrame w f ∧ f.length ≤ limit) (hb : nextFrame w limit buf = none)
    (h : buf ++ chunks.flatten = frames.flatten) :
    (cumulator w limit).run buf chunks = frames := by
  induction chunks generalizing buf frames with
  | nil =>
    cases frames with
    | nil => rfl
    | cons f fs =>
      obtain ⟨hff, hfl⟩ := hf f (by simp)
      rw [List.flatten_nil, List.append_nil, List.flatten_cons] at h
      rw [h, nextFrame_append hff hfl] at hb
      cases hb
  | cons c cs ih =>
    rw [List.flatten_cons, ← List.append_assoc] at h
    obtain ⟨done, rest, p, rfl, ha, hr, hp⟩ := prefix_split hw hf h
    have hdone : ∀ f ∈ done, IsFrame w f ∧ f.length ≤ limit := fun f hm => hf f (by simp [hm])
    have hle : done.length ≤ (buf ++ c).length := by
      have := length_le_flatten hw hdone
      rw [ha, List.length_append]
      omega
    have hd : drain w limit (buf ++ c).length (buf ++ c) = (done, p) := by
      rw [ha] at hle ⊢
      exact drain_frames hdone hp _ hle
    have hrun := ih (fun f hm => hf f (by simp [hm])) hp hr
    simp only [FrameDecoder.run, cumulator, hd] at hrun ⊢
    rw [hrun]

theorem cumulator_emitsSlices (hw : 0 < w) : (cumulator w limit).EmitsSlices w limit := by
  intro frames chunks hf h
  exact cumulator_run hw hf (nextFrame_nil hw) h

end LengthFraming
