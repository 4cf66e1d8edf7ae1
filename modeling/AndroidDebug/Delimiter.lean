import Mathlib.Data.List.Infix
import Mathlib.Tactic.Common

/-! Where a delimiter first occurs in a sequence, and what a window on the front of the sequence
tells about it. -/
namespace Delimiter

variable {α : Type*} [DecidableEq α]

/-- The first position from which the sequence goes on with `d`. -/
def find (d : List α) : List α → Option ℕ
  | [] => none
  | x :: xs => if d <+: x :: xs then some 0 else (find d xs).map (· + 1)

variable {d : List α}

theorem find_cons_pos {x : α} {xs : List α} (h : d <+: x :: xs) :
    find d (x :: xs) = some 0 := if_pos h

theorem find_cons_neg {x : α} {xs : List α} (h : ¬d <+: x :: xs) :
    find d (x :: xs) = (find d xs).map (· + 1) := if_neg h

theorem find_eq_zero_iff (hd : d ≠ []) (xs : List α) : find d xs = some 0 ↔ d <+: xs := by
  cases xs with
  | nil => simp [find, hd]
  | cons x xs =>
    by_cases h : d <+: x :: xs
    · simp [find_cons_pos h, h]
    · simp [find_cons_neg h, h]

theorem prefix_of_find {xs : List α} {i : ℕ} (h : find d xs = some i) : d <+: xs.drop i := by
  induction xs generalizing i with
  | nil => cases h
  | cons x xs ih =>
    by_cases hx : d <+: x :: xs
    · rw [find_cons_pos hx, Option.some.injEq] at h
      rwa [← h, List.drop_zero]
    · rw [find_cons_neg hx, Option.map_eq_some_iff] at h
      obtain ⟨j, hj, rfl⟩ := h
      exact ih hj

theorem not_prefix_of_lt_find {xs : List α} {i j : ℕ} (h : find d xs = some i) (hj : j < i) :
    ¬d <+: xs.drop j := by
  induction xs generalizing i j with
  | nil => cases h
  | cons x xs ih =>
    by_cases hx : d <+: x :: xs
    · rw [find_cons_pos hx, Option.some.injEq] at h
      omega
    · rw [find_cons_neg hx, Option.map_eq_some_iff] at h
      obtain ⟨k, hk, rfl⟩ := h
      cases j with
      | zero => exact hx
      | succ j => exact ih hk (by omega)

theorem find_eq_none_iff (hd : d ≠ []) (xs : List α) :
    find d xs = none ↔ ∀ j, ¬d <+: xs.drop j := by
  induction xs with
  | nil => simp [find, hd]
  | cons x xs ih =>
    by_cases hx : d <+: x :: xs
    · rw [find_cons_pos hx]
      refine iff_of_false (by simp) fun h => h 0 hx
    · rw [find_cons_neg hx, Option.map_eq_none_iff, ih]
      constructor
      · rintro h (_ | j)
        · exact hx
        · exact h j
      · exact fun h j => h (j + 1)

theorem find_eq_some_of {xs : List α} {i : ℕ} (hd : d ≠ []) (hi : d <+: xs.drop i)
    (hbefore : ∀ j < i, ¬d <+: xs.drop j) : find d xs = some i := by
  cases hfind : find d xs with
  | none => exact absurd hi ((find_eq_none_iff hd xs).mp hfind i)
  | some k =>
    rcases Nat.lt_trichotomy k i with hlt | rfl | hgt
    · exact absurd (prefix_of_find hfind) (hbefore k hlt)
    · rfl
    · exact absurd hi (not_prefix_of_lt_find hfind hgt)

theorem find_add_length_le {xs : List α} {i : ℕ} (h : find d xs = some i) :
    i + d.length ≤ xs.length ∨ d = [] := by
  by_cases hd : d = []
  · exact .inr hd
  · have := (prefix_of_find h).length_le
    have := List.length_pos_of_ne_nil hd
    rw [List.length_drop] at *
    exact .inl (by omega)

theorem find_le_length {xs : List α} {i : ℕ} (h : find d xs = some i) : i ≤ xs.length := by
  induction xs generalizing i with
  | nil => cases h
  | cons x xs ih =>
    by_cases hx : d <+: x :: xs
    · rw [find_cons_pos hx, Option.some.injEq] at h
      omega
    · rw [find_cons_neg hx, Option.map_eq_some_iff] at h
      obtain ⟨k, hk, rfl⟩ := h
      exact Nat.succ_le_succ (ih hk)

theorem find_eq_none_of_length {xs : List α} (h : xs.length < d.length) : find d xs = none := by
  cases hfind : find d xs with
  | none => rfl
  | some i =>
    rcases find_add_length_le hfind with hlen | rfl
    · omega
    · exact absurd h (Nat.not_lt_zero _)

/-- What is found in the window is found in the whole. -/
theorem find_append {w : List α} {i : ℕ} (h : find d w = some i) (rest : List α) :
    find d (w ++ rest) = some i := by
  induction w generalizing i with
  | nil => cases h
  | cons x w ih =>
    by_cases hx : d <+: x :: w
    · rw [find_cons_pos hx] at h
      have hpre : d <+: x :: (w ++ rest) := hx.trans (List.prefix_append (x :: w) rest)
      rw [List.cons_append, find_cons_pos hpre, h]
    · rw [find_cons_neg hx, Option.map_eq_some_iff] at h
      obtain ⟨j, hj, rfl⟩ := h
      have hlen := (prefix_of_find hj).length_le
      have hnot : ¬d <+: x :: (w ++ rest) := fun hpre =>
        hx (List.prefix_of_prefix_length_le hpre (List.prefix_append (x :: w) rest) (by
          rw [List.length_drop] at hlen
          simp only [List.length_cons]
          omega))
      rw [List.cons_append, find_cons_neg hnot, ih hj, Option.map_some]

/-- A window without the delimiter gives up all but the last `d.length - 1` elements. -/
theorem find_drop (hd : d ≠ []) {w : List α} {k : ℕ} (h : find d w = none)
    (hk : k + d.length ≤ w.length + 1) (rest : List α) :
    find d (w ++ rest) = (find d (w.drop k ++ rest)).map (· + k) := by
  induction k generalizing w with
  | zero => simp
  | succ k ih =>
    cases w with
    | nil =>
      have := List.length_pos_of_ne_nil hd
      rw [List.length_nil] at hk
      omega
    | cons x w =>
      rw [List.length_cons] at hk
      have hnot : ¬d <+: x :: w := fun hpre => by rw [find_cons_pos hpre] at h; cases h
      rw [find_cons_neg hnot, Option.map_eq_none_iff] at h
      have hnot' : ¬d <+: x :: (w ++ rest) := fun hpre =>
        hnot (List.prefix_of_prefix_length_le hpre (List.prefix_append (x :: w) rest) (by
          rw [List.length_cons]
          omega))
      rw [List.cons_append, find_cons_neg hnot', ih h (by omega), List.drop_succ_cons,
        Option.map_map]
      rfl

/-- A stretch with no occurrence that begins in it is passed over. -/
theorem find_skip {a b : List α} (h : ∀ j < a.length, ¬d <+: (a ++ b).drop j) :
    find d (a ++ b) = (find d b).map (· + a.length) := by
  induction a with
  | nil => simp
  | cons x a ih =>
    have hnot : ¬d <+: x :: (a ++ b) := h 0 (by simp)
    have hrest : ∀ j < a.length, ¬d <+: (a ++ b).drop j := fun j hj =>
      h (j + 1) (by simpa using hj)
    rw [List.cons_append, find_cons_neg hnot, ih hrest, Option.map_map]
    rfl

theorem find_drop_of_le {xs : List α} {i n : ℕ} (hd : d ≠ []) (h : find d xs = some i)
    (hn : n ≤ i) : find d (xs.drop n) = some (i - n) := by
  apply find_eq_some_of hd
  · rw [List.drop_drop, Nat.add_sub_cancel' hn]
    exact prefix_of_find h
  · intro j hj
    rw [List.drop_drop]
    exact not_prefix_of_lt_find h (by omega)

theorem find_drop_eq_none {xs : List α} (hd : d ≠ []) (h : find d xs = none) (n : ℕ) :
    find d (xs.drop n) = none := by
  rw [find_eq_none_iff hd] at h ⊢
  intro j
  rw [List.drop_drop]
  exact h (n + j)

/-! A reader hands over what is in front of the first delimiter. One that sees no delimiter keeps
the last `keep` elements back, since a delimiter may begin in them. -/

def segment (d : List α) (keep : ℕ) (xs : List α) : ℕ := (find d xs).getD (xs.length - keep)

theorem segment_of_find {xs : List α} {i keep : ℕ} (h : find d xs = some i) :
    segment d keep xs = i := by
  rw [segment, h, Option.getD_some]

theorem segment_of_none {xs : List α} {keep : ℕ} (h : find d xs = none) :
    segment d keep xs = xs.length - keep := by
  rw [segment, h, Option.getD_none]

theorem segment_le {xs : List α} {keep : ℕ} : segment d keep xs ≤ xs.length := by
  cases h : find d xs with
  | none =>
    rw [segment_of_none h]
    exact Nat.sub_le _ _
  | some i =>
    rw [segment_of_find h]
    exact find_le_length h

/-- Handing over the front first changes neither where the rest ends nor whether it does. -/
theorem segment_drop {xs : List α} {keep n : ℕ} (hd : d ≠ []) (hn : n ≤ segment d keep xs) :
    segment d keep (xs.drop n) = segment d keep xs - n ∧
      (find d (xs.drop n)).isSome = (find d xs).isSome := by
  cases h : find d xs with
  | none =>
    have hdrop := find_drop_eq_none hd h n
    rw [segment_of_none hdrop, segment_of_none h, hdrop, List.length_drop]
    exact ⟨by omega, rfl⟩
  | some i =>
    rw [segment_of_find h] at hn ⊢
    have hdrop := find_drop_of_le hd h hn
    rw [segment_of_find hdrop, hdrop]
    exact ⟨rfl, rfl⟩

theorem find_of_drop {xs : List α} {keep n : ℕ} (hd : d ≠ []) (hn : n ≤ segment d keep xs) :
    find d xs = (find d (xs.drop n)).map (n + ·) := by
  obtain ⟨hsegment, hsome⟩ := segment_drop hd hn
  cases h : find d xs with
  | none =>
    rw [h, Option.isSome_none, Option.isSome_eq_false_iff, Option.isNone_iff_eq_none] at hsome
    rw [hsome, Option.map_none]
  | some i =>
    rw [h, Option.isSome_some, Option.isSome_iff_exists] at hsome
    obtain ⟨j, hj⟩ := hsome
    rw [segment_of_find h] at hn hsegment
    rw [segment_of_find hj] at hsegment
    rw [hj, Option.map_some, Option.some.injEq]
    omega

end Delimiter
