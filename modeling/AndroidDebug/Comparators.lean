import Mathlib.Data.Int.Order.Basic
import Mathlib.Data.List.Sort
import Mathlib.Data.Prod.Lex

/-! Comparators that answer with an integer, of which the sign counts: when they order a set, and
what a stable sort makes of it. -/
namespace Comparators

variable {α β : Type*} {c : α → α → ℤ} {E : Set α} {l : List α} {x y z : α}

/-- The sign is antisymmetric, the relation transitive, and elements that compare equal compare
alike to all others. -/
structure IsTotalPreorderOn (c : α → α → ℤ) (E : Set α) : Prop where
  antisymm : ∀ x ∈ E, ∀ y ∈ E, (c x y).sign = -(c y x).sign
  trans : ∀ x ∈ E, ∀ y ∈ E, ∀ z ∈ E, 0 < c x y → 0 < c y z → 0 < c x z
  alike : ∀ x ∈ E, ∀ y ∈ E, c x y = 0 → ∀ z ∈ E, (c x z).sign = (c y z).sign

def sortedBy (c : α → α → ℤ) (l : List α) : List α := l.mergeSort fun x y => c x y ≤ 0

section Keys

variable [LinearOrder β]

theorem sign_of_key {k₁ k₂ : β} {n : ℤ} (hneg : n < 0 ↔ k₁ < k₂) (hpos : 0 < n ↔ k₂ < k₁) :
    n.sign = if k₁ < k₂ then -1 else if k₂ < k₁ then 1 else 0 := by
  split_ifs with h h'
  · exact Int.sign_eq_neg_one_of_neg (hneg.mpr h)
  · exact Int.sign_eq_one_of_pos (hpos.mpr h')
  · rw [Int.sign_eq_zero_iff_zero]
    have hn : ¬ n < 0 := fun hn => h (hneg.mp hn)
    have hp : ¬ 0 < n := fun hp => h' (hpos.mp hp)
    omega

theorem IsTotalPreorderOn.of_key (k : α → β) (hneg : ∀ x ∈ E, ∀ y ∈ E, (c x y < 0 ↔ k x < k y))
    (hpos : ∀ x ∈ E, ∀ y ∈ E, (0 < c x y ↔ k y < k x)) : IsTotalPreorderOn c E where
  antisymm x hx y hy := by
    rw [sign_of_key (hneg x hx y hy) (hpos x hx y hy),
      sign_of_key (hneg y hy x hx) (hpos y hy x hx)]
    rcases lt_trichotomy (k x) (k y) with h | h | h
    · simp [h, h.not_gt]
    · simp [h]
    · simp [h, h.not_gt]
  trans x hx y hy z hz hxy hyz :=
    (hpos x hx z hz).mpr (((hpos y hy z hz).mp hyz).trans ((hpos x hx y hy).mp hxy))
  alike x hx y hy heq z hz := by
    have hkey : k x = k y := by
      refine le_antisymm (not_lt.mp fun h => ?_) (not_lt.mp fun h => ?_)
      · have := (hpos x hx y hy).mpr h
        omega
      · have := (hneg x hx y hy).mpr h
        omega
    rw [sign_of_key (hneg x hx z hz) (hpos x hx z hz),
      sign_of_key (hneg y hy z hz) (hpos y hy z hz), hkey]

end Keys

namespace IsTotalPreorderOn

theorem neg_iff (h : IsTotalPreorderOn c E) (hx : x ∈ E) (hy : y ∈ E) :
    c x y < 0 ↔ 0 < c y x := by
  have hsign := h.antisymm x hx y hy
  rw [← Int.sign_eq_neg_one_iff_neg, ← Int.sign_eq_one_iff_pos]
  omega

theorem le_trans (h : IsTotalPreorderOn c E) (hx : x ∈ E) (hy : y ∈ E) (hz : z ∈ E)
    (hxy : c x y ≤ 0) (hyz : c y z ≤ 0) : c x z ≤ 0 := by
  by_contra hlt
  have hzx : c z x < 0 := (h.neg_iff hz hx).mpr (not_le.mp hlt)
  rcases eq_or_lt_of_le hxy with heq | hxy
  · have hsign := h.alike x hx y hy heq z hz
    rw [Int.sign_eq_one_of_pos (not_le.mp hlt)] at hsign
    have := Int.sign_eq_one_iff_pos.mp hsign.symm
    omega
  · rcases eq_or_lt_of_le hyz with heq | hyz
    · have hsign := h.alike y hy z hz heq x hx
      rw [Int.sign_eq_neg_one_of_neg hzx,
        Int.sign_eq_one_of_pos ((h.neg_iff hx hy).mp hxy)] at hsign
      omega
    · have := h.trans z hz y hy x hx ((h.neg_iff hy hz).mp hyz) ((h.neg_iff hx hy).mp hxy)
      omega

theorem le_total (h : IsTotalPreorderOn c E) (hx : x ∈ E) (hy : y ∈ E) :
    c x y ≤ 0 ∨ c y x ≤ 0 := by
  have := h.neg_iff hy hx
  omega

/-- The order on the set as a relation on its elements, transitive and total. -/
theorem trans_val (h : IsTotalPreorderOn c E) (x y z : E) (hxy : decide (c x y ≤ 0) = true)
    (hyz : decide (c y z ≤ 0) = true) : decide (c x z ≤ 0) = true :=
  decide_eq_true (h.le_trans x.2 y.2 z.2 (of_decide_eq_true hxy) (of_decide_eq_true hyz))

theorem total_val (h : IsTotalPreorderOn c E) (x y : E) :
    (decide (c x y ≤ 0) || decide (c y x ≤ 0)) = true := by
  simpa using h.le_total x.2 y.2

/-- Sorting a list of the set's elements as such. -/
theorem sortedBy_val (c : α → α → ℤ) (hl : ∀ x ∈ l, x ∈ E) :
    sortedBy c l =
      ((l.attachWith (· ∈ E) hl).mergeSort fun x y => c x y ≤ 0).map Subtype.val := by
  have hmap := List.map_mergeSort (l := l.attachWith (· ∈ E) hl) (f := Subtype.val)
    (r := fun x y : {x // x ∈ E} => decide (c x.1 y.1 ≤ 0)) (s := fun x y => decide (c x y ≤ 0))
    fun _ _ _ _ => rfl
  rw [List.attachWith_map_subtype_val] at hmap
  exact hmap.symm

theorem pairwise_sortedBy (h : IsTotalPreorderOn c E) (hl : ∀ x ∈ l, x ∈ E) :
    (sortedBy c l).Pairwise fun x y => c x y ≤ 0 := by
  rw [sortedBy_val c hl, List.pairwise_map]
  exact (List.pairwise_mergeSort h.trans_val h.total_val _).imp of_decide_eq_true

/-- What is not after another element and stands before it is not moved behind it. -/
theorem pair_sublist_sortedBy (h : IsTotalPreorderOn c E) (hl : ∀ x ∈ l, x ∈ E) (hxy : c x y ≤ 0)
    (hsub : [x, y].Sublist l) : [x, y].Sublist (sortedBy c l) := by
  rw [← List.attachWith_map_subtype_val hl] at hsub
  obtain ⟨l', hsub, hmap⟩ := List.sublist_map_iff.mp hsub
  obtain ⟨u, rest, rfl, rfl, hrest⟩ := List.map_eq_cons_iff.mp hmap.symm
  obtain ⟨v, rest, rfl, rfl, hnil⟩ := List.map_eq_cons_iff.mp hrest
  obtain rfl := List.map_eq_nil_iff.mp hnil
  rw [sortedBy_val c hl]
  exact (List.pair_sublist_mergeSort h.trans_val h.total_val (decide_eq_true hxy) hsub).map
    Subtype.val

end IsTotalPreorderOn

end Comparators
