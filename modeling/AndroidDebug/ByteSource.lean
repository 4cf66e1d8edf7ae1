import Mathlib.Data.List.Basic
import Mathlib.Tactic.Common

/-! A source that is read in pieces. How much a read brings is up to the source: a plan lists the
sizes, and after its end each read brings as much as it can. -/
namespace ByteSource

structure Source (α : Type*) where
  rest : List α
  plan : List ℕ

variable {α : Type*}

/-- At least one element and at most `len`; `none` at the end. A read of no length brings
nothing. -/
def Source.read (src : Source α) (len : ℕ) : Option (List α × Source α) :=
  if len = 0 then some ([], src)
  else if src.rest.isEmpty then none
  else
    let n := min len (max 1 (src.plan.headD len))
    some (src.rest.take n, ⟨src.rest.drop n, src.plan.tail⟩)

variable {src src' : Source α} {len : ℕ} {piece : List α}

theorem read_eq_none_iff : src.read len = none ↔ 0 < len ∧ src.rest = [] := by
  simp only [Source.read, List.isEmpty_iff]
  split_ifs with h hrest
  · simp [h]
  · simp [Nat.pos_of_ne_zero h, hrest]
  · simp [hrest]

/-- What a read may do, whatever the plan. -/
structure Brings (src : Source α) (len : ℕ) (piece : List α) (src' : Source α) : Prop where
  rest_eq : src.rest = piece ++ src'.rest
  length_le : piece.length ≤ len
  ne_nil : 0 < len → piece ≠ []
  of_zero : len = 0 → src' = src

theorem brings_of_read (h : src.read len = some (piece, src')) : Brings src len piece src' := by
  simp only [Source.read, List.isEmpty_iff] at h
  split_ifs at h with hlen hrest
  · simp only [Option.some.injEq, Prod.mk.injEq] at h
    obtain ⟨rfl, rfl⟩ := h
    exact ⟨rfl, Nat.zero_le _, fun hpos => absurd hlen (Nat.ne_of_gt hpos), fun _ => rfl⟩
  · simp only [Option.some.injEq, Prod.mk.injEq] at h
    obtain ⟨rfl, rfl⟩ := h
    refine ⟨(List.take_append_drop _ _).symm, ?_, fun hpos hnil => ?_, fun h => absurd h hlen⟩
    · rw [List.length_take]
      omega
    · rcases List.take_eq_nil_iff.mp hnil with hzero | hzero
      · omega
      · exact hrest hzero

theorem Brings.length_lt (h : Brings src len piece src') (hne : piece ≠ []) :
    src'.rest.length < src.rest.length := by
  have := List.length_pos_of_ne_nil hne
  rw [h.rest_eq, List.length_append]
  omega

end ByteSource
