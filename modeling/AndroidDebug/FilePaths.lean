import Mathlib.Data.List.Basic
import Mathlib.Data.List.Infix
import Mathlib.Data.List.Induction
import Mathlib.Data.Nat.Notation
import Mathlib.Tactic.Common

/-! Paths and the places they lead to, in a tree of files without symbolic links. -/
namespace FilePaths

inductive Segment (N : Type*) where
  | here
  | up
  | name (n : N)
  deriving DecidableEq, Repr

abbrev Location (N : Type*) := List N

inductive Node (C : Type*) where
  | directory (searchable readable : Bool)
  | file (readable : Bool) (content : C)
  deriving DecidableEq, Repr

abbrev FileSystem (N C : Type*) := Location N → Option (Node C)

variable {N C : Type*}

def move (l : Location N) : Segment N → Location N
  | .here => l
  | .up => l.dropLast
  | .name n => l ++ [n]

/-- Where a path leads when only its names are read. -/
def resolve (l : Location N) (p : List (Segment N)) : Location N := p.foldl move l

def isSearchable (fs : FileSystem N C) (l : Location N) : Bool :=
  match fs l with
  | some (.directory searchable _) => searchable
  | _ => false

/-- Where the file system finds what a path names. -/
def walk (fs : FileSystem N C) : Location N → List (Segment N) → Option (Location N)
  | l, [] => if (fs l).isSome then some l else none
  | l, s :: p => if isSearchable fs l then walk fs (move l s) p else none

/-- How far below its start a path ends, unless it climbs above the start on its way. -/
def depth : ℕ → List (Segment N) → Option ℕ
  | d, [] => some d
  | d, .here :: p => depth d p
  | 0, .up :: _ => none
  | d + 1, .up :: p => depth d p
  | d, .name _ :: p => depth (d + 1) p

/-- The path comes to a place and from there on stays below it. -/
def Enters (l r : Location N) (p : List (Segment N)) : Prop :=
  ∃ i < p.length + 1, resolve l (p.take i) = r ∧ (depth 0 (p.drop i)).isSome = true

instance [DecidableEq N] (l r : Location N) (p : List (Segment N)) : Decidable (Enters l r p) :=
  inferInstanceAs (Decidable (∃ i < p.length + 1, _ ∧ _))

@[simp] theorem resolve_nil (l : Location N) : resolve l [] = l := rfl

@[simp] theorem resolve_cons (l : Location N) (s : Segment N) (p : List (Segment N)) :
    resolve l (s :: p) = resolve (move l s) p := rfl

theorem resolve_append (l : Location N) (p q : List (Segment N)) :
    resolve l (p ++ q) = resolve (resolve l p) q := List.foldl_append ..

theorem walk_eq_resolve {fs : FileSystem N C} {l m : Location N} {p : List (Segment N)}
    (h : walk fs l p = some m) : m = resolve l p := by
  induction p generalizing l with
  | nil =>
    simp only [walk, Option.ite_none_right_eq_some, Option.some.injEq] at h
    exact h.2.symm
  | cons s p ih =>
    simp only [walk, Option.ite_none_right_eq_some] at h
    exact ih h.2

theorem depth_append (d : ℕ) (p q : List (Segment N)) :
    depth d (p ++ q) = (depth d p).bind fun e => depth e q := by
  induction p generalizing d with
  | nil => rfl
  | cons s p ih =>
    cases s with
    | here => simpa [depth] using ih d
    | up =>
      cases d with
      | zero => rfl
      | succ d => simpa [depth] using ih d
    | name n => simpa [depth] using ih (d + 1)

/-- A path that does not climb above `r` ends below `r`, as deep as it says. -/
theorem resolve_of_depth {r x : Location N} {p : List (Segment N)} {d : ℕ}
    (h : depth x.length p = some d) : ∃ y, y.length = d ∧ resolve (r ++ x) p = r ++ y := by
  induction p generalizing x with
  | nil => exact ⟨x, Option.some.inj h, rfl⟩
  | cons s p ih =>
    cases s with
    | here => exact ih h
    | up =>
      rcases List.eq_nil_or_concat x with rfl | ⟨x, n, rfl⟩
      · cases h
      · rw [List.concat_eq_append, List.length_append, List.length_singleton] at h
        have hmove : move (r ++ x.concat n) .up = r ++ x := by
          simp [move, ← List.append_assoc]
        rw [resolve_cons, hmove]
        exact ih h
    | name n =>
      have hmove : move (r ++ x) (.name n) = r ++ (x ++ [n]) := by simp [move]
      rw [resolve_cons, hmove]
      apply ih
      rw [List.length_append, List.length_singleton]
      exact h

theorem prefix_of_enters {l r : Location N} {p : List (Segment N)} (h : Enters l r p) :
    r <+: resolve l p := by
  obtain ⟨i, -, hr, hdepth⟩ := h
  obtain ⟨d, hd⟩ := Option.isSome_iff_exists.mp hdepth
  obtain ⟨y, -, hy⟩ := resolve_of_depth (r := r) (x := []) hd
  rw [List.append_nil] at hy
  rw [← List.take_append_drop i p, resolve_append, hr, hy]
  exact List.prefix_append _ _

theorem enters_of_resolve (l : Location N) (p : List (Segment N)) :
    Enters l (resolve l p) p :=
  ⟨p.length, Nat.lt_succ_self _, by rw [List.take_length], by rw [List.drop_length]; rfl⟩

/-- One more segment keeps the path below the place, if it ends there. -/
theorem Enters.concat {l r : Location N} {p : List (Segment N)} {s : Segment N}
    (h : Enters l r p) (hs : s = .up → r.length < (resolve l p).length) :
    Enters l r (p ++ [s]) := by
  obtain ⟨i, hi, hr, hdepth⟩ := h
  obtain ⟨d, hd⟩ := Option.isSome_iff_exists.mp hdepth
  have hle : i ≤ p.length := Nat.lt_succ_iff.mp hi
  have hlen : (resolve l p).length = r.length + d := by
    obtain ⟨y, hy, hresolve⟩ := resolve_of_depth (r := r) (x := []) hd
    rw [← List.take_append_drop i p, resolve_append, hr, ← List.append_nil r, hresolve,
      List.length_append, hy, List.append_nil]
  refine ⟨i, by rw [List.length_append]; omega, ?_, ?_⟩
  · rw [List.take_append_of_le_length hle, hr]
  · rw [List.drop_append_of_le_length hle, depth_append, hd, Option.bind_some]
    cases s with
    | here => rfl
    | name n => rfl
    | up =>
      have hpos := hs rfl
      obtain ⟨e, rfl⟩ : ∃ e, d = e + 1 := ⟨d - 1, by omega⟩
      rfl

/-- A path that starts above a place ends below it exactly when it comes to the place and
from there on stays below. -/
theorem prefix_resolve_iff {l r : Location N} (hl : l <+: r) (p : List (Segment N)) :
    r <+: resolve l p ↔ Enters l r p := by
  refine ⟨fun h => ?_, prefix_of_enters⟩
  induction p using List.reverseRecOn with
  | nil =>
    have hr : l = r := hl.eq_of_length_le h.length_le
    rw [← hr]
    exact enters_of_resolve l []
  | append_singleton p s ih =>
    by_cases hr : r = resolve l (p ++ [s])
    · rw [hr]
      exact enters_of_resolve l _
    · have hstep : resolve l (p ++ [s]) = move (resolve l p) s := by
        rw [resolve_append, resolve_cons, resolve_nil]
      rw [hstep] at h hr
      cases s with
      | here =>
        apply (ih h).concat
        simp
      | name n =>
        rcases List.prefix_concat_iff.mp h with h | h
        · exact absurd h hr
        · apply (ih h).concat
          simp
      | up =>
        replace h : r <+: (resolve l p).dropLast := h
        have hbelow : r <+: resolve l p := h.trans (List.dropLast_prefix _)
        apply (ih hbelow).concat
        intro _
        have hle := h.length_le
        have hshort : (resolve l p).dropLast.length = (resolve l p).length - 1 :=
          List.length_dropLast
        by_contra hnot
        have heq : r.length = (resolve l p).dropLast.length := by
          have hle' := hbelow.length_le
          omega
        exact hr (h.eq_of_length heq)

end FilePaths
