import AndroidDebug.TransitionSystem
import Mathlib.Data.List.Basic
import Mathlib.Logic.Function.Basic

/-! A desk that lends out resources, each of which is at exactly one place. A resource is
lent once it has been borrowed and not returned since; a borrower is served once. -/
namespace Custody

open TransitionSystem

variable {α β : Type*}

inductive Handover (α β : Type*) where
  | borrowed (a : α) (b : β)
  | returned (a : α)
  deriving DecidableEq, Repr

def Lent (h : List (Handover α β)) (a : α) : Prop :=
  ∃ xs b ys, h = xs ++ .borrowed a b :: ys ∧ .returned a ∉ ys

/-- Between any two borrowings of one resource there is a return of it. -/
def Exclusive (h : List (Handover α β)) : Prop :=
  ∀ xs a b ys b' zs, h = xs ++ .borrowed a b :: (ys ++ .borrowed a b' :: zs) → .returned a ∈ ys

theorem not_lent_nil (a : α) : ¬ Lent ([] : List (Handover α β)) a := by
  rintro ⟨xs, b, ys, h, -⟩
  simp at h

theorem exclusive_nil : Exclusive ([] : List (Handover α β)) := by
  intro xs a b ys b' zs h
  simp at h

/-- A split of an extended list either keeps the last entry in its tail or ends there. -/
theorem append_singleton_split {γ : Type*} {h xs ys : List γ} {x y : γ}
    (he : h ++ [y] = xs ++ x :: ys) :
    (ys = [] ∧ y = x ∧ h = xs) ∨ ∃ zs, ys = zs ++ [y] ∧ h = xs ++ x :: zs := by
  rcases List.eq_nil_or_concat ys with rfl | ⟨zs, z, rfl⟩
  · obtain ⟨rfl, hx⟩ := List.append_inj' he rfl
    exact Or.inl ⟨rfl, by simpa using hx, rfl⟩
  · rw [List.concat_eq_append] at he ⊢
    rw [← List.cons_append, ← List.append_assoc] at he
    obtain ⟨rfl, hx⟩ := List.append_inj' he rfl
    exact Or.inr ⟨zs, by simpa using hx.symm, rfl⟩

theorem lent_append_borrowed {h : List (Handover α β)} {a c : α} {b : β}
    (hl : Lent (h ++ [.borrowed c b]) a) : a = c ∨ Lent h a := by
  obtain ⟨xs, b', ys, he, hn⟩ := hl
  rcases append_singleton_split he with ⟨-, hx, -⟩ | ⟨zs, rfl, hz⟩
  · exact Or.inl (Handover.borrowed.inj hx).1.symm
  · exact Or.inr ⟨xs, b', zs, hz, fun hm => hn (by simp [hm])⟩

theorem lent_append_returned {h : List (Handover α β)} {a c : α}
    (hl : Lent (h ++ [.returned c]) a) : a ≠ c ∧ Lent h a := by
  obtain ⟨xs, b, ys, he, hn⟩ := hl
  rcases append_singleton_split he with ⟨-, hx, -⟩ | ⟨zs, rfl, hz⟩
  · cases hx
  · exact ⟨fun hac => hn (by simp [hac]), xs, b, zs, hz, fun hm => hn (by simp [hm])⟩

theorem Exclusive.append_returned {h : List (Handover α β)} (hx : Exclusive h) (c : α) :
    Exclusive (h ++ [.returned c]) := by
  intro xs a b ys b' zs he
  rw [← List.cons_append, ← List.append_assoc] at he
  rcases append_singleton_split he with ⟨-, hy, -⟩ | ⟨ws, rfl, hw⟩
  · cases hy
  · exact hx xs a b ys b' ws (by simpa using hw)

/-- Lending out what is not lent keeps the history exclusive. -/
theorem Exclusive.append_borrowed {h : List (Handover α β)} (hx : Exclusive h) {c : α}
    (hc : ¬ Lent h c) (b₀ : β) : Exclusive (h ++ [.borrowed c b₀]) := by
  intro xs a b ys b' zs he
  rw [← List.cons_append, ← List.append_assoc] at he
  rcases append_singleton_split he with ⟨rfl, hy, hh⟩ | ⟨ws, rfl, hw⟩
  · obtain ⟨rfl, -⟩ := Handover.borrowed.inj hy
    by_contra hn
    exact hc ⟨xs, b, ys, hh, hn⟩
  · exact hx xs a b ys b' ws (by simpa using hw)

inductive Place (β : Type*) where
  | unborn
  | free
  | held (b : β)
  | attached (b : β)
  | away
  deriving DecidableEq, Repr

/-- The borrower whose resource is at this place. -/
def Place.keeper : Place β → Option β
  | .held b => some b
  | .attached b => some b
  | _ => none

structure Desk (α β : Type*) where
  place : α → Place β
  served : β → Bool
  history : List (Handover α β)

inductive Move (α β : Type*) where
  | create (a : α) (b : β)
  | borrow (a : α) (b : β)
  | attach (a : α) (b : β)
  | withdraw (a : α)
  | giveBack (a : α)

variable [DecidableEq α]

def Desk.put (d : Desk α β) (a : α) (p : Place β) : Desk α β :=
  { d with place := Function.update d.place a p }

def Desk.lend [DecidableEq β] (d : Desk α β) (a : α) (b : β) : Desk α β :=
  { place := Function.update d.place a (.held b)
    served := Function.update d.served b true
    history := d.history ++ [.borrowed a b] }

def desk (α β : Type*) [DecidableEq α] [DecidableEq β] : System (Desk α β) (Move α β) where
  initial d := d = ⟨fun _ => .unborn, fun _ => false, []⟩
  Enabled d
    | .create a b => d.place a = .unborn ∧ d.served b = false
    | .borrow a b => d.place a = .free ∧ d.served b = false
    | .attach a b => d.place a = .held b
    | .withdraw a => ∀ b, d.place a ≠ .held b
    | .giveBack a => d.place a = .away
  next d
    | .create a b => d.lend a b
    | .borrow a b => d.lend a b
    | .attach a b => d.put a (.attached b)
    | .withdraw a => d.put a .away
    | .giveBack a => { d.put a .free with history := d.history ++ [.returned a] }

structure Sound (d : Desk α β) : Prop where
  keeper_served : ∀ a b, (d.place a).keeper = some b → d.served b = true
  keeper_unique : ∀ a a' b, (d.place a).keeper = some b → (d.place a').keeper = some b → a = a'
  unborn_not_lent : ∀ a, d.place a = .unborn → ¬ Lent d.history a
  free_not_lent : ∀ a, d.place a = .free → ¬ Lent d.history a
  exclusive : Exclusive d.history

/-- Moving one resource to a place with no new keeper keeps the desk sound. -/
theorem Sound.put {d : Desk α β} (h : Sound d) {a : α} {p : Place β}
    (hk : ∀ b, p.keeper = some b → (d.place a).keeper = some b)
    (hu : p ≠ .unborn) (hf : p ≠ .free) : Sound (d.put a p) := by
  have old : ∀ x b, ((d.put a p).place x).keeper = some b → (d.place x).keeper = some b := by
    intro x b hx
    by_cases hxa : x = a
    · subst x
      exact hk b (by simpa [Desk.put] using hx)
    · simpa [Desk.put, hxa] using hx
  refine ⟨fun x b hx => h.keeper_served x b (old x b hx),
    fun x y b hx hy => h.keeper_unique x y b (old x b hx) (old y b hy), ?_, ?_, h.exclusive⟩
  · intro x hx
    by_cases hxa : x = a
    · exact absurd (by simpa [Desk.put, hxa] using hx) hu
    · exact h.unborn_not_lent x (by simpa [Desk.put, hxa] using hx)
  · intro x hx
    by_cases hxa : x = a
    · exact absurd (by simpa [Desk.put, hxa] using hx) hf
    · exact h.free_not_lent x (by simpa [Desk.put, hxa] using hx)

theorem Sound.lend [DecidableEq β] {d : Desk α β} (h : Sound d) {a : α} {b : β}
    (hl : ¬ Lent d.history a)
    (hs : d.served b = false) : Sound (d.lend a b) := by
  have fresh : ∀ x, (d.place x).keeper ≠ some b := by
    intro x hx
    have := h.keeper_served x b hx
    rw [hs] at this
    cases this
  have other : ∀ x c, x ≠ a → ((d.lend a b).place x).keeper = some c →
      (d.place x).keeper = some c := by
    intro x c hxa hx
    simpa [Desk.lend, hxa] using hx
  have same : ∀ c, ((d.lend a b).place a).keeper = some c → b = c := by
    intro c hc
    simpa [Desk.lend, Place.keeper] using hc
  constructor
  · intro x c hx
    by_cases hcb : c = b
    · simp [Desk.lend, hcb]
    · by_cases hxa : x = a
      · subst x
        exact absurd (same c hx).symm hcb
      · simpa [Desk.lend, hcb] using h.keeper_served x c (other x c hxa hx)
  · intro x y c hx hy
    by_cases hxa : x = a <;> by_cases hya : y = a
    · rw [hxa, hya]
    · subst x
      obtain rfl := same c hx
      exact absurd (other y b hya hy) (fresh y)
    · subst y
      obtain rfl := same c hy
      exact absurd (other x b hxa hx) (fresh x)
    · exact h.keeper_unique x y c (other x c hxa hx) (other y c hya hy)
  · intro x hx hlx
    by_cases hxa : x = a
    · simp [Desk.lend, hxa] at hx
    · rcases lent_append_borrowed hlx with heq | hold
      · exact hxa heq
      · exact h.unborn_not_lent x (by simpa [Desk.lend, hxa] using hx) hold
  · intro x hx hlx
    by_cases hxa : x = a
    · simp [Desk.lend, hxa] at hx
    · rcases lent_append_borrowed hlx with heq | hold
      · exact hxa heq
      · exact h.free_not_lent x (by simpa [Desk.lend, hxa] using hx) hold
  · exact h.exclusive.append_borrowed hl b

theorem Sound.giveBack {d : Desk α β} (h : Sound d) (a : α) :
    Sound { d.put a .free with history := d.history ++ [.returned a] } := by
  have old : ∀ x b, ((d.put a .free).place x).keeper = some b → (d.place x).keeper = some b := by
    intro x b hx
    by_cases hxa : x = a
    · simp [Desk.put, hxa, Place.keeper] at hx
    · simpa [Desk.put, hxa] using hx
  refine ⟨fun x b hx => h.keeper_served x b (old x b hx),
    fun x y b hx hy => h.keeper_unique x y b (old x b hx) (old y b hy), ?_, ?_,
    h.exclusive.append_returned a⟩
  · intro x hx hlx
    obtain ⟨hxa, hold⟩ := lent_append_returned hlx
    exact h.unborn_not_lent x (by simpa [Desk.put, hxa] using hx) hold
  · intro x hx hlx
    obtain ⟨hxa, hold⟩ := lent_append_returned hlx
    exact h.free_not_lent x (by simpa [Desk.put, hxa] using hx) hold

theorem sound_step [DecidableEq β] {d : Desk α β} (h : Sound d) {m : Move α β}
    (hm : (desk α β).Enabled d m) :
    Sound ((desk α β).next d m) := by
  cases m with
  | create a b => exact h.lend (h.unborn_not_lent a hm.1) hm.2
  | borrow a b => exact h.lend (h.free_not_lent a hm.1) hm.2
  | attach a b =>
    have hp : d.place a = .held b := hm
    apply h.put _ (by simp) (by simp)
    intro c hc
    rw [hp]
    exact hc
  | withdraw a =>
    apply h.put _ (by simp) (by simp)
    intro c hc
    cases hc
  | giveBack a => exact h.giveBack a

theorem reachable_sound [DecidableEq β] {d : Desk α β} (r : Reachable (desk α β) d) : Sound d := by
  refine Reachable.invariant (I := Sound) ?_ (fun _ _ h he => sound_step h he) r
  rintro _ rfl
  refine ⟨?_, ?_, fun a _ => not_lent_nil a, fun a _ => not_lent_nil a, exclusive_nil⟩
  · intro a b h
    cases h
  · intro a a' b h
    cases h

end Custody
