import Mathlib.Tactic.Common

/-! Computations that may be refused, and loops that stop at the first entry they refuse. -/
namespace CheckedFold

theorem ok_bind {ε α β : Type} (a : α) (f : α → Except ε β) : (Except.ok a >>= f) = f a := rfl

theorem bind_ok_iff {ε α β : Type} {x : Except ε α} {f : α → Except ε β} {b : β} :
    (x >>= f) = .ok b ↔ ∃ a, x = .ok a ∧ f a = .ok b := by
  cases x with
  | error e => simp [bind, Except.bind]
  | ok a => simp [bind, Except.bind]

variable {α β ε : Type*} {f : β → α → Except ε β}

theorem foldlM_cons_ok_iff {b c : β} {a : α} {l : List α} :
    (a :: l).foldlM f b = .ok c ↔ ∃ d, f b a = .ok d ∧ l.foldlM f d = .ok c := by
  rw [List.foldlM_cons]
  cases h : f b a with
  | error e => simp [bind, Except.bind]
  | ok d => simp [bind, Except.bind]

/-- When an entry is refused whatever came before, the loop ends if and only if it refuses none. -/
theorem foldlM_ok_iff {ok : α → Prop} (h : ∀ b a, (∃ c, f b a = .ok c) ↔ ok a) (l : List α)
    (b : β) : (∃ c, l.foldlM f b = .ok c) ↔ ∀ a ∈ l, ok a := by
  induction l generalizing b with
  | nil => simp [pure, Except.pure]
  | cons a l ih =>
    simp only [foldlM_cons_ok_iff, List.forall_mem_cons]
    constructor
    · rintro ⟨c, d, ha, hl⟩
      exact ⟨(h b a).mp ⟨d, ha⟩, (ih d).mp ⟨c, hl⟩⟩
    · rintro ⟨ha, hl⟩
      obtain ⟨d, hd⟩ := (h b a).mpr ha
      obtain ⟨c, hc⟩ := (ih d).mpr hl
      exact ⟨c, d, hd, hc⟩

/-- A flag that some entries raise and none takes down is up at the end if it was before or one
of the entries raised it. -/
theorem foldlM_flag_iff {flag : β → Prop} {raises : α → Prop}
    (h : ∀ b a c, f b a = .ok c → (flag c ↔ flag b ∨ raises a)) {l : List α} {b c : β}
    (hrun : l.foldlM f b = .ok c) : flag c ↔ flag b ∨ ∃ a ∈ l, raises a := by
  induction l generalizing b with
  | nil =>
    obtain rfl : b = c := by simpa [pure, Except.pure] using hrun
    simp
  | cons a l ih =>
    obtain ⟨d, ha, hl⟩ := foldlM_cons_ok_iff.mp hrun
    rw [ih hl, h b a d ha, or_assoc]
    simp only [List.mem_cons, exists_eq_or_imp]

/-- A loop that puts one element for every entry. -/
theorem foldlM_puts {γ : Type*} {f : List γ → α → Except ε (List γ)} {g : α → γ} {l : List α}
    (h : ∀ a ∈ l, ∀ b, f b a = .ok (g a :: b)) (b : List γ) :
    l.foldlM f b = .ok ((l.map g).reverse ++ b) := by
  induction l generalizing b with
  | nil => rfl
  | cons a l ih =>
    have hrest := ih (fun c hc => h c (List.mem_cons_of_mem a hc)) (g a :: b)
    rw [foldlM_cons_ok_iff]
    refine ⟨g a :: b, h a List.mem_cons_self b, ?_⟩
    rw [hrest, List.map_cons, List.reverse_cons, List.append_assoc]
    rfl

end CheckedFold
