import Mathlib.Logic.Relation

/-! Labelled transition systems with separate guards and effects.
A run may be restricted by a condition on the state before each step and its label;
the unrestricted notions are the instance whose condition always holds. -/
namespace TransitionSystem

variable {σ ε τ δ : Type*}

structure System (σ ε : Type*) where
  initial : σ → Prop
  Enabled : σ → ε → Prop
  next : σ → ε → σ

/-- Finite runs all of whose steps meet `P`. -/
inductive RunWhere (M : System σ ε) (P : σ → ε → Prop) : σ → σ → Prop where
  | refl (s) : RunWhere M P s s
  | tail {s t e} : RunWhere M P s t → M.Enabled t e → P t e → RunWhere M P s (M.next t e)

def Unrestricted : σ → ε → Prop := fun _ _ => True

abbrev Execution (M : System σ ε) : σ → σ → Prop := RunWhere M Unrestricted

def ReachableWhere (M : System σ ε) (P : σ → ε → Prop) (s : σ) : Prop :=
  ∃ i, M.initial i ∧ RunWhere M P i s

abbrev Reachable (M : System σ ε) : σ → Prop := ReachableWhere M Unrestricted

theorem RunWhere.mono {M : System σ ε} {P Q : σ → ε → Prop} (h : ∀ s e, P s e → Q s e)
    {s t : σ} (r : RunWhere M P s t) : RunWhere M Q s t := by
  induction r with
  | refl => exact .refl _
  | tail _ he hp ih => exact .tail ih he (h _ _ hp)

theorem RunWhere.trans {M : System σ ε} {P : σ → ε → Prop} {s t u : σ}
    (h : RunWhere M P s t) (k : RunWhere M P t u) : RunWhere M P s u := by
  induction k with
  | refl => exact h
  | tail _ he hp ih => exact .tail ih he hp

theorem RunWhere.one {M : System σ ε} {P : σ → ε → Prop} {s : σ} {e : ε}
    (he : M.Enabled s e) (hp : P s e) : RunWhere M P s (M.next s e) := .tail (.refl s) he hp

theorem RunWhere.head {M : System σ ε} {P : σ → ε → Prop} {s t : σ} {e : ε}
    (he : M.Enabled s e) (hp : P s e) (h : RunWhere M P (M.next s e) t) : RunWhere M P s t :=
  (RunWhere.one he hp).trans h

theorem ReachableWhere.mono {M : System σ ε} {P Q : σ → ε → Prop}
    (h : ∀ s e, P s e → Q s e) {s : σ} (r : ReachableWhere M P s) : ReachableWhere M Q s := by
  obtain ⟨i, hi, hr⟩ := r
  exact ⟨i, hi, hr.mono h⟩

theorem ReachableWhere.reachable {M : System σ ε} {P : σ → ε → Prop} {s : σ}
    (r : ReachableWhere M P s) : Reachable M s := r.mono fun _ _ _ => trivial

theorem ReachableWhere.step {M : System σ ε} {P : σ → ε → Prop} {s : σ} {e : ε}
    (r : ReachableWhere M P s) (he : M.Enabled s e) (hp : P s e) :
    ReachableWhere M P (M.next s e) := by
  obtain ⟨i, hi, hr⟩ := r
  exact ⟨i, hi, hr.tail he hp⟩

/-- What holds initially and is kept by every admitted step holds in every state reached. -/
theorem ReachableWhere.invariant {M : System σ ε} {P : σ → ε → Prop} {I : σ → Prop}
    (hinit : ∀ s, M.initial s → I s)
    (hstep : ∀ s e, I s → M.Enabled s e → P s e → I (M.next s e))
    {s : σ} (r : ReachableWhere M P s) : I s := by
  obtain ⟨i, hi, hr⟩ := r
  induction hr with
  | refl => exact hinit _ hi
  | tail _ he hp ih => exact hstep _ _ ih he hp

theorem Reachable.invariant {M : System σ ε} {I : σ → Prop}
    (hinit : ∀ s, M.initial s → I s)
    (hstep : ∀ s e, I s → M.Enabled s e → I (M.next s e))
    {s : σ} (r : Reachable M s) : I s :=
  ReachableWhere.invariant hinit (fun s e h he _ => hstep s e h he) r

/-- A second invariant may use an established one on the state before the step. -/
theorem ReachableWhere.invariant_with {M : System σ ε} {P : σ → ε → Prop} {J I : σ → Prop}
    (hJ : ∀ s, Reachable M s → J s)
    (hinit : ∀ s, M.initial s → I s)
    (hstep : ∀ s e, J s → I s → M.Enabled s e → P s e → I (M.next s e))
    {s : σ} (r : ReachableWhere M P s) : I s := by
  obtain ⟨i, hi, hr⟩ := r
  induction hr with
  | refl => exact hinit _ hi
  | tail hr he hp ih =>
    have hreach := ReachableWhere.reachable (M := M) ⟨i, hi, hr⟩
    exact hstep _ _ (hJ _ hreach) ih he hp

def runTrace (M : System σ ε) (s : σ) : List ε → σ
  | [] => s
  | e :: es => runTrace M (M.next s e) es

def ValidTrace (M : System σ ε) (P : σ → ε → Prop) (s : σ) : List ε → Prop
  | [] => True
  | e :: es => (M.Enabled s e ∧ P s e) ∧ ValidTrace M P (M.next s e) es

instance ValidTrace.decidable (M : System σ ε) (P : σ → ε → Prop)
    [∀ s e, Decidable (M.Enabled s e)] [∀ s e, Decidable (P s e)] (s : σ) :
    (es : List ε) → Decidable (ValidTrace M P s es)
  | [] => isTrue trivial
  | e :: es =>
    have := ValidTrace.decidable M P (M.next s e) es
    inferInstanceAs (Decidable ((M.Enabled s e ∧ P s e) ∧ ValidTrace M P (M.next s e) es))

instance : ∀ (s : σ) (e : ε), Decidable (Unrestricted s e) :=
  fun _ _ => isTrue trivial

theorem runTrace_append (M : System σ ε) (s : σ) (es fs : List ε) :
    runTrace M s (es ++ fs) = runTrace M (runTrace M s es) fs := by
  induction es generalizing s with
  | nil => rfl
  | cons e es ih => exact ih (M.next s e)

theorem validTrace_append_iff {M : System σ ε} {P : σ → ε → Prop} {s : σ} {es fs : List ε} :
    ValidTrace M P s (es ++ fs) ↔ ValidTrace M P s es ∧ ValidTrace M P (runTrace M s es) fs := by
  induction es generalizing s with
  | nil => exact (and_iff_right trivial).symm
  | cons e es ih =>
    simp only [List.cons_append, ValidTrace, runTrace, ih, and_assoc]

/-- Replaying a valid trace prolongs a run. -/
theorem RunWhere.replay {M : System σ ε} {P : σ → ε → Prop} {u : σ} :
    ∀ {s : σ} (es : List ε), RunWhere M P u s → ValidTrace M P s es →
      RunWhere M P u (runTrace M s es)
  | _, [], r, _ => r
  | _, _ :: es, r, ⟨⟨he, hp⟩, hv⟩ => RunWhere.replay es (r.tail he hp) hv

theorem validTrace_reachable {M : System σ ε} {P : σ → ε → Prop} {s : σ} {es : List ε}
    (hi : M.initial s) (h : ValidTrace M P s es) : ReachableWhere M P (runTrace M s es) :=
  ⟨s, hi, RunWhere.replay es (.refl s) h⟩

/-- A relation under which every concrete step is matched by an abstract step or by none.
`J` is an invariant of the concrete system. -/
structure Simulation (M : System σ ε) (A : System τ δ) (J : σ → Prop) where
  Rel : σ → τ → Prop
  initial : ∀ s, M.initial s → ∃ t, A.initial t ∧ Rel s t
  step : ∀ s t e, J s → Rel s t → M.Enabled s e →
    Rel (M.next s e) t ∨ ∃ d, A.Enabled t d ∧ Rel (M.next s e) (A.next t d)

theorem Simulation.reachable {M : System σ ε} {A : System τ δ} {J : σ → Prop}
    (f : Simulation M A J) (hJ : ∀ s, Reachable M s → J s) {s : σ} (r : Reachable M s) :
    ∃ t, Reachable A t ∧ f.Rel s t := by
  obtain ⟨i, hi, hr⟩ := r
  induction hr with
  | refl =>
    obtain ⟨t, ht, hrel⟩ := f.initial _ hi
    exact ⟨t, ⟨t, ht, .refl t⟩, hrel⟩
  | tail hr he _ ih =>
    obtain ⟨t, ht, hrel⟩ := ih
    rcases f.step _ _ _ (hJ _ ⟨i, hi, hr⟩) hrel he with hstay | ⟨d, hd, hmove⟩
    · exact ⟨t, ht, hstay⟩
    · exact ⟨_, ht.step hd trivial, hmove⟩

end TransitionSystem
