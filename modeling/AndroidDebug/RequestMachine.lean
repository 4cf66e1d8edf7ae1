import Mathlib.Data.List.Induction
import Mathlib.Tactic.Common

/-! Machines that answer requests one after another, and a field of their state that keeps what
was selected last. -/
namespace RequestMachine

structure Machine (σ ε ο : Type*) where
  initial : σ
  answer : σ → ε → σ × ο

variable {σ ε ο α : Type*} (M : Machine σ ε ο)

def Machine.stateFrom (s : σ) (es : List ε) : σ := es.foldl (fun t e => (M.answer t e).1) s

def Machine.stateAfter (es : List ε) : σ := M.stateFrom M.initial es

/-- Every request, with the state that it finds and its answer. -/
def Machine.Throughout (Q : σ → ε → ο → Prop) (es : List ε) : Prop :=
  ∀ pre e post, es = pre ++ e :: post →
    Q (M.stateAfter pre) e (M.answer (M.stateAfter pre) e).2

def Machine.selections (select : σ → ε → Option α) : σ → List ε → List α
  | _, [] => []
  | s, e :: es => (select s e).toList ++ Machine.selections select (M.answer s e).1 es

def Machine.lastSelection (select : σ → ε → Option α) (es : List ε) : Option α :=
  (M.selections select M.initial es).getLast?

variable {M}

@[simp] theorem stateFrom_cons (s : σ) (e : ε) (es : List ε) :
    M.stateFrom s (e :: es) = M.stateFrom (M.answer s e).1 es := rfl

theorem throughout_iff {Q : σ → ε → ο → Prop} {P : σ → ε → Prop}
    (h : ∀ s e, Q s e (M.answer s e).2 ↔ P s e) (es : List ε) :
    M.Throughout Q es ↔ ∀ pre e post, es = pre ++ e :: post → P (M.stateAfter pre) e := by
  simp only [Machine.Throughout, h]

theorem stateAfter_concat (es : List ε) (e : ε) :
    M.stateAfter (es ++ [e]) = (M.answer (M.stateAfter es) e).1 := by
  simp [Machine.stateAfter, Machine.stateFrom]

theorem stateAfter_append (es : List ε) (e : ε) (fs : List ε) :
    M.stateAfter (es ++ e :: fs) = M.stateFrom (M.answer (M.stateAfter es) e).1 fs := by
  simp [Machine.stateAfter, Machine.stateFrom]

/-- What one request keeps, a run of such requests keeps. -/
theorem stateFrom_keeps {J : σ → Prop} {P : ε → Prop}
    (hstep : ∀ s e, J s → P e → J (M.answer s e).1) {s : σ} (hs : J s) (es : List ε)
    (hes : ∀ e ∈ es, P e) : J (M.stateFrom s es) := by
  induction es generalizing s with
  | nil => exact hs
  | cons e es ih =>
    rw [stateFrom_cons]
    apply ih (hstep s e hs (hes e (List.mem_cons_self ..)))
    exact fun d hd => hes d (List.mem_cons_of_mem e hd)

/-- The condition may be matched under an invariant that lasts as long as the property does. -/
theorem throughout_iff_of_invariant {J : σ → Prop} {Q : σ → ε → ο → Prop} {P : σ → ε → Prop}
    (hinit : J M.initial)
    (hkeep : ∀ s e, J s → Q s e (M.answer s e).2 → J (M.answer s e).1)
    (h : ∀ s e, J s → (Q s e (M.answer s e).2 ↔ P s e)) (es : List ε) :
    M.Throughout Q es ↔ ∀ pre e post, es = pre ++ e :: post → P (M.stateAfter pre) e := by
  constructor
  · intro hall pre e post hes
    have hJ : ∀ pre post, es = pre ++ post → J (M.stateAfter pre) := by
      intro pre
      induction pre using List.reverseRecOn with
      | nil => exact fun _ _ => hinit
      | append_singleton pre d ih =>
        intro post hes
        rw [List.append_assoc] at hes
        rw [stateAfter_concat]
        exact hkeep _ _ (ih _ hes) (hall pre d post hes)
    exact (h _ _ (hJ pre (e :: post) hes)).mp (hall pre e post hes)
  · intro hall pre e post hes
    have hJ : ∀ pre post, es = pre ++ post → J (M.stateAfter pre) := by
      intro pre
      induction pre using List.reverseRecOn with
      | nil => exact fun _ _ => hinit
      | append_singleton pre d ih =>
        intro post hes
        rw [List.append_assoc] at hes
        rw [stateAfter_concat]
        have hd := ih _ hes
        exact hkeep _ _ hd ((h _ _ hd).mpr (hall pre d post hes))
    exact (h _ _ (hJ pre (e :: post) hes)).mpr (hall pre e post hes)

/-- A field that a step either sets to its selection or keeps holds the last one. -/
theorem field_eq_last {f : σ → Option α} {select : σ → ε → Option α}
    (hstep : ∀ s e, f (M.answer s e).1 = (select s e).or (f s)) (s : σ) (es : List ε) :
    f (M.stateFrom s es) = (M.selections select s es).getLast?.or (f s) := by
  induction es generalizing s with
  | nil => rfl
  | cons e es ih =>
    rw [stateFrom_cons, ih, hstep, Machine.selections, List.getLast?_append]
    cases select s e <;> simp

theorem field_stateAfter {f : σ → Option α} {select : σ → ε → Option α}
    (hstep : ∀ s e, f (M.answer s e).1 = (select s e).or (f s))
    (hinit : f M.initial = none) (es : List ε) :
    f (M.stateAfter es) = M.lastSelection select es := by
  rw [Machine.stateAfter, field_eq_last hstep, hinit, Option.or_none, Machine.lastSelection]

end RequestMachine
