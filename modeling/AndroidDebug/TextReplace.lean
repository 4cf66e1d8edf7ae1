import Mathlib.Data.List.Basic
import Mathlib.Tactic.Common

/-! Replacing a pattern everywhere in a sequence, from left to right. A sequence cut into pieces,
some of them marked, shows when the matches are the marked pieces. -/
namespace TextReplace

section

variable {α : Type*} [DecidableEq α]

/-- `k` elements of the last match are still to be passed over. -/
def replaceFrom (t r : List α) : ℕ → List α → List α
  | _, [] => []
  | k + 1, _ :: s => replaceFrom t r k s
  | 0, u :: s =>
    if t <+: u :: s then r ++ replaceFrom t r (t.length - 1) s else u :: replaceFrom t r 0 s

def replace (t r s : List α) : List α := replaceFrom t r 0 s

/-- No occurrence of the pattern in `a ++ b` begins inside `a`. -/
def NoneStarts (t a b : List α) : Prop :=
  ∀ before after, a ++ b = before ++ t ++ after → a.length ≤ before.length

variable {t r : List α}

theorem replaceFrom_eq_drop (k : ℕ) (s : List α) :
    replaceFrom t r k s = replace t r (s.drop k) := by
  induction s generalizing k with
  | nil => cases k <;> simp [replaceFrom, replace]
  | cons u s ih =>
    cases k with
    | zero => rfl
    | succ k => rw [replaceFrom, ih, List.drop_succ_cons]

@[simp] theorem replace_nil : replace t r [] = [] := rfl

theorem replace_match (ht : t ≠ []) (s : List α) :
    replace t r (t ++ s) = r ++ replace t r s := by
  obtain ⟨u, t', rfl⟩ := List.exists_cons_of_ne_nil ht
  rw [replace, List.cons_append, replaceFrom, if_pos (by simp), replaceFrom_eq_drop]
  simp

theorem replace_other {u : α} {s : List α} (h : ¬t <+: u :: s) :
    replace t r (u :: s) = u :: replace t r s := if_neg h

omit [DecidableEq α] in
theorem NoneStarts.tail {u : α} {a b : List α} (h : NoneStarts t (u :: a) b) :
    NoneStarts t a b := by
  intro before after heq
  have := h (u :: before) after (by simp [heq])
  simpa using this

theorem replace_append {a b : List α} (h : NoneStarts t a b) :
    replace t r (a ++ b) = a ++ replace t r b := by
  induction a with
  | nil => rfl
  | cons u a ih =>
    have hother : ¬t <+: u :: (a ++ b) := by
      rintro ⟨after, hafter⟩
      have := h [] after (by simpa using hafter.symm)
      simp at this
    rw [List.cons_append, replace_other hother, ih h.tail, List.cons_append]

/-- The first match that begins inside `a`. -/
theorem replace_first (ht : t ≠ []) {a b : List α} (h : ¬NoneStarts t a b) :
    ∃ front u back rest, a = front ++ u :: back ∧ t.head? = some u ∧
      replace t r (a ++ b) = front ++ r ++ rest := by
  induction a with
  | nil => exact absurd (fun _ _ _ => Nat.zero_le _) h
  | cons u a ih =>
    by_cases hmatch : t <+: u :: (a ++ b)
    · refine ⟨[], u, a, replaceFrom t r (t.length - 1) (a ++ b), rfl, ?_, ?_⟩
      · obtain ⟨v, t', rfl⟩ := List.exists_cons_of_ne_nil ht
        rw [List.cons_prefix_cons] at hmatch
        rw [hmatch.1, List.head?_cons]
      · exact if_pos hmatch
    · have hrest : ¬NoneStarts t a b := by
        intro hnone
        apply h
        intro before after heq
        cases before with
        | nil => exact absurd ⟨after, by simpa using heq.symm⟩ hmatch
        | cons v before =>
          have hcut : a ++ b = before ++ t ++ after := by simpa using (List.cons.inj heq).2
          simpa using hnone before after hcut
      obtain ⟨front, v, back, rest, rfl, hhead, heq⟩ := ih hrest
      refine ⟨u :: front, v, back, rest, rfl, hhead, ?_⟩
      rw [List.cons_append, replace_other hmatch, heq]
      rfl

/-- A longer replacement shows in the length. -/
theorem length_replace (ht : t ≠ []) (hr : t.length < r.length) (s : List α) :
    s.length ≤ (replace t r s).length ∧
      (t <:+: s → s.length < (replace t r s).length) := by
  induction hn : s.length using Nat.strongRecOn generalizing s with
  | ind n ih =>
    cases s with
    | nil => simp_all
    | cons u s =>
      by_cases hmatch : t <+: u :: s
      · obtain ⟨rest, hrest⟩ := hmatch
        have hpos := List.length_pos_of_ne_nil ht
        rw [← hrest, List.length_append] at hn
        have hle := (ih rest.length (by omega) rest rfl).1
        rw [← hrest, replace_match ht, List.length_append]
        exact ⟨by omega, fun _ => by omega⟩
      · rw [List.length_cons] at hn
        obtain ⟨hle, hlt⟩ := ih s.length (by omega) s rfl
        rw [replace_other hmatch, List.length_cons]
        refine ⟨by omega, fun hinfix => ?_⟩
        rcases List.infix_cons_iff.mp hinfix with hprefix | hinfix
        · exact absurd hprefix hmatch
        · have := hlt hinfix
          omega

end

/-! Pieces. -/

section

variable {α : Type*}

structure Piece (α : Type*) where
  text : List α
  marked : Bool
  deriving DecidableEq, Repr

def source (ps : List (Piece α)) : List α := ps.flatMap Piece.text

def render (r : List α) (ps : List (Piece α)) : List α :=
  ps.flatMap fun p => if p.marked then r else p.text

/-- The pattern occurs only as a marked piece. -/
def OnlyMarked (t : List α) (ps : List (Piece α)) : Prop :=
  ∀ before after, source ps = before ++ t ++ after →
    ∃ ps₁ p ps₂, ps = ps₁ ++ p :: ps₂ ∧ p.marked ∧ source ps₁ = before

variable {t r : List α} {p : Piece α} {ps : List (Piece α)}

theorem source_cons : source (p :: ps) = p.text ++ source ps := rfl

theorem render_cons : render r (p :: ps) = (if p.marked then r else p.text) ++ render r ps := rfl

/-- What begins after `a` begins in `b`. -/
theorem cut_after {a b before after : List α} (h : a ++ b = before ++ t ++ after)
    (hle : a.length ≤ before.length) : ∃ cut, before = a ++ cut ∧ b = cut ++ t ++ after := by
  have hbefore : before <+: a ++ b := by
    rw [h, List.append_assoc]
    exact List.prefix_append before _
  obtain ⟨cut, rfl⟩ := List.prefix_of_prefix_length_le (List.prefix_append a b) hbefore hle
  have hrest : a ++ b = a ++ (cut ++ t ++ after) := by simpa using h
  exact ⟨cut, rfl, List.append_cancel_left hrest⟩

/-- What begins inside `t` and is `t` again: the two share `x`, and the second goes on with `y`. -/
theorem overlap {s before after : List α} (h : t ++ s = before ++ t ++ after)
    (hlt : before.length < t.length) : ∃ x y, t = before ++ x ∧ t = x ++ y ∧ s = y ++ after := by
  obtain ⟨x, rfl, hx⟩ : ∃ x, t = before ++ x ∧ t ++ after = x ++ s := by
    have hbefore : before <+: t ++ s := by
      rw [h, List.append_assoc]
      exact List.prefix_append before _
    obtain ⟨x, rfl⟩ :=
      List.prefix_of_prefix_length_le hbefore (List.prefix_append t s) (Nat.le_of_lt hlt)
    have hrest : before ++ (x ++ s) = before ++ (before ++ x ++ after) := by simpa using h
    exact ⟨x, rfl, (List.append_cancel_left hrest).symm⟩
  have hshort : x <+: before ++ x ++ after := hx ▸ List.prefix_append x s
  have hle : x.length ≤ (before ++ x).length := by simp
  obtain ⟨y, hy⟩ := List.prefix_of_prefix_length_le hshort (List.prefix_append _ after) hle
  rw [← hy, List.append_assoc] at hx
  exact ⟨x, y, rfl, hy.symm, (List.append_cancel_left hx).symm⟩

theorem noneStarts_of_onlyMarked (h : OnlyMarked t (p :: ps)) (hp : ¬p.marked) :
    NoneStarts t p.text (source ps) := by
  intro before after heq
  obtain ⟨ps₁, q, ps₂, hps, hq, rfl⟩ := h before after heq
  cases ps₁ with
  | nil =>
    obtain ⟨rfl, -⟩ := List.cons.inj hps
    exact absurd hq hp
  | cons p' ps₁ =>
    obtain ⟨rfl, -⟩ := List.cons.inj hps
    simp [source_cons]

theorem OnlyMarked.tail (ht : t ≠ []) (hm : p.marked → p.text = t)
    (h : OnlyMarked t (p :: ps)) : OnlyMarked t ps := by
  intro before after heq
  obtain ⟨ps₁, q, ps₂, hps, hq, hsource⟩ :=
    h (p.text ++ before) after (by rw [source_cons, heq]; simp)
  cases ps₁ with
  | nil =>
    obtain ⟨rfl, -⟩ := List.cons.inj hps
    have hnil : p.text ++ before = [] := hsource.symm
    rw [hm hq] at hnil
    exact absurd (List.append_eq_nil_iff.mp hnil).1 ht
  | cons p' ps₁ =>
    obtain ⟨rfl, rfl⟩ := List.cons.inj hps
    exact ⟨ps₁, q, ps₂, rfl, hq, by simpa [source_cons] using hsource⟩

/-- No marked piece runs over into a second occurrence of the pattern. -/
def Apart (t : List α) (ps : List (Piece α)) : Prop :=
  ∀ ps₁ p ps₂, ps = ps₁ ++ p :: ps₂ → p.marked →
    ∀ before after, t ++ source ps₂ = before ++ t ++ after →
      before = [] ∨ t.length ≤ before.length

theorem Apart.tail (h : Apart t (p :: ps)) : Apart t ps :=
  fun ps₁ q ps₂ heq hq => h (p :: ps₁) q ps₂ (by rw [heq, List.cons_append]) hq

variable [DecidableEq α]

theorem replace_of_onlyMarked (ht : t ≠ []) (hm : ∀ p ∈ ps, p.marked → p.text = t)
    (h : OnlyMarked t ps) : replace t r (source ps) = render r ps := by
  induction ps with
  | nil => rfl
  | cons p ps ih =>
    have hp := hm p List.mem_cons_self
    have hrest := ih (fun q hq => hm q (List.mem_cons_of_mem p hq)) (h.tail ht hp)
    rw [source_cons, render_cons]
    by_cases hmarked : p.marked = true
    · rw [hp hmarked, replace_match ht, hrest, if_pos hmarked]
    · rw [replace_append (noneStarts_of_onlyMarked h hmarked), hrest, if_neg hmarked]

theorem onlyMarked_of_replace (ht : t ≠ []) (hm : ∀ p ∈ ps, p.marked → p.text = t)
    (hapart : Apart t ps) (hr : r ≠ []) (hhead : t.head? ≠ r.head?)
    (h : replace t r (source ps) = render r ps) : OnlyMarked t ps := by
  induction ps with
  | nil =>
    intro before after heq
    have hnil : before ++ t ++ after = [] := heq.symm
    simp [ht] at hnil
  | cons p ps ih =>
    have hp := hm p List.mem_cons_self
    have hih := ih (fun q hq => hm q (List.mem_cons_of_mem p hq)) hapart.tail
    have hlater : OnlyMarked t ps → ∀ before after, source ps = before ++ t ++ after →
        ∃ ps₁ q ps₂, p :: ps = ps₁ ++ q :: ps₂ ∧ q.marked ∧
          source ps₁ = p.text ++ before := by
      intro honly before after heq
      obtain ⟨ps₁, q, ps₂, rfl, hq, rfl⟩ := honly before after heq
      exact ⟨p :: ps₁, q, ps₂, rfl, hq, rfl⟩
    rw [source_cons, render_cons] at h
    intro before after heq
    rw [source_cons] at heq
    by_cases hmarked : p.marked = true
    · rw [hp hmarked, replace_match ht, if_pos hmarked] at h
      have honly := hih (List.append_cancel_left h)
      rw [hp hmarked] at heq hlater
      rcases hapart [] p ps rfl hmarked before after heq with rfl | hle
      · exact ⟨[], p, ps, rfl, hmarked, rfl⟩
      · obtain ⟨cut, rfl, hcut⟩ := cut_after heq hle
        exact hlater honly cut after hcut
    · rw [if_neg hmarked] at h
      have hnone : NoneStarts t p.text (source ps) := by
        by_contra hstarts
        obtain ⟨front, u, back, rest, htext, hu, hfirst⟩ := replace_first (r := r) ht hstarts
        obtain ⟨v, r', rfl⟩ := List.exists_cons_of_ne_nil hr
        rw [hfirst, htext] at h
        obtain ⟨hsame, -⟩ : v = u ∧ _ := by simpa using h
        rw [hu, hsame] at hhead
        exact hhead rfl
      rw [replace_append hnone] at h
      obtain ⟨cut, rfl, hcut⟩ := cut_after heq (hnone before after heq)
      exact hlater (hih (List.append_cancel_left h)) cut after hcut

/-- Replacing the pattern replaces the marked pieces exactly when it occurs nowhere else. -/
theorem replace_eq_render_iff (ht : t ≠ []) (hm : ∀ p ∈ ps, p.marked → p.text = t)
    (hapart : Apart t ps) (hr : t.length < r.length)
    (hhead : ∀ p ∈ ps, p.marked → t.head? ≠ r.head?) :
    replace t r (source ps) = render r ps ↔ OnlyMarked t ps := by
  refine ⟨fun h => ?_, replace_of_onlyMarked ht hm⟩
  by_cases hmarked : ∃ p ∈ ps, p.marked = true
  · obtain ⟨p, hp, hmarked⟩ := hmarked
    have hne : r ≠ [] := List.ne_nil_of_length_pos (by omega)
    exact onlyMarked_of_replace ht hm hapart hne (hhead p hp hmarked) h
  · have hsame : render r ps = source ps := by
      apply List.flatMap_congr
      intro p hp
      rw [if_neg fun h => hmarked ⟨p, hp, h⟩]
    intro before after heq
    have hlt := (length_replace ht hr (source ps)).2 ⟨before, after, heq.symm⟩
    rw [h, hsame] at hlt
    exact absurd hlt (Nat.lt_irrefl _)

end

end TextReplace
