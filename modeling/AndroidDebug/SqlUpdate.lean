import Mathlib.Data.List.Basic
import Mathlib.Tactic.Common

/-! UPDATE statements over a table of rows: what a WHERE text of equality terms with bound
arguments reads as, and when an update changes one row to a given one and no other. -/
namespace SqlUpdate

section WhereText

/-- The column names of `a=? and b=? `, where a name ends at its equals sign. -/
def scan : List Char → List Char → List (List Char)
  | name, '=' :: '?' :: ' ' :: 'a' :: 'n' :: 'd' :: ' ' :: rest => name.reverse :: scan [] rest
  | name, ['=', '?', ' '] => [name.reverse]
  | name, c :: rest => scan (c :: name) rest
  | name, [] => [name.reverse]

def terms (clause : List Char) : List (List Char) := scan [] clause

def term (name : List Char) : List Char := name ++ ['=', '?', ' ']

def conjunction : List (List Char) → List Char
  | [] => []
  | [n] => term n
  | n :: m :: ns => term n ++ ['a', 'n', 'd', ' '] ++ conjunction (m :: ns)

theorem conjunction_append {ns : List (List Char)} (h : ns ≠ []) (n : List Char) :
    conjunction (ns ++ [n]) = conjunction ns ++ ['a', 'n', 'd', ' '] ++ term n := by
  induction ns with
  | nil => exact absurd rfl h
  | cons m ns ih =>
    cases ns with
    | nil => rfl
    | cons k ns =>
      have hne : k :: ns ≠ [] := List.cons_ne_nil k ns
      simp only [List.cons_append, conjunction] at ih ⊢
      rw [ih hne]
      simp only [List.append_assoc]

theorem scan_name {name : List Char} (h : '=' ∉ name) (acc rest : List Char) :
    scan acc (name ++ rest) = scan (name.reverse ++ acc) rest := by
  induction name generalizing acc with
  | nil => rfl
  | cons c name ih =>
    have hc : c ≠ '=' := fun hc => h (hc ▸ List.mem_cons_self ..)
    have hname : '=' ∉ name := fun hm => h (List.mem_cons_of_mem c hm)
    rw [List.cons_append, scan, ih hname]
    · simp
    · intro r hr
      exact absurd hr hc
    · intro hr
      exact absurd hr hc

/-- The clause that a conjunction of terms is written as reads back as its columns. -/
theorem terms_conjunction {ns : List (List Char)} (hne : ns ≠ []) (h : ∀ n ∈ ns, '=' ∉ n) :
    terms (conjunction ns) = ns := by
  rw [terms]
  induction ns with
  | nil => exact absurd rfl hne
  | cons n ns ih =>
    have hn := h n (List.mem_cons_self ..)
    cases ns with
    | nil => simp [conjunction, term, scan_name hn, scan]
    | cons m ns =>
      have hrest := ih (List.cons_ne_nil m ns) fun k hk => h k (List.mem_cons_of_mem n hk)
      rw [conjunction, term, List.append_assoc, List.append_assoc, scan_name hn]
      simp [scan, hrest]

end WhereText

section Rows

variable {κ ν : Type*}

abbrev Row (κ ν : Type*) := κ → ν

def overwrite (assigned : κ → Option ν) (r : Row κ ν) : Row κ ν :=
  fun c => (assigned c).getD (r c)

def updateRow (picks : Row κ ν → Bool) (assigned : κ → Option ν) (r : Row κ ν) : Row κ ν :=
  if picks r then overwrite assigned r else r

def update (picks : Row κ ν → Bool) (assigned : κ → Option ν) (rows : List (Row κ ν)) :
    List (Row κ ν) := rows.map (updateRow picks assigned)

def delete (picks : Row κ ν → Bool) (rows : List (Row κ ν)) : List (Row κ ν) :=
  rows.filter fun r => ¬picks r

/-- A filter takes out one entry exactly when it refuses that one and lets every other pass. -/
theorem filter_split_iff {α : Type*} {q : α → Bool} {front back : List α} {a : α} :
    (front ++ a :: back).filter q = front ++ back ↔
      q a = false ∧ ∀ x ∈ front ++ back, q x = true := by
  constructor
  · intro h
    have hothers : ∀ x ∈ front ++ back, q x = true := by
      intro x hx
      rw [← h] at hx
      exact (List.mem_filter.mp hx).2
    refine ⟨?_, hothers⟩
    by_contra hq
    -- otherwise everything passes, and nothing is taken out
    have hall : (front ++ a :: back).filter q = front ++ a :: back := by
      rw [List.filter_eq_self]
      intro x hx
      rcases List.mem_append.mp hx with hx | hx
      · exact hothers x (List.mem_append_left _ hx)
      · rcases List.mem_cons.mp hx with rfl | hx
        · simpa using hq
        · exact hothers x (List.mem_append_right _ hx)
    have hlength := congrArg List.length (hall.symm.trans h)
    simp at hlength
  · rintro ⟨hq, hothers⟩
    rw [← List.filter_eq_self.mpr hothers, List.filter_append, List.filter_append,
      List.filter_cons_of_neg (by simp [hq])]

theorem filter_eq_eraseIdx_iff {α : Type*} {q : α → Bool} {l : List α} {i : ℕ} {a : α}
    (hi : l[i]? = some a) :
    l.filter q = l.eraseIdx i ↔ q a = false ∧ ∀ j x, j ≠ i → l[j]? = some x → q x = true := by
  obtain ⟨hlt, rfl⟩ := List.getElem?_eq_some_iff.mp hi
  have hsplit : l = l.take i ++ l[i] :: l.drop (i + 1) := by
    rw [← List.drop_eq_getElem_cons hlt, List.take_append_drop]
  have hothers : (∀ x ∈ l.eraseIdx i, q x = true) ↔
      ∀ j x, j ≠ i → l[j]? = some x → q x = true := by
    simp only [List.mem_eraseIdx_iff_getElem?]
    constructor
    · intro h j x hj hx
      exact h x ⟨j, hj, hx⟩
    · rintro h x ⟨j, hj, hx⟩
      exact h j x hj hx
  rw [← hothers, List.eraseIdx_eq_take_drop_succ, ← filter_split_iff, ← hsplit]

/-- A deletion takes out row `i` and no other exactly when it picks that one and no other. -/
theorem delete_eq_eraseIdx_iff {picks : Row κ ν → Bool} {rows : List (Row κ ν)} {i : ℕ}
    {r : Row κ ν} (hi : rows[i]? = some r) :
    delete picks rows = rows.eraseIdx i ↔
      picks r = true ∧ ∀ j ρ, j ≠ i → rows[j]? = some ρ → picks ρ = false := by
  rw [delete, filter_eq_eraseIdx_iff hi]
  simp

end Rows

end SqlUpdate
