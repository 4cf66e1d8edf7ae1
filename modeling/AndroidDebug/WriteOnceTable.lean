import Mathlib.Data.List.Basic
import Mathlib.Logic.Function.Basic

/-! A table that keeps what it was first asked for. An ask stores the encoding of the wanted
value under its key when nothing is there and replies with what is there; a set comes from
outside. The replies are right exactly when the asks of one key agree between two sets. -/
namespace WriteOnceTable

variable {κ β ε : Type*}

structure Coding (κ β ε : Type*) where
  enc : κ → β → ε
  dec : κ → ε → Option β
  dec_enc : ∀ k v, dec k (enc k v) = some v

inductive Event (κ β ε : Type*) where
  | set (k : κ) (x : Option ε)
  | ask (k : κ) (v : β)

abbrev Table (κ ε : Type*) := κ → Option ε

def reply (c : Coding κ β ε) (t : Table κ ε) (k : κ) (v : β) : ε := (t k).getD (c.enc k v)

/-- The key is left alone from outside. -/
def Untouched (k : κ) (h : List (Event κ β ε)) : Prop := ∀ x, .set k x ∉ h

theorem untouched_nil (k : κ) : Untouched k ([] : List (Event κ β ε)) :=
  fun _ h => List.not_mem_nil h

theorem Untouched.cons {k : κ} {h : List (Event κ β ε)} (hu : Untouched k h) {e : Event κ β ε}
    (he : ∀ x, e ≠ .set k x) : Untouched k (e :: h) := by
  intro x hm
  rcases List.mem_cons.mp hm with hx | hx
  · exact he x hx.symm
  · exact hu x hx

/-- What a key is asked for stays the same until it is set, and fits what it was set to. -/
structure Steady (c : Coding κ β ε) (h : List (Event κ β ε)) : Prop where
  same : ∀ xs k v ys w zs, h = xs ++ .ask k v :: (ys ++ .ask k w :: zs) → Untouched k ys → v = w
  fits : ∀ xs k b ys v zs, h = xs ++ .set k (some b) :: (ys ++ .ask k v :: zs) →
    Untouched k ys → c.dec k b = some v

/-- What is in the table decodes to what it will be asked for before it is set. -/
def Agrees (c : Coding κ β ε) (t : Table κ ε) (h : List (Event κ β ε)) : Prop :=
  ∀ k b, t k = some b → ∀ ys v zs, h = ys ++ .ask k v :: zs → Untouched k ys →
    c.dec k b = some v

variable {c : Coding κ β ε} {t : Table κ ε} {h : List (Event κ β ε)} {e : Event κ β ε}

theorem Steady.tail (hs : Steady c (e :: h)) : Steady c h where
  same xs k v ys w zs he := hs.same (e :: xs) k v ys w zs (by rw [he]; rfl)
  fits xs k b ys v zs he := hs.fits (e :: xs) k b ys v zs (by rw [he]; rfl)

theorem reply_decodes (ha : Agrees c t (.ask k v :: h)) : c.dec k (reply c t k v) = some v := by
  cases hb : t k with
  | none => simp [reply, hb, c.dec_enc]
  | some b => simpa [reply, hb] using ha k b hb [] v h rfl (untouched_nil k)

/-- Nothing is there yet under the keys that will be asked. -/
theorem agrees_of_empty (hempty : ∀ k v, .ask k v ∈ h → t k = none) : Agrees c t h := by
  intro k b hb ys v zs he _
  have hnone := hempty k v (by simp [he])
  rw [hnone] at hb
  cases hb

variable [DecidableEq κ]

def step (c : Coding κ β ε) (t : Table κ ε) : Event κ β ε → Table κ ε
  | .set k x => Function.update t k x
  | .ask k v => Function.update t k (some (reply c t k v))

def Faithful (c : Coding κ β ε) (t : Table κ ε) : List (Event κ β ε) → Prop
  | [] => True
  | .set k x :: h => Faithful c (step c t (.set k x)) h
  | .ask k v :: h => c.dec k (reply c t k v) = some v ∧ Faithful c (step c t (.ask k v)) h

theorem Agrees.set (ha : Agrees c t (.set k x :: h)) (hs : Steady c (.set k x :: h)) :
    Agrees c (step c t (.set k x)) h := by
  intro j b hb ys v zs he hu
  by_cases hj : j = k
  · subst hj
    have hx : x = some b := by simpa [step] using hb
    exact hs.fits [] j b ys v zs (by rw [he, hx]; rfl) hu
  · have hbj : t j = some b := by simpa [step, hj] using hb
    refine ha j b hbj (.set k x :: ys) v zs (by rw [he]; rfl) (hu.cons ?_)
    intro y hy
    exact hj (Event.set.inj hy).1.symm

theorem Agrees.ask (ha : Agrees c t (.ask k v :: h)) (hs : Steady c (.ask k v :: h)) :
    Agrees c (step c t (.ask k v)) h := by
  intro j b hb ys w zs he hu
  by_cases hj : j = k
  · subst hj
    have hx : reply c t j v = b := by simpa [step] using hb
    rw [← hx, reply_decodes ha, hs.same [] j v ys w zs (by rw [he]; rfl) hu]
  · have hbj : t j = some b := by simpa [step, hj] using hb
    exact ha j b hbj (.ask k v :: ys) w zs (by rw [he]; rfl) (hu.cons (by simp))

theorem Steady.faithful (hs : Steady c h) (ha : Agrees c t h) : Faithful c t h := by
  induction h generalizing t with
  | nil => trivial
  | cons e h ih =>
    cases e with
    | set k x => exact ih hs.tail (ha.set hs)
    | ask k v => exact ⟨reply_decodes ha, ih hs.tail (ha.ask hs)⟩

def run (c : Coding κ β ε) (t : Table κ ε) (h : List (Event κ β ε)) : Table κ ε :=
  h.foldl (step c) t

theorem faithful_append {xs ys : List (Event κ β ε)} :
    Faithful c t (xs ++ ys) ↔ Faithful c t xs ∧ Faithful c (run c t xs) ys := by
  induction xs generalizing t with
  | nil => simp [Faithful, run]
  | cons e xs ih =>
    cases e with
    | set k x => exact ih
    | ask k v =>
      simp only [List.cons_append, Faithful, ih, and_assoc]
      rfl

/-- An entry stays until its key is set. -/
theorem run_keeps {k : κ} {b : ε} (hb : t k = some b) (hu : Untouched k h) :
    run c t h k = some b := by
  induction h generalizing t with
  | nil => exact hb
  | cons e h ih =>
    have hrest : Untouched k h := fun x hx => hu x (List.mem_cons_of_mem e hx)
    cases e with
    | set j x =>
      have hj : k ≠ j := fun hkj => hu x (hkj ▸ List.mem_cons_self ..)
      exact ih (by simpa [step, hj] using hb) hrest
    | ask j v =>
      by_cases hj : k = j
      · subst hj
        exact ih (by simp [step, reply, hb]) hrest
      · exact ih (by simpa [step, hj] using hb) hrest

/-- A faithful reply decodes what the entry has been since. -/
theorem Faithful.later {ys zs : List (Event κ β ε)} {k : κ} {b : ε} {w : β}
    (hf : Faithful c t (ys ++ .ask k w :: zs)) (hb : t k = some b) (hu : Untouched k ys) :
    c.dec k b = some w := by
  have hw := (faithful_append.mp hf).2.1
  simpa [reply, run_keeps hb hu] using hw

theorem Faithful.steady (hf : Faithful c t h) : Steady c h where
  same xs k v ys w zs he hu := by
    rw [he] at hf
    obtain ⟨hv, hrest⟩ := (faithful_append.mp hf).2
    have hw := hrest.later (Function.update_self ..) hu
    exact Option.some.inj (hv.symm.trans hw)
  fits xs k b ys v zs he hu := by
    rw [he] at hf
    exact Faithful.later (faithful_append.mp hf).2 (Function.update_self ..) hu

theorem faithful_iff_steady (hempty : ∀ k v, .ask k v ∈ h → t k = none) :
    Faithful c t h ↔ Steady c h :=
  ⟨Faithful.steady, fun hs => hs.faithful (agrees_of_empty hempty)⟩

end WriteOnceTable
