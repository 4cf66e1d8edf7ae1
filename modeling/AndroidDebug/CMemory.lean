import AndroidDebug.CheckedFold
import Mathlib.Data.List.Infix
import Mathlib.Data.List.TakeWhile

/-! Byte buffers of fixed size as C code uses them: checked loads and stores, strings that
end at their first zero byte, and the string functions over them. -/
namespace CMemory

open CheckedFold

abbrev Buffer := List UInt8

inductive Fault where
  | outOfBounds | noReturn
  deriving DecidableEq, Repr

/-- The bytes of a string literal, without the terminating zero. -/
def literal (s : String) : List UInt8 := s.toList.map fun c => UInt8.ofNat c.toNat

def zeros (n : ℕ) : Buffer := List.replicate n 0

def load (b : Buffer) (i : ℤ) : Except Fault UInt8 :=
  if i < 0 then .error .outOfBounds
  else match b[i.toNat]? with
    | some c => .ok c
    | none => .error .outOfBounds

def memcpy (dst : Buffer) (off : ℤ) (src : List UInt8) : Except Fault Buffer :=
  if off < 0 ∨ dst.length < off.toNat + src.length then .error .outOfBounds
  else .ok (dst.take off.toNat ++ src ++ dst.drop (off.toNat + src.length))

def store (b : Buffer) (i : ℤ) (c : UInt8) : Except Fault Buffer := memcpy b i [c]

/-- The string that a buffer holds; one without a zero byte runs past the end. -/
def cstring (b : Buffer) : Except Fault (List UInt8) :=
  if 0 ∈ b then .ok (b.takeWhile (· ≠ 0)) else .error .outOfBounds

def strlen (b : Buffer) : Except Fault ℕ := (cstring b).map List.length

def strcpy (dst : Buffer) (s : List UInt8) : Except Fault Buffer := memcpy dst 0 (s ++ [0])

def strcat (dst : Buffer) (s : List UInt8) : Except Fault Buffer := do
  let t ← cstring dst
  memcpy dst t.length (s ++ [0])

/-- `strstr(b, needle) != NULL` -/
def strstr (b : Buffer) (needle : List UInt8) : Except Fault Bool :=
  (cstring b).map fun s => needle <:+: s

@[simp] theorem length_zeros (n : ℕ) : (zeros n).length = n := List.length_replicate

@[simp] theorem drop_zeros (k n : ℕ) : (zeros n).drop k = zeros (n - k) := List.drop_replicate

theorem zeros_succ (n : ℕ) : zeros (n + 1) = 0 :: zeros n := rfl

section Loads

variable {b : Buffer} {i : ℕ} {c d : UInt8} {t : List UInt8}

theorem load_of_drop (h : b.drop i = c :: t) : load b (i : ℤ) = .ok c := by
  have hc : b[i]? = some c := by
    rw [← List.head?_drop, h]
    rfl
  have hi : ¬ (i : ℤ) < 0 := by omega
  simp [load, hi, hc]

theorem load_lt (h : i < b.length) : load b (i : ℤ) = .ok b[i] :=
  load_of_drop (List.drop_eq_getElem_cons h)

theorem load_ge (h : b.length ≤ i) : load b (i : ℤ) = .error .outOfBounds := by
  have hi : ¬ (i : ℤ) < 0 := by omega
  simp [load, hi, List.getElem?_eq_none h]

theorem load_succ_of_drop (h : b.drop i = c :: d :: t) : load b ((i : ℤ) + 1) = .ok d := by
  have hd : b.drop (i + 1) = d :: t := by
    rw [← List.drop_drop, h]
    rfl
  exact_mod_cast load_of_drop hd

end Loads

section Copies

variable {b dst : Buffer} {s t : List UInt8} {c : UInt8} {off : ℕ}

theorem memcpy_fits (h : off + s.length ≤ dst.length) :
    memcpy dst (off : ℤ) s = .ok (dst.take off ++ s ++ dst.drop (off + s.length)) := by
  have hoff : ¬ ((off : ℤ) < 0 ∨ dst.length < off + s.length) := by omega
  simp only [memcpy, Int.toNat_natCast, hoff, if_false]

theorem memcpy_start (h : s.length ≤ dst.length) :
    memcpy dst 0 s = .ok (s ++ dst.drop s.length) := by
  have hfits : 0 + s.length ≤ dst.length := by omega
  simpa using memcpy_fits hfits

theorem store_fits (h : off < dst.length) : store dst (off : ℤ) c = .ok (dst.set off c) := by
  have hone : off + [c].length ≤ dst.length := h
  rw [store, memcpy_fits hone, List.set_eq_take_append_cons_drop, if_pos h]
  simp

/-- Storing a byte and copying the others behind it copies them all. -/
theorem memcpy_set (h : off + (c :: s).length ≤ dst.length) :
    memcpy (dst.set off c) ((off + 1 : ℕ) : ℤ) s = memcpy dst (off : ℤ) (c :: s) := by
  have hlt : off < dst.length := by
    simp only [List.length_cons] at h
    omega
  have hrest : off + 1 + s.length ≤ (dst.set off c).length := by
    simp only [List.length_set, List.length_cons] at h ⊢
    omega
  have htake : (dst.set off c).take (off + 1) = dst.take off ++ [c] := by
    rw [List.take_add_one, List.take_set_of_le (Nat.le_refl off), List.getElem?_set_self hlt]
    rfl
  have hdrop : (dst.set off c).drop (off + 1 + s.length) = dst.drop (off + (c :: s).length) := by
    rw [List.drop_set_of_lt (by omega), List.length_cons]
    congr 1
    omega
  rw [memcpy_fits hrest, memcpy_fits h, htake, hdrop]
  simp

theorem cstring_append : cstring (s ++ 0 :: t) = .ok (s.takeWhile (· ≠ 0)) := by
  have htake : (s ++ 0 :: t).takeWhile (fun c => decide (c ≠ 0)) =
      s.takeWhile (fun c => decide (c ≠ 0)) := by
    induction s with
    | nil => simp
    | cons c s ih =>
      by_cases hc : c = 0
      · simp [hc]
      · simpa [List.takeWhile_cons, hc] using ih
  simp only [cstring, List.mem_append, List.mem_cons, true_or, or_true, if_true, htake]

theorem takeWhile_eq_self (h : 0 ∉ s) : s.takeWhile (· ≠ 0) = s := by
  rw [List.takeWhile_eq_self_iff]
  intro c hc
  have hne : c ≠ 0 := fun h0 => h (h0 ▸ hc)
  simpa using hne

/-- The buffer `s` followed by a zero holds the string `s`. -/
theorem cstring_of_not_mem (h : 0 ∉ s) : cstring (s ++ 0 :: t) = .ok s := by
  rw [cstring_append, takeWhile_eq_self h]

theorem strlen_append : strlen (s ++ 0 :: t) = .ok (s.takeWhile (· ≠ 0)).length := by
  simp only [strlen, cstring_append, Except.map]

theorem strlen_of_not_mem (h : 0 ∉ s) : strlen (s ++ 0 :: t) = .ok s.length := by
  rw [strlen_append, takeWhile_eq_self h]

theorem strcat_append (hs : 0 ∉ s) (hfits : (s ++ t ++ [0]).length ≤ (s ++ 0 :: b).length) :
    strcat (s ++ 0 :: b) t = .ok (s ++ t ++ 0 :: b.drop t.length) := by
  have h : s.length + (t ++ [0]).length ≤ (s ++ 0 :: b).length := by
    simpa [Nat.add_assoc] using hfits
  have hdrop : (s ++ 0 :: b).drop (s.length + (t ++ [0]).length) = b.drop t.length := by
    simp [List.drop_append]
  rw [strcat, cstring_of_not_mem hs]
  show memcpy _ (s.length : ℤ) (t ++ [0]) = _
  rw [memcpy_fits h, hdrop]
  simp

theorem strstr_append {needle : List UInt8} (h : 0 ∉ s) :
    strstr (s ++ 0 :: t) needle = .ok (decide (needle <:+: s)) := by
  simp only [strstr, cstring_of_not_mem h, Except.map]

end Copies

end CMemory
