import AndroidDebug.CMemory

/-! Base64 with padding, three bytes to four letters. -/
namespace Base64

open CMemory

def alphabet : List UInt8 :=
  literal "ABCDEFGHIJKLMNOPQRSTUVWXYZabcdefghijklmnopqrstuvwxyz0123456789+/"

def pad : UInt8 := 61

def letter (v : ℕ) : UInt8 := alphabet.getD v pad

def encode : List UInt8 → List UInt8
  | [] => []
  | [a] => [letter (a.toNat / 4), letter (a.toNat % 4 * 16), pad, pad]
  | [a, b] =>
    [letter (a.toNat / 4), letter (a.toNat % 4 * 16 + b.toNat / 16),
      letter (b.toNat % 16 * 4), pad]
  | a :: b :: c :: t =>
    letter (a.toNat / 4) :: letter (a.toNat % 4 * 16 + b.toNat / 16) ::
      letter (b.toNat % 16 * 4 + c.toNat / 64) :: letter (c.toNat % 64) :: encode t

theorem letter_injective : ∀ u < 64, ∀ v < 64, letter u = letter v → u = v := by
  decide +kernel

theorem letter_ne_pad : ∀ u < 64, letter u ≠ pad := by
  decide +kernel

theorem letter_ne_zero : ∀ u < 64, letter u ≠ 0 := by
  decide +kernel

section Letters

variable {a b c : UInt8} {u v : ℕ}

theorem letter_eq_iff (hu : u < 64) (hv : v < 64) : letter u = letter v ↔ u = v :=
  ⟨letter_injective u hu v hv, fun h => h ▸ rfl⟩

theorem toNat_lt : a.toNat < 256 := a.toNat_lt_size

theorem first_lt : a.toNat / 4 < 64 := by
  have := toNat_lt (a := a)
  omega

theorem second_lt : a.toNat % 4 * 16 + b.toNat / 16 < 64 := by
  have := toNat_lt (a := b)
  omega

theorem second_alone_lt : a.toNat % 4 * 16 < 64 := by omega

theorem third_lt : b.toNat % 16 * 4 + c.toNat / 64 < 64 := by
  have := toNat_lt (a := c)
  omega

theorem third_alone_lt : b.toNat % 16 * 4 < 64 := by omega

theorem fourth_lt : c.toNat % 64 < 64 := by omega

end Letters

theorem length_encode (bs : List UInt8) : (encode bs).length = 4 * ((bs.length + 2) / 3) := by
  fun_induction encode bs with
  | case1 => rfl
  | case2 => simp
  | case3 => simp
  | case4 a b c t ih =>
    simp only [List.length_cons, ih]
    omega

theorem zero_not_mem_encode (bs : List UInt8) : 0 ∉ encode bs := by
  have hpad : (0 : UInt8) ≠ pad := by decide
  have hletter : ∀ u < 64, (0 : UInt8) ≠ letter u := fun u hu => (letter_ne_zero u hu).symm
  fun_induction encode bs with
  | case1 => simp
  | case2 a => simp [hletter _ first_lt, hletter _ second_alone_lt, hpad]
  | case3 a b =>
    simp [hletter _ first_lt, hletter _ second_lt, hletter _ third_alone_lt, hpad]
  | case4 a b c t ih =>
    simp [hletter _ first_lt, hletter _ second_lt, hletter _ third_lt, hletter _ fourth_lt, ih]

/-- The number of padding letters tells a last group of one or two bytes from a full one. -/
theorem encode_injective {xs ys : List UInt8} (h : encode xs = encode ys) : xs = ys := by
  fun_induction encode xs generalizing ys with
  | case1 =>
    match ys with
    | [] => rfl
    | [_] | [_, _] | _ :: _ :: _ :: _ => simp [encode] at h
  | case2 a =>
    match ys with
    | [] => simp [encode] at h
    | [a'] =>
      simp only [encode, List.cons.injEq, letter_eq_iff first_lt first_lt,
        letter_eq_iff second_alone_lt second_alone_lt] at h
      have ha : a = a' := UInt8.toNat_inj.mp (by omega)
      rw [ha]
    | [_, _] =>
      simp only [encode, List.cons.injEq] at h
      exact absurd h.2.2.1.symm (letter_ne_pad _ third_alone_lt)
    | _ :: _ :: _ :: _ =>
      simp only [encode, List.cons.injEq] at h
      exact absurd h.2.2.1.symm (letter_ne_pad _ third_lt)
  | case3 a b =>
    match ys with
    | [] => simp [encode] at h
    | [_] =>
      simp only [encode, List.cons.injEq] at h
      exact absurd h.2.2.1 (letter_ne_pad _ third_alone_lt)
    | [a', b'] =>
      simp only [encode, List.cons.injEq, letter_eq_iff first_lt first_lt,
        letter_eq_iff second_lt second_lt, letter_eq_iff third_alone_lt third_alone_lt] at h
      have hb := toNat_lt (a := b)
      have hb' := toNat_lt (a := b')
      have ha : a = a' := UInt8.toNat_inj.mp (by omega)
      have hbb : b = b' := UInt8.toNat_inj.mp (by omega)
      rw [ha, hbb]
    | _ :: _ :: _ :: _ =>
      simp only [encode, List.cons.injEq] at h
      exact absurd h.2.2.2.1.symm (letter_ne_pad _ fourth_lt)
  | case4 a b c t ih =>
    match ys with
    | [] => simp [encode] at h
    | [_] =>
      simp only [encode, List.cons.injEq] at h
      exact absurd h.2.2.1 (letter_ne_pad _ third_lt)
    | [_, _] =>
      simp only [encode, List.cons.injEq] at h
      exact absurd h.2.2.2.1 (letter_ne_pad _ fourth_lt)
    | a' :: b' :: c' :: t' =>
      simp only [encode, List.cons.injEq, letter_eq_iff first_lt first_lt,
        letter_eq_iff second_lt second_lt, letter_eq_iff third_lt third_lt,
        letter_eq_iff fourth_lt fourth_lt] at h
      have hb := toNat_lt (a := b)
      have hb' := toNat_lt (a := b')
      have hc := toNat_lt (a := c)
      have hc' := toNat_lt (a := c')
      have ha : a = a' := UInt8.toNat_inj.mp (by omega)
      have hbb : b = b' := UInt8.toNat_inj.mp (by omega)
      have hcc : c = c' := UInt8.toNat_inj.mp (by omega)
      rw [ha, hbb, hcc, ih h.2.2.2.2]

end Base64
