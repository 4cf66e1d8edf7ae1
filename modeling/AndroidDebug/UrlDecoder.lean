import AndroidDebug.JavaText

/-! `URLDecoder.decode` with UTF-8. -/
namespace UrlDecoder

open JavaText

def percent : UInt16 := 0x25
def plus : UInt16 := 0x2B
def space : UInt16 := 0x20

def hexValue (u : UInt16) : Option ℕ :=
  if 0x30 ≤ u.toNat ∧ u.toNat < 0x3A then some (u.toNat - 0x30)
  else if 0x41 ≤ u.toNat ∧ u.toNat < 0x47 then some (u.toNat - 0x37)
  else if 0x61 ≤ u.toNat ∧ u.toNat < 0x67 then some (u.toNat - 0x57)
  else none

variable (malformed : List UInt8 → JString)

/-- The escapes that follow one another are collected as bytes and read together. -/
def decodeFrom : List UInt8 → JString → Option JString
  | bytes, [] => some (newString malformed bytes)
  | bytes, u :: rest =>
    if u = percent then
      match rest with
      | high :: low :: rest => do
        let h ← hexValue high
        let l ← hexValue low
        decodeFrom (bytes ++ [UInt8.ofNat (16 * h + l)]) rest
      | _ => none
    else do
      let text ← decodeFrom [] rest
      return newString malformed bytes ++ (if u = plus then space else u) :: text

/-- `none` is an IllegalArgumentException. -/
def decode (s : JString) : Option JString := decodeFrom malformed [] s

theorem decode_nil : decode malformed [] = some [] := rfl

theorem decode_cons {u : UInt16} (hu : u ≠ percent) (s : JString) :
    decode malformed (u :: s) =
      (decode malformed s).map ((if u = plus then space else u) :: ·) := by
  rw [decode, decodeFrom.eq_def]
  simp only [if_neg hu]
  show (decode malformed s).bind _ = _
  cases decode malformed s <;> rfl

theorem decode_append {s : JString} (hs : percent ∉ s) (t : JString) :
    decode malformed (s ++ t) =
      (decode malformed t).map ((s.map fun u => if u = plus then space else u) ++ ·) := by
  induction s with
  | nil => simp
  | cons u s ih =>
    rw [List.mem_cons, not_or] at hs
    rw [List.cons_append, decode_cons malformed (Ne.symm hs.1), ih hs.2, Option.map_map]
    rfl

/-- A text without escapes and plus signs is read as it is. -/
theorem decode_eq_self {s : JString} (hpercent : percent ∉ s) (hplus : plus ∉ s) :
    decode malformed s = some s := by
  have hsame : (s.map fun u => if u = plus then space else u) = s := by
    conv_rhs => rw [← List.map_id s]
    apply List.map_congr_left
    intro u hu
    apply if_neg
    rintro rfl
    exact hplus hu
  have h := decode_append malformed hpercent []
  rw [List.append_nil, decode_nil, Option.map_some, hsame, List.append_nil] at h
  exact h

end UrlDecoder
