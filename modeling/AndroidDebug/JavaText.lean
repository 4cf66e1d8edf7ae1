import Mathlib.Data.List.Basic
import Mathlib.Algebra.Ring.Int.Defs
import Mathlib.Tactic.Common

/-! Java strings as sequences of UTF-16 code units, their UTF-8 encoding, and the
decimal parsers of java.lang. Only the replacement text chosen for malformed UTF-8 is
left open, since it differs between runtimes. -/
namespace JavaText

abbrev JString := List UInt16

def slash : UInt16 := 0x2F

def IsScalar (c : ℕ) : Prop := c < 0xD800 ∨ (0xE000 ≤ c ∧ c < 0x110000)

instance (c : ℕ) : Decidable (IsScalar c) := inferInstanceAs (Decidable (_ ∨ (_ ∧ _)))

def IsHighSurrogate (u : UInt16) : Prop := 0xD800 ≤ u.toNat ∧ u.toNat < 0xDC00
def IsLowSurrogate (u : UInt16) : Prop := 0xDC00 ≤ u.toNat ∧ u.toNat < 0xE000

instance (u : UInt16) : Decidable (IsHighSurrogate u) := inferInstanceAs (Decidable (_ ∧ _))
instance (u : UInt16) : Decidable (IsLowSurrogate u) := inferInstanceAs (Decidable (_ ∧ _))

/-- A lone surrogate is encoded as a question mark. -/
def scalarOfUnit (u : UInt16) : ℕ :=
  if IsHighSurrogate u ∨ IsLowSurrogate u then 63 else u.toNat

def scalars : JString → List ℕ
  | [] => []
  | [u] => [scalarOfUnit u]
  | u :: v :: rest =>
    if IsHighSurrogate u ∧ IsLowSurrogate v then
      (0x10000 + (u.toNat - 0xD800) * 0x400 + (v.toNat - 0xDC00)) :: scalars rest
    else scalarOfUnit u :: scalars (v :: rest)

def unitsOfScalar (c : ℕ) : JString :=
  if c < 0x10000 then [UInt16.ofNat c]
  else [UInt16.ofNat (0xD800 + (c - 0x10000) / 0x400),
        UInt16.ofNat (0xDC00 + (c - 0x10000) % 0x400)]

def units (cs : List ℕ) : JString := cs.flatMap unitsOfScalar

def ofString (s : String) : JString := units (s.toList.map Char.toNat)

/-- Every surrogate of the string is paired: encoding it replaces nothing. -/
def WellFormed (s : JString) : Prop := units (scalars s) = s

instance (s : JString) : Decidable (WellFormed s) := inferInstanceAs (Decidable (_ = _))

def encodeScalar (c : ℕ) : List UInt8 :=
  if c < 0x80 then [UInt8.ofNat c]
  else if c < 0x800 then [UInt8.ofNat (0xC0 + c / 64), UInt8.ofNat (0x80 + c % 64)]
  else if c < 0x10000 then
    [UInt8.ofNat (0xE0 + c / 4096), UInt8.ofNat (0x80 + c / 64 % 64), UInt8.ofNat (0x80 + c % 64)]
  else
    [UInt8.ofNat (0xF0 + c / 262144), UInt8.ofNat (0x80 + c / 4096 % 64),
      UInt8.ofNat (0x80 + c / 64 % 64), UInt8.ofNat (0x80 + c % 64)]

def encode (cs : List ℕ) : List UInt8 := cs.flatMap encodeScalar

/-- `String.getBytes()` with the UTF-8 default charset. -/
def getBytes (s : JString) : List UInt8 := encode (scalars s)

def continuation : List UInt8 → Option (ℕ × List UInt8)
  | [] => none
  | b :: rest => if 0x80 ≤ b.toNat ∧ b.toNat < 0xC0 then some (b.toNat - 0x80, rest) else none

/-- One scalar value from the front of a byte string; overlong forms, surrogates and
values above U+10FFFF are refused. -/
def decodeScalar : List UInt8 → Option (ℕ × List UInt8)
  | [] => none
  | a :: rest =>
    if a.toNat < 0x80 then some (a.toNat, rest)
    else if a.toNat < 0xC0 then none
    else if a.toNat < 0xE0 then do
      let (x, rest) ← continuation rest
      let c := (a.toNat - 0xC0) * 64 + x
      if 0x80 ≤ c then some (c, rest) else none
    else if a.toNat < 0xF0 then do
      let (x, rest) ← continuation rest
      let (y, rest) ← continuation rest
      let c := (a.toNat - 0xE0) * 4096 + x * 64 + y
      if 0x800 ≤ c ∧ IsScalar c then some (c, rest) else none
    else if a.toNat < 0xF8 then do
      let (x, rest) ← continuation rest
      let (y, rest) ← continuation rest
      let (z, rest) ← continuation rest
      let c := (a.toNat - 0xF0) * 262144 + x * 4096 + y * 64 + z
      if 0x10000 ≤ c ∧ IsScalar c then some (c, rest) else none
    else none

def decodeAll : ℕ → List UInt8 → Option (List ℕ)
  | _, [] => some []
  | 0, _ :: _ => none
  | n + 1, b :: bs => do
    let (c, rest) ← decodeScalar (b :: bs)
    let cs ← decodeAll n rest
    some (c :: cs)

def decode (bs : List UInt8) : Option (List ℕ) := decodeAll bs.length bs

/-- `new String(bytes)`: the strict decoding, or whatever text the runtime puts for
malformed input. -/
def newString (malformed : List UInt8 → JString) (bs : List UInt8) : JString :=
  match decode bs with
  | some cs => units cs
  | none => malformed bs

theorem scalarOfUnit_isScalar (u : UInt16) : IsScalar (scalarOfUnit u) := by
  have hu := u.toNat_lt
  unfold scalarOfUnit IsScalar IsHighSurrogate IsLowSurrogate
  split <;> omega

theorem scalars_isScalar (s : JString) : ∀ c ∈ scalars s, IsScalar c := by
  induction s using scalars.induct with
  | case1 => simp [scalars]
  | case2 u => simpa [scalars] using scalarOfUnit_isScalar u
  | case3 u v rest h ih =>
    have hpair : IsScalar (0x10000 + (u.toNat - 0xD800) * 0x400 + (v.toNat - 0xDC00)) := by
      unfold IsHighSurrogate IsLowSurrogate at h
      unfold IsScalar
      omega
    simpa [scalars, h] using ⟨hpair, ih⟩
  | case4 u v rest h ih =>
    rw [scalars, if_neg h]
    intro c hc
    rcases List.mem_cons.mp hc with rfl | hc
    · exact scalarOfUnit_isScalar u
    · exact ih c hc

theorem continuation_ofNat {x : ℕ} (hx : x < 64) (rest : List UInt8) :
    continuation (UInt8.ofNat (0x80 + x) :: rest) = some (x, rest) := by
  have hb : (UInt8.ofNat (0x80 + x)).toNat = 0x80 + x := by
    rw [UInt8.toNat_ofNat']; omega
  simp only [continuation, hb]
  rw [if_pos (by omega), Nat.add_sub_cancel_left]

theorem bind_continuation {β : Type} {x : ℕ} (hx : x < 64) (rest : List UInt8)
    (f : ℕ × List UInt8 → Option β) :
    (continuation (UInt8.ofNat (0x80 + x) :: rest) >>= f) = f (x, rest) := by
  rw [continuation_ofNat hx]
  rfl

theorem decodeScalar_two {a : UInt8} {x : ℕ} (rest : List UInt8) (hlo : 0xC2 ≤ a.toNat)
    (hhi : a.toNat < 0xE0) (hx : x < 64) :
    decodeScalar (a :: UInt8.ofNat (0x80 + x) :: rest) =
      some ((a.toNat - 0xC0) * 64 + x, rest) := by
  rw [decodeScalar, if_neg (by omega), if_neg (by omega), if_pos hhi, bind_continuation hx]
  exact if_pos (by omega)

theorem decodeScalar_three {a : UInt8} {x y : ℕ} (rest : List UInt8) (hlo : 0xE0 ≤ a.toNat)
    (hhi : a.toNat < 0xF0) (hx : x < 64) (hy : y < 64)
    (hc : 0x800 ≤ (a.toNat - 0xE0) * 4096 + x * 64 + y ∧
      IsScalar ((a.toNat - 0xE0) * 4096 + x * 64 + y)) :
    decodeScalar (a :: UInt8.ofNat (0x80 + x) :: UInt8.ofNat (0x80 + y) :: rest) =
      some ((a.toNat - 0xE0) * 4096 + x * 64 + y, rest) := by
  rw [decodeScalar, if_neg (by omega), if_neg (by omega), if_neg (by omega), if_pos hhi,
    bind_continuation hx]
  dsimp only
  rw [bind_continuation hy]
  dsimp only
  rw [if_pos hc]

theorem decodeScalar_four {a : UInt8} {x y z : ℕ} (rest : List UInt8) (hlo : 0xF0 ≤ a.toNat)
    (hhi : a.toNat < 0xF8) (hx : x < 64) (hy : y < 64) (hz : z < 64)
    (hc : 0x10000 ≤ (a.toNat - 0xF0) * 262144 + x * 4096 + y * 64 + z ∧
      IsScalar ((a.toNat - 0xF0) * 262144 + x * 4096 + y * 64 + z)) :
    decodeScalar (a :: UInt8.ofNat (0x80 + x) :: UInt8.ofNat (0x80 + y) ::
        UInt8.ofNat (0x80 + z) :: rest) =
      some ((a.toNat - 0xF0) * 262144 + x * 4096 + y * 64 + z, rest) := by
  rw [decodeScalar, if_neg (by omega), if_neg (by omega), if_neg (by omega), if_neg (by omega),
    if_pos hhi, bind_continuation hx]
  dsimp only
  rw [bind_continuation hy]
  dsimp only
  rw [bind_continuation hz]
  dsimp only
  rw [if_pos hc]

theorem decodeScalar_encodeScalar {c : ℕ} (hc : IsScalar c) (rest : List UInt8) :
    decodeScalar (encodeScalar c ++ rest) = some (c, rest) := by
  have hlt : c < 0x110000 := by
    unfold IsScalar at hc
    omega
  have hmod : ∀ k : ℕ, k % 64 < 64 := fun k => Nat.mod_lt k (by decide)
  unfold encodeScalar
  split_ifs with h1 h2 h3
  · have ha : (UInt8.ofNat c).toNat = c := by rw [UInt8.toNat_ofNat']; omega
    simp [decodeScalar, ha, h1]
  · have ha : (UInt8.ofNat (0xC0 + c / 64)).toNat = 0xC0 + c / 64 := by
      rw [UInt8.toNat_ofNat']; omega
    have hv : (0xC0 + c / 64 - 0xC0) * 64 + c % 64 = c := by omega
    have h := decodeScalar_two (a := UInt8.ofNat (0xC0 + c / 64)) rest (by omega) (by omega)
      (hmod c)
    rw [ha, hv] at h
    exact h
  · have ha : (UInt8.ofNat (0xE0 + c / 4096)).toNat = 0xE0 + c / 4096 := by
      rw [UInt8.toNat_ofNat']; omega
    have hv : (0xE0 + c / 4096 - 0xE0) * 4096 + c / 64 % 64 * 64 + c % 64 = c := by omega
    have h := decodeScalar_three (a := UInt8.ofNat (0xE0 + c / 4096)) rest (by omega) (by omega)
      (hmod (c / 64)) (hmod c) (by rw [ha, hv]; exact ⟨by omega, hc⟩)
    rw [ha, hv] at h
    exact h
  · have ha : (UInt8.ofNat (0xF0 + c / 262144)).toNat = 0xF0 + c / 262144 := by
      rw [UInt8.toNat_ofNat']; omega
    have hv : (0xF0 + c / 262144 - 0xF0) * 262144 + c / 4096 % 64 * 4096 +
        c / 64 % 64 * 64 + c % 64 = c := by omega
    have h := decodeScalar_four (a := UInt8.ofNat (0xF0 + c / 262144)) rest (by omega) (by omega)
      (hmod (c / 4096)) (hmod (c / 64)) (hmod c) (by rw [ha, hv]; exact ⟨by omega, hc⟩)
    rw [ha, hv] at h
    exact h

theorem encodeScalar_length_pos (c : ℕ) : 0 < (encodeScalar c).length := by
  unfold encodeScalar
  split_ifs <;> simp

theorem length_le_encode (cs : List ℕ) : cs.length ≤ (encode cs).length := by
  induction cs with
  | nil => simp
  | cons c cs ih =>
    have hp := encodeScalar_length_pos c
    simp only [encode, List.flatMap_cons, List.length_append, List.length_cons] at ih ⊢
    omega

theorem decodeAll_encode {cs : List ℕ} (h : ∀ c ∈ cs, IsScalar c) :
    ∀ n, cs.length ≤ n → decodeAll n (encode cs) = some cs := by
  induction cs with
  | nil => intro n _; cases n <;> rfl
  | cons c cs ih =>
    intro n hn
    obtain ⟨b, bs, hb⟩ := List.exists_cons_of_length_pos (encodeScalar_length_pos c)
    obtain ⟨m, rfl⟩ : ∃ m, n = m + 1 := ⟨n - 1, by simp at hn; omega⟩
    have hc := decodeScalar_encodeScalar (h c (by simp)) (encode cs)
    have hrest := ih (fun d hd => h d (List.mem_cons_of_mem c hd)) m (by simpa using hn)
    rw [hb, List.cons_append] at hc
    simp only [encode, List.flatMap_cons, hb, List.cons_append] at hc hrest ⊢
    simp only [decodeAll, hc, hrest, Option.bind_eq_bind, Option.bind_some]

theorem decode_encode {cs : List ℕ} (h : ∀ c ∈ cs, IsScalar c) :
    decode (encode cs) = some cs :=
  decodeAll_encode h _ (length_le_encode cs)

theorem newString_getBytes (malformed : List UInt8 → JString) {s : JString}
    (h : WellFormed s) : newString malformed (getBytes s) = s := by
  unfold newString getBytes
  rw [decode_encode (scalars_isScalar s)]
  exact h

@[simp] theorem getBytes_nil : getBytes [] = [] := rfl

@[simp] theorem newString_nil (malformed : List UInt8 → JString) :
    newString malformed [] = [] := rfl

/-- The letters outside ASCII that have a case partner in it are folded too. -/
def foldCase (u : UInt16) : UInt16 :=
  if 0x41 ≤ u.toNat ∧ u.toNat ≤ 0x5A then u + 0x20
  else if u = 0x130 ∨ u = 0x131 then 0x69
  else if u = 0x212A then 0x6B
  else if u = 0x17F then 0x73
  else u

/-- `String.equalsIgnoreCase` of an ASCII text. -/
def equalsIgnoreCase (ascii s : JString) : Bool := ascii.map foldCase = s.map foldCase

/-- The zero of each block of decimal digits in the basic multilingual plane. -/
def zeroDigits : List ℕ :=
  [0x30, 0x660, 0x6F0, 0x7C0, 0x966, 0x9E6, 0xA66, 0xAE6, 0xB66, 0xBE6, 0xC66, 0xCE6, 0xD66,
    0xDE6, 0xE50, 0xED0, 0xF20, 0x1040, 0x1090, 0x17E0, 0x1810, 0x1946, 0x19D0, 0x1A80, 0x1A90,
    0x1B50, 0x1BB0, 0x1C40, 0x1C50, 0xA620, 0xA8D0, 0xA900, 0xA9D0, 0xA9F0, 0xAA50, 0xABF0,
    0xFF10]

/-- `Character.digit(u, 10)`. -/
def digit (u : ℕ) : Option ℕ :=
  (zeroDigits.find? fun z => decide (z ≤ u ∧ u < z + 10)).map fun z => u - z

def digitsValue : ℕ → List ℕ → Option ℕ
  | acc, [] => some acc
  | acc, u :: us => do
    let d ← digit u
    digitsValue (acc * 10 + d) us

def parseNatural (us : List ℕ) : Option ℕ :=
  if us = [] then none else digitsValue 0 us

def inRange (lo hi n : ℤ) : Option ℤ := if lo ≤ n ∧ n ≤ hi then some n else none

/-- Signed decimal parsing with a range; `none` is NumberFormatException. -/
def parseSigned (lo hi : ℤ) : List ℕ → Option ℤ
  | 0x2D :: us => do
    let n ← parseNatural us
    inRange lo hi (-(n : ℤ))
  | 0x2B :: us => do
    let n ← parseNatural us
    inRange lo hi n
  | us => do
    let n ← parseNatural us
    inRange lo hi n

def parseInt (us : List ℕ) : Option ℤ := parseSigned (-2 ^ 31) (2 ^ 31 - 1) us
def parseLong (us : List ℕ) : Option ℤ := parseSigned (-2 ^ 63) (2 ^ 63 - 1) us

/-- `String.split` at a single separator: trailing empty pieces are dropped, but a
string without the separator is returned whole. -/
def splitPieces (sep : UInt16) (s : JString) : List JString :=
  if sep ∈ s then ((s.splitOn sep).reverse.dropWhile List.isEmpty).reverse else [s]

/-- The code units of a text of ASCII characters, as numbers. -/
def unitValues (s : String) : List ℕ := (ofString s).map UInt16.toNat

/-- `Long.toString` -/
def longToString (n : Int64) : String :=
  let digits := Nat.toDigits 10 n.toInt.natAbs
  String.ofList (if n.toInt < 0 then '-' :: digits else digits)

/-- `Long.valueOf`; `none` is NumberFormatException. -/
def longValueOf (s : String) : Option Int64 := (parseLong (unitValues s)).map Int64.ofInt

section Scalars

/-- The text of a string as characters; a lone surrogate is read as a question mark. -/
def toText (s : JString) : String := String.ofList ((scalars s).map Char.ofNat)

theorem scalars_cons {u : UInt16} (hu : ¬IsHighSurrogate u) (rest : JString) :
    scalars (u :: rest) = scalarOfUnit u :: scalars rest := by
  cases rest with
  | nil => rfl
  | cons v rest => rw [scalars, if_neg fun h => hu h.1]

theorem scalars_unitsOfScalar {c : ℕ} (hc : IsScalar c) (rest : JString) :
    scalars (unitsOfScalar c ++ rest) = c :: scalars rest := by
  unfold IsScalar at hc
  unfold unitsOfScalar
  split_ifs with hlow
  · have hu : (UInt16.ofNat c).toNat = c := by
      rw [UInt16.toNat_ofNat', Nat.mod_eq_of_lt (by omega)]
    have hhigh : ¬IsHighSurrogate (UInt16.ofNat c) := by
      unfold IsHighSurrogate
      omega
    have hlone : ¬(IsHighSurrogate (UInt16.ofNat c) ∨ IsLowSurrogate (UInt16.ofNat c)) := by
      unfold IsHighSurrogate IsLowSurrogate
      omega
    rw [List.singleton_append, scalars_cons hhigh, scalarOfUnit, if_neg hlone, hu]
  · have hhigh : (UInt16.ofNat (0xD800 + (c - 0x10000) / 0x400)).toNat =
        0xD800 + (c - 0x10000) / 0x400 := by
      rw [UInt16.toNat_ofNat', Nat.mod_eq_of_lt (by omega)]
    have hlow : (UInt16.ofNat (0xDC00 + (c - 0x10000) % 0x400)).toNat =
        0xDC00 + (c - 0x10000) % 0x400 := by
      rw [UInt16.toNat_ofNat', Nat.mod_eq_of_lt (by omega)]
    have hpair : IsHighSurrogate (UInt16.ofNat (0xD800 + (c - 0x10000) / 0x400)) ∧
        IsLowSurrogate (UInt16.ofNat (0xDC00 + (c - 0x10000) % 0x400)) := by
      unfold IsHighSurrogate IsLowSurrogate
      omega
    have hsum : 0x10000 + (0xD800 + (c - 0x10000) / 0x400 - 0xD800) * 0x400 +
        (0xDC00 + (c - 0x10000) % 0x400 - 0xDC00) = c := by omega
    rw [List.cons_append, List.singleton_append, scalars, if_pos hpair, hhigh, hlow, hsum]

theorem scalars_units {cs : List ℕ} (h : ∀ c ∈ cs, IsScalar c) : scalars (units cs) = cs := by
  induction cs with
  | nil => rfl
  | cons c cs ih =>
    have hc := scalars_unitsOfScalar (h c (List.mem_cons_self ..)) (units cs)
    rw [ih fun d hd => h d (List.mem_cons_of_mem c hd)] at hc
    simpa [units] using hc

theorem isScalar_char (c : Char) : IsScalar c.toNat := by
  rcases c.valid with h | h
  · exact Or.inl h
  · exact Or.inr ⟨Nat.succ_le_of_lt h.1, h.2⟩

theorem toText_ofString (s : String) : toText (ofString s) = s := by
  rw [toText, ofString, scalars_units, List.map_map]
  · have hid : Char.ofNat ∘ Char.toNat = id := by
      funext c
      exact Char.ofNat_toNat c
    rw [hid, List.map_id, String.ofList_toList]
  · intro c hc
    obtain ⟨d, -, rfl⟩ := List.mem_map.mp hc
    exact isScalar_char d

theorem ofString_append (s t : String) : ofString (s ++ t) = ofString s ++ ofString t := by
  simp [ofString, units]

end Scalars

section Decimal

theorem unitValues_ofList {l : List Char} (h : ∀ c ∈ l, c.toNat < 128) :
    unitValues (String.ofList l) = l.map Char.toNat := by
  rw [unitValues, ofString, String.toList_ofList]
  induction l with
  | nil => rfl
  | cons c l ih =>
    have hc := h c (List.mem_cons_self ..)
    have hrest := ih fun d hd => h d (List.mem_cons_of_mem c hd)
    have hunit : unitsOfScalar c.toNat = [UInt16.ofNat c.toNat] := by
      rw [unitsOfScalar, if_pos (by omega)]
    have hvalue : (UInt16.ofNat c.toNat).toNat = c.toNat := by
      rw [UInt16.toNat_ofNat', Nat.mod_eq_of_lt]
      omega
    simp only [units, List.map_cons, List.flatMap_cons, hunit, hvalue, List.singleton_append,
      List.cons.injEq, true_and] at hrest ⊢
    exact hrest

theorem digit_digitChar : ∀ d < 10, digit (Nat.digitChar d).toNat = some d := by decide

theorem digitChar_lt : ∀ d < 10, (Nat.digitChar d).toNat < 128 := by decide

theorem digitsValue_append (acc : ℕ) (us : List ℕ) (u : ℕ) :
    digitsValue acc (us ++ [u]) =
      (digitsValue acc us).bind fun v => (digit u).map fun d => v * 10 + d := by
  induction us generalizing acc with
  | nil =>
    cases h : digit u <;> simp [digitsValue, h]
  | cons w us ih =>
    cases h : digit w <;> simp [digitsValue, h, ih]

/-- The decimal digits of a number read back as the number. -/
theorem digitsValue_toDigits (n : ℕ) :
    digitsValue 0 ((Nat.toDigits 10 n).map Char.toNat) = some n := by
  induction n using Nat.strong_induction_on with
  | _ n ih =>
    by_cases hn : n < 10
    · rw [Nat.toDigits_of_lt_base hn]
      simp [digitsValue, digit_digitChar n hn]
    · have hlast : n % 10 < 10 := Nat.mod_lt n (by omega)
      rw [Nat.toDigits_of_base_le (by omega) (by omega), List.map_append, List.map_singleton,
        digitsValue_append, ih (n / 10) (by omega), digit_digitChar _ hlast]
      simp only [Option.bind_some, Option.map_some, Option.some.injEq]
      omega

theorem toDigits_lt (n : ℕ) : ∀ c ∈ Nat.toDigits 10 n, c.toNat < 128 := by
  induction n using Nat.strong_induction_on with
  | _ n ih =>
    intro c hc
    by_cases hn : n < 10
    · rw [Nat.toDigits_of_lt_base hn, List.mem_singleton] at hc
      rw [hc]
      exact digitChar_lt n hn
    · rw [Nat.toDigits_of_base_le (by omega) (by omega), List.mem_append,
        List.mem_singleton] at hc
      rcases hc with hc | rfl
      · exact ih (n / 10) (by omega) c hc
      · exact digitChar_lt _ (Nat.mod_lt n (by omega))

theorem parseNatural_toDigits (n : ℕ) :
    parseNatural ((Nat.toDigits 10 n).map Char.toNat) = some n := by
  rw [parseNatural, if_neg (by simp [Nat.toDigits_ne_nil]), digitsValue_toDigits]

theorem natToString_injective {n m : ℕ} (h : toString n = toString m) : n = m := by
  have hdigits : Nat.toDigits 10 n = Nat.toDigits 10 m := String.ofList_injective h
  have hn := digitsValue_toDigits n
  rw [hdigits, digitsValue_toDigits m] at hn
  exact (Option.some.inj hn).symm

/-- Neither sign is a digit. -/
theorem parseSigned_toDigits (lo hi : ℤ) (n : ℕ) :
    parseSigned lo hi ((Nat.toDigits 10 n).map Char.toNat) = inRange lo hi n := by
  have hread := digitsValue_toDigits n
  have hsome := parseNatural_toDigits n
  unfold parseSigned
  split
  · rename_i us heq
    rw [heq] at hread
    simp [digitsValue, digit, zeroDigits] at hread
  · rename_i us heq
    rw [heq] at hread
    simp [digitsValue, digit, zeroDigits] at hread
  · simp [hsome]

/-- The text of a long is read back as its value, where the range allows it. -/
theorem parseSigned_longToString (lo hi : ℤ) (n : Int64) :
    parseSigned lo hi (unitValues (longToString n)) = inRange lo hi n.toInt := by
  have hdigits := toDigits_lt n.toInt.natAbs
  by_cases hneg : n.toInt < 0
  · have hchars : ∀ c ∈ '-' :: Nat.toDigits 10 n.toInt.natAbs, c.toNat < 128 := by
      intro c hc
      rcases List.mem_cons.mp hc with rfl | hc
      · decide
      · exact hdigits c hc
    have habs : -(n.toInt.natAbs : ℤ) = n.toInt := by omega
    simp only [longToString, hneg, if_true]
    rw [unitValues_ofList hchars]
    show (parseNatural _).bind _ = _
    rw [parseNatural_toDigits]
    show inRange _ _ (-(n.toInt.natAbs : ℤ)) = _
    rw [habs]
  · have habs : (n.toInt.natAbs : ℤ) = n.toInt := by omega
    simp only [longToString, hneg, if_false]
    rw [unitValues_ofList hdigits, parseSigned_toDigits, habs]

theorem inRange_long (n : Int64) : inRange (-2 ^ 63) (2 ^ 63 - 1) n.toInt = some n.toInt := by
  have hlo := n.le_toInt
  have hhi := n.toInt_lt
  rw [inRange, if_pos ⟨hlo, by omega⟩]

theorem longValueOf_longToString (n : Int64) : longValueOf (longToString n) = some n := by
  rw [longValueOf, parseLong, parseSigned_longToString, inRange_long]
  simp

theorem longToString_injective {n m : Int64} (h : longToString n = longToString m) : n = m := by
  have hn := longValueOf_longToString n
  rw [h, longValueOf_longToString m] at hn
  exact (Option.some.inj hn).symm

end Decimal

end JavaText
