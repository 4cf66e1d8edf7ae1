import AndroidDebug.UrlDecoder

/-! Percent-encoding of a text, and what `URLDecoder` makes of it. -/
namespace PercentEncoding

open JavaText UrlDecoder

def hexDigit (n : ℕ) : UInt16 := UInt16.ofNat (if n < 10 then 0x30 + n else 0x37 + n)

def escapeByte (b : UInt8) : JString :=
  [percent, hexDigit (b.toNat / 16), hexDigit (b.toNat % 16)]

def escapeBytes (bs : List UInt8) : JString := bs.flatMap escapeByte

def isAlphanumeric (c : ℕ) : Bool :=
  decide (0x30 ≤ c ∧ c ≤ 0x39 ∨ 0x41 ≤ c ∧ c ≤ 0x5A ∨ 0x61 ≤ c ∧ c ≤ 0x7A)

/-- A character is kept or replaced by the escapes of its UTF-8 bytes. -/
def encodeWith (kept : ℕ → Bool) (cs : List ℕ) : JString :=
  cs.flatMap fun c => if kept c then [UInt16.ofNat c] else escapeBytes (encodeScalar c)

/-- The text that a character is read back as: a plus sign that is kept becomes a space. -/
def readBack (kept : ℕ → Bool) (c : ℕ) : JString :=
  if kept c && c == plus.toNat then [space] else unitsOfScalar c

theorem hexValue_hexDigit : ∀ n < 16, hexValue (hexDigit n) = some n := by decide

variable (malformed : List UInt8 → JString)

theorem decodeFrom_escapeByte (bytes : List UInt8) (b : UInt8) (rest : JString) :
    decodeFrom malformed bytes (escapeByte b ++ rest) =
      decodeFrom malformed (bytes ++ [b]) rest := by
  have hb := b.toNat_lt
  have hvalue : UInt8.ofNat (16 * (b.toNat / 16) + b.toNat % 16) = b := by
    rw [Nat.div_add_mod, UInt8.ofNat_toNat]
  simp only [escapeByte, List.cons_append, List.nil_append]
  rw [decodeFrom, if_pos rfl, hexValue_hexDigit _ (by omega), hexValue_hexDigit _ (by omega)]
  simp only [Option.bind_eq_bind, Option.bind_some, hvalue]

theorem decodeFrom_escapeBytes (bytes bs : List UInt8) (rest : JString) :
    decodeFrom malformed bytes (escapeBytes bs ++ rest) =
      decodeFrom malformed (bytes ++ bs) rest := by
  induction bs generalizing bytes with
  | nil => simp [escapeBytes]
  | cons b bs ih =>
    rw [escapeBytes, List.flatMap_cons, List.append_assoc, decodeFrom_escapeByte,
      ← escapeBytes, ih, List.append_assoc, List.singleton_append]

theorem decodeFrom_kept (bytes : List UInt8) {u : UInt16} (hu : u ≠ percent) (rest : JString) :
    decodeFrom malformed bytes (u :: rest) = (decodeFrom malformed [] rest).map fun text =>
      newString malformed bytes ++ (if u = plus then space else u) :: text := by
  rw [decodeFrom.eq_def]
  simp only [if_neg hu]
  cases decodeFrom malformed [] rest <;> rfl

theorem newString_encode {cs : List ℕ} (h : ∀ c ∈ cs, IsScalar c) :
    newString malformed (encode cs) = units cs := by
  rw [newString, decode_encode h]

theorem toNat_ofNat {c : ℕ} (h : c < 0x80) : (UInt16.ofNat c).toNat = c := by
  rw [UInt16.toNat_ofNat', Nat.mod_eq_of_lt (by omega)]

theorem readBack_kept {kept : ℕ → Bool} {c : ℕ} (hk : kept c = true) (hlt : c < 0x80) :
    readBack kept c = [if UInt16.ofNat c = plus then space else UInt16.ofNat c] := by
  have hplus : UInt16.ofNat c = plus ↔ c = plus.toNat := by
    rw [← UInt16.toNat_inj, toNat_ofNat hlt]
  simp only [readBack, hk, Bool.true_and, beq_iff_eq, hplus]
  split
  · rfl
  · rw [unitsOfScalar, if_pos (by omega)]

/-- Kept characters are ASCII and no percent signs; all others come back from their bytes. -/
theorem decodeFrom_encodeWith {kept : ℕ → Bool} {cs done : List ℕ}
    (hkept : ∀ c ∈ cs, kept c → c < 0x80 ∧ c ≠ percent.toNat) (hcs : ∀ c ∈ cs, IsScalar c)
    (hdone : ∀ c ∈ done, IsScalar c) :
    decodeFrom malformed (encode done) (encodeWith kept cs) =
      some (units done ++ cs.flatMap (readBack kept)) := by
  induction cs generalizing done with
  | nil => simp [encodeWith, decodeFrom, newString_encode malformed hdone]
  | cons c cs ih =>
    have hc := hcs c List.mem_cons_self
    have hrest : ∀ d ∈ cs, IsScalar d := fun d hd => hcs d (List.mem_cons_of_mem c hd)
    have hkrest : ∀ d ∈ cs, kept d → d < 0x80 ∧ d ≠ percent.toNat :=
      fun d hd => hkept d (List.mem_cons_of_mem c hd)
    rw [encodeWith, List.flatMap_cons, ← encodeWith, List.flatMap_cons]
    by_cases hk : kept c = true
    · obtain ⟨hlt, hne⟩ := hkept c List.mem_cons_self hk
      have hunit : UInt16.ofNat c ≠ percent := by
        intro heq
        apply hne
        rw [← heq, toNat_ofNat hlt]
      have hnext := @ih [] hkrest hrest (by simp)
      rw [if_pos hk, List.singleton_append, decodeFrom_kept _ _ hunit]
      rw [show decodeFrom malformed [] (encodeWith kept cs) = _ from hnext]
      simp [newString_encode malformed hdone, readBack_kept hk hlt, units]
    · have hmore : ∀ d ∈ done ++ [c], IsScalar d := by
        intro d hd
        rcases List.mem_append.mp hd with hd | hd
        · exact hdone d hd
        · exact List.mem_singleton.mp hd ▸ hc
      have hbytes : encode done ++ encodeScalar c = encode (done ++ [c]) := by
        simp [encode]
      rw [if_neg hk, decodeFrom_escapeBytes, hbytes, ih hkrest hrest hmore]
      simp [units, readBack, hk]

end PercentEncoding
