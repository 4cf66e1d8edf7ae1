import AndroidDebug.WebSocketFrames

/-! recv_frame_head for every header that a client can write, with its fields in C's own
arithmetic: a char is signed and is promoted to an int of 32 bits. -/
namespace FrameHeader

open WebSocketFrames LengthFraming

section Fields

def promote (c : UInt8) : BitVec 32 := c.toBitVec.signExtend 32

/-- `(one_char & 0x80) == 0x80` -/
def highBit (c : UInt8) : Bool := promote c &&& 0x80#32 = 0x80#32

def narrow (n : BitVec 32) : UInt8 := ⟨n.setWidth 8⟩

def widen (n : BitVec 32) : ℕ := (n.signExtend 64).toNat

def swapped (extern_len : List UInt8) : List UInt8 :=
  (List.range 4).foldl (fun b i =>
    (b.set i (b.getD (7 - i) 0)).set (7 - i) (b.getD i 0)) extern_len

def extendedLength (plan : ℕ → ℕ) (junk : ℕ → ℕ → UInt8) (length : ℕ) (s : Socket) :
    Option (ℕ × Socket) :=
  if length = 126 then do
    let (bytes, s) ← s.readSome plan 2
    let extern_len := filled (junk s.calls) 2 bytes
    return (widen ((promote (extern_len.getD 0 0) &&& 0xFF#32) <<< 8 |||
      (promote (extern_len.getD 1 0) &&& 0xFF#32)), s)
  else if length = 127 then do
    let (bytes, s) ← s.readSome plan 8
    return (littleEndian (swapped (filled (junk s.calls) 8 bytes)), s)
  else return (length, s)

/-- `none` is a return of -1. -/
def recv_frame_head (plan : ℕ → ℕ) (junk : ℕ → ℕ → UInt8) (s : Socket) :
    Option (FrameHead × Socket) := do
  let (first, s) ← s.readSome plan 1
  let (second, s) ← s.readSome plan 1
  let fin := highBit (first.headD 0)
  let opcode := narrow (promote (first.headD 0) &&& 0x0F#32)
  let mask := highBit (second.headD 0)
  let (payload_length, s) ←
    extendedLength plan junk (widen (promote (second.headD 0) &&& 0x7F#32)) s
  let (key, s) ← s.readSome plan 4
  return (⟨fin, opcode, mask, payload_length, filled (junk s.calls) 4 key⟩, s)

end Fields

/-- The three encodings of a payload length; the longer ones may hold any length. -/
inductive Length where
  | bits (n : Fin 126)
  | extended16 (n : UInt16)
  | extended64 (n : UInt64)
  deriving DecidableEq, Repr

def Length.value : Length → ℕ
  | .bits n => n
  | .extended16 n => n.toNat
  | .extended64 n => n.toNat

def Length.code : Length → ℕ
  | .bits n => n
  | .extended16 _ => 126
  | .extended64 _ => 127

def Length.extern_len : Length → List UInt8
  | .bits _ => []
  | .extended16 n => be 2 n.toNat
  | .extended64 n => be 8 n.toNat

/-- A masked header, whatever its reserved bits are. -/
structure Header where
  fin : Bool
  reserved : Fin 8
  opcode : Fin 16
  length : Length
  masking_key : List UInt8
  key_length : masking_key.length = 4

def Header.first (h : Header) : UInt8 :=
  (if h.fin then 0x80 else 0) ||| UInt8.ofNat (16 * h.reserved) ||| UInt8.ofNat h.opcode

def Header.fields (h : Header) : List UInt8 :=
  h.first :: (0x80 ||| UInt8.ofNat h.length.code) :: h.length.extern_len

def Header.wire (h : Header) : List UInt8 := h.fields ++ h.masking_key

def Header.head (h : Header) : FrameHead :=
  ⟨h.fin, UInt8.ofNat h.opcode, true, h.length.value, h.masking_key⟩

/-- No read of the header gets less than it asks for while there is more. -/
def Full (plan : ℕ → ℕ) : Prop := ∀ k, 8 ≤ plan k

/-- The header is read as it was written and the stream is left at the payload, or its end is
noticed. -/
structure Exact (plan : ℕ → ℕ) (junk : ℕ → ℕ → UInt8) (h : Header) (s : List UInt8) (o k : ℕ) :
    Prop where
  whole : ∀ t, s = h.wire ++ t → ∃ calls,
    recv_frame_head plan junk ⟨s, o, k⟩ = some (h.head, ⟨t, o + h.wire.length, calls⟩)
  cut : s <+: h.wire → s ≠ h.wire → recv_frame_head plan junk ⟨s, o, k⟩ = none

/-- The stream ends after some of the masking key, but not all of it. -/
def EndsInKey (h : Header) (s : List UInt8) : Prop :=
  ∃ part rest, part ≠ [] ∧ rest ≠ [] ∧ h.masking_key = part ++ rest ∧ s = h.fields ++ part

/-! C's arithmetic is that of the bytes. -/

theorem byte_fields (c : UInt8) :
    highBit c = decide (c &&& 0x80 = 0x80) ∧ narrow (promote c &&& 0x0F#32) = c &&& 0x0F ∧
      widen (promote c &&& 0x7F#32) = (c &&& 0x7F).toNat ∧
      promote c &&& 0xFF#32 = BitVec.ofNat 32 c.toNat := by
  have hbytes : ∀ n : Fin 256, let c := UInt8.ofNat n
      highBit c = decide (c &&& 0x80 = 0x80) ∧ narrow (promote c &&& 0x0F#32) = c &&& 0x0F ∧
        widen (promote c &&& 0x7F#32) = (c &&& 0x7F).toNat ∧
        promote c &&& 0xFF#32 = BitVec.ofNat 32 c.toNat := by
    decide +kernel
  have hc := hbytes ⟨c.toNat, c.toNat_lt⟩
  rwa [UInt8.ofNat_toNat] at hc

theorem widen_short (a b : UInt8) :
    widen ((promote a &&& 0xFF#32) <<< 8 ||| (promote b &&& 0xFF#32)) =
      a.toNat <<< 8 ||| b.toNat := by
  have ha := a.toNat_lt
  have hb := b.toNat_lt
  have hshift : a.toNat <<< 8 < 2 ^ 32 := by
    rw [Nat.shiftLeft_eq]
    omega
  have hor : a.toNat <<< 8 ||| b.toNat < 2 ^ 16 := by
    rw [← Nat.shiftLeft_add_eq_or_of_lt hb, Nat.shiftLeft_eq]
    omega
  rw [(byte_fields a).2.2.2, (byte_fields b).2.2.2, widen]
  have hvalue : (BitVec.ofNat 32 a.toNat <<< 8 ||| BitVec.ofNat 32 b.toNat).toNat =
      a.toNat <<< 8 ||| b.toNat := by
    rw [BitVec.toNat_or, BitVec.toNat_shiftLeft, BitVec.toNat_ofNat, BitVec.toNat_ofNat,
      Nat.mod_eq_of_lt (show a.toNat < 2 ^ 32 by omega), Nat.mod_eq_of_lt hshift,
      Nat.mod_eq_of_lt (show b.toNat < 2 ^ 32 by omega)]
  -- the sign bit of the int is clear
  have hmsb : (BitVec.ofNat 32 a.toNat <<< 8 ||| BitVec.ofNat 32 b.toNat).msb = false := by
    rw [BitVec.msb_eq_false_iff_two_mul_lt, hvalue]
    omega
  rw [BitVec.signExtend_eq_setWidth_of_msb_false hmsb, BitVec.toNat_setWidth, hvalue]
  exact Nat.mod_eq_of_lt (by omega)

theorem swapped_eq_reverse {b : List UInt8} (h : b.length = 8) : swapped b = b.reverse := by
  match b, h with
  | [_, _, _, _, _, _, _, _], _ => rfl

theorem length_filled (junk : ℕ → UInt8) {n : ℕ} {b : List UInt8} (h : b.length ≤ n) :
    (filled junk n b).length = n := by
  simp [filled]
  omega

theorem extendedLength_eq (plan : ℕ → ℕ) (junk : ℕ → ℕ → UInt8) (n : ℕ) (s : Socket) :
    extendedLength plan junk n s = WebSocketFrames.extendedLength plan junk n s := by
  rw [extendedLength, WebSocketFrames.extendedLength]
  split_ifs
  · simp only [widen_short]
    rfl
  · cases hread : s.readSome plan 8 with
    | none => rfl
    | some r =>
      obtain ⟨b, s'⟩ := r
      have hlength := length_filled (junk s'.calls) (readSome_bounds (by decide) hread).2.1
      simp only [Option.bind_eq_bind, Option.bind_some, swapped_eq_reverse hlength]
      rfl
  · rfl

theorem recv_frame_head_eq (plan : ℕ → ℕ) (junk : ℕ → ℕ → UInt8) (s : Socket) :
    recv_frame_head plan junk s = WebSocketFrames.recv_frame_head plan junk s := by
  rw [recv_frame_head, WebSocketFrames.recv_frame_head]
  simp only [extendedLength_eq, byte_fields]

/-! The reads of a header. -/

variable {plan : ℕ → ℕ} {junk : ℕ → ℕ → UInt8} {h : Header} {s t u : List UInt8} {o k : ℕ}

theorem first_bits (h : Header) :
    ((h.first &&& 0x80 = 0x80) ↔ h.fin = true) ∧ h.first &&& 0x0F = UInt8.ofNat h.opcode := by
  have hbits : ∀ (fin : Bool) (reserved : Fin 8) (opcode : Fin 16),
      let first := (if fin then 0x80 else 0) ||| UInt8.ofNat (16 * reserved) ||| UInt8.ofNat opcode
      ((first &&& 0x80 = 0x80) ↔ fin = true) ∧ first &&& 0x0F = UInt8.ofNat opcode := by
    decide +kernel
  exact hbits h.fin h.reserved h.opcode

theorem Length.code_lt (l : Length) : l.code < 128 := by
  cases l with
  | bits n => exact Nat.lt_trans n.isLt (by decide)
  | extended16 => exact (by decide : 126 < 128)
  | extended64 => exact (by decide : 127 < 128)

/-- The length is what was meant, however it was written. -/
theorem extendedLength_extern (hfull : Full plan) (junk : ℕ → ℕ → UInt8) (l : Length)
    (t : List UInt8) (o k : ℕ) :
    ∃ calls, WebSocketFrames.extendedLength plan junk l.code ⟨l.extern_len ++ t, o, k⟩ =
      some (l.value, ⟨t, o + l.extern_len.length, calls⟩) := by
  cases l with
  | bits n =>
    have hn : (n : ℕ) ≠ 126 ∧ (n : ℕ) ≠ 127 := by omega
    refine ⟨k, ?_⟩
    simp [WebSocketFrames.extendedLength, Length.code, Length.extern_len, Length.value, hn]
  | extended16 n =>
    have hread : Socket.readSome plan 2 ⟨be 2 n.toNat ++ t, o, k⟩ =
        some (be 2 n.toNat, ⟨t, o + 2, k + 1⟩) :=
      readSome_whole (length_be 2 n.toNat) (by decide) (Nat.le_trans (by decide) (hfull k))
    refine ⟨k + 1, ?_⟩
    simp [WebSocketFrames.extendedLength, Length.code, Length.extern_len, Length.value, hread,
      filled_whole _ (length_be 2 n.toNat), shortLength_be n.toNat_lt]
  | extended64 n =>
    have hread : Socket.readSome plan 8 ⟨be 8 n.toNat ++ t, o, k⟩ =
        some (be 8 n.toNat, ⟨t, o + 8, k + 1⟩) :=
      readSome_whole (length_be 8 n.toNat) (by decide) (hfull k)
    have hn : n.toNat < 256 ^ 8 := n.toNat_lt
    refine ⟨k + 1, ?_⟩
    simp [WebSocketFrames.extendedLength, Length.code, Length.extern_len, Length.value, hread,
      filled_whole _ (length_be 8 n.toNat), longLength_eq, readBE_be hn]

/-- Up to the masking key a header is read as it was written. -/
theorem recv_fields (hfull : Full plan) (junk : ℕ → ℕ → UInt8) (h : Header) (t : List UInt8)
    (o k : ℕ) : ∃ calls, recv_frame_head plan junk ⟨h.fields ++ t, o, k⟩ =
      (Socket.readSome plan 4 ⟨t, o + h.fields.length, calls⟩).map fun (key, s) =>
        (⟨h.fin, UInt8.ofNat h.opcode, true, h.length.value, filled (junk s.calls) 4 key⟩, s) := by
  obtain ⟨calls, hlength⟩ := extendedLength_extern hfull junk h.length t (o + 2) (k + 2)
  have hcode := length_bits h.length.code h.length.code_lt
  have hcount : o + 2 + h.length.extern_len.length = o + h.fields.length := by
    rw [Header.fields, List.length_cons, List.length_cons]
    omega
  have hbytes : h.fields ++ t =
      h.first :: (0x80 ||| UInt8.ofNat h.length.code) :: (h.length.extern_len ++ t) := rfl
  refine ⟨calls, ?_⟩
  rw [recv_frame_head_eq, hbytes, recv_bytes, hcode.2, hlength, hcount]
  simp only [first_bits, hcode.1, Bool.decide_eq_true, decide_true, Option.bind_some]
  cases Socket.readSome plan 4 ⟨t, o + h.fields.length, calls⟩ <;> rfl

theorem recv_whole (hfull : Full plan) (junk : ℕ → ℕ → UInt8) (h : Header) (t : List UInt8)
    (o k : ℕ) : ∃ calls, recv_frame_head plan junk ⟨h.wire ++ t, o, k⟩ =
      some (h.head, ⟨t, o + h.wire.length, calls⟩) := by
  obtain ⟨calls, hfields⟩ := recv_fields hfull junk h (h.masking_key ++ t) o k
  have hkey : Socket.readSome plan 4 ⟨h.masking_key ++ t, o + h.fields.length, calls⟩ =
      some (h.masking_key, ⟨t, o + h.fields.length + 4, calls + 1⟩) :=
    readSome_whole h.key_length (by decide) (Nat.le_trans (by decide) (hfull calls))
  refine ⟨calls + 1, ?_⟩
  rw [Header.wire, List.append_assoc, hfields, hkey, List.length_append, h.key_length]
  simp only [Option.map_some, filled_whole _ h.key_length, Nat.add_assoc]
  rfl

theorem readSome_rest {n : ℕ} (hne : u ≠ []) (hu : u.length ≤ n) (hn : n ≤ plan k) :
    Socket.readSome plan n ⟨u, o, k⟩ = some (u, ⟨[], o + u.length, k + 1⟩) := by
  have hcount : readCount (plan k) n u.length = u.length := by
    have := List.length_pos_iff.mpr hne
    unfold readCount
    omega
  simp [Socket.readSome, Socket.read, hne, hcount]

/-- If the length is cut off, nothing is left for the key. -/
theorem extendedLength_cut (hfull : Full plan) (junk : ℕ → ℕ → UInt8) (l : Length)
    (hu : u <+: l.extern_len) (o k : ℕ) :
    WebSocketFrames.extendedLength plan junk l.code ⟨u, o, k⟩ = none ∨
      ∃ n o' k', WebSocketFrames.extendedLength plan junk l.code ⟨u, o, k⟩ =
        some (n, ⟨[], o', k'⟩) := by
  have hlength := hu.length_le
  by_cases hnil : u = []
  · subst hnil
    cases l with
    | bits n =>
      have hn : (n : ℕ) ≠ 126 ∧ (n : ℕ) ≠ 127 := by omega
      exact .inr ⟨n, o, k, by simp [WebSocketFrames.extendedLength, Length.code, hn]⟩
    | extended16 n => exact .inl rfl
    | extended64 n => exact .inl rfl
  · cases l with
    | bits n => exact absurd (List.prefix_nil.mp hu) hnil
    | extended16 n =>
      have hsize : u.length ≤ 2 := by simpa [Length.extern_len] using hlength
      have hread : Socket.readSome plan 2 ⟨u, o, k⟩ = some (u, ⟨[], o + u.length, k + 1⟩) :=
        readSome_rest hnil hsize (Nat.le_trans (by decide) (hfull k))
      exact .inr ⟨_, _, _, by
        rw [WebSocketFrames.extendedLength, Length.code, if_pos rfl, hread]; rfl⟩
    | extended64 n =>
      have hsize : u.length ≤ 8 := by simpa [Length.extern_len] using hlength
      have hread : Socket.readSome plan 8 ⟨u, o, k⟩ = some (u, ⟨[], o + u.length, k + 1⟩) :=
        readSome_rest hnil hsize (hfull k)
      exact .inr ⟨_, _, _, by
        rw [WebSocketFrames.extendedLength, Length.code, if_neg (by decide), if_pos rfl, hread]
        rfl⟩

theorem recv_cut (hfull : Full plan) (junk : ℕ → ℕ → UInt8) (h : Header) (hs : s <+: h.fields)
    (o k : ℕ) : recv_frame_head plan junk ⟨s, o, k⟩ = none := by
  have hcode := length_bits h.length.code h.length.code_lt
  rw [recv_frame_head_eq]
  match s, hs with
  | [], _ => rfl
  | [first], _ => simp [WebSocketFrames.recv_frame_head]
  | first :: second :: u, hs =>
    obtain ⟨rfl, hrest⟩ := List.cons_prefix_cons.mp hs
    obtain ⟨rfl, hu⟩ := List.cons_prefix_cons.mp hrest
    rw [recv_bytes, hcode.2]
    obtain hnone | ⟨n, o', k', hsome⟩ := extendedLength_cut hfull junk h.length hu (o + 2) (k + 2)
    · rw [hnone]
      rfl
    · rw [hsome]
      rfl

theorem recv_key_cut (hfull : Full plan) (junk : ℕ → ℕ → UInt8) (hend : EndsInKey h s) (o k : ℕ) :
    recv_frame_head plan junk ⟨s, o, k⟩ ≠ none := by
  obtain ⟨part, rest, hpart, -, hkey, rfl⟩ := hend
  have hlength := congrArg List.length hkey
  rw [h.key_length, List.length_append] at hlength
  obtain ⟨calls, hfields⟩ := recv_fields hfull junk h part o k
  rw [hfields, readSome_rest hpart (by omega) (Nat.le_trans (by decide) (hfull calls))]
  exact Option.some_ne_none _

theorem EndsInKey.cut (hend : EndsInKey h s) : s <+: h.wire ∧ s ≠ h.wire := by
  obtain ⟨part, rest, -, hrest, hkey, rfl⟩ := hend
  rw [Header.wire, hkey]
  refine ⟨⟨rest, by rw [List.append_assoc]⟩, fun heq => hrest ?_⟩
  exact (List.self_eq_append_right.mp (List.append_cancel_left heq))

theorem EndsInKey.length_lt (hend : EndsInKey h s) : s.length < h.wire.length := by
  obtain ⟨hcut, hne⟩ := hend.cut
  exact Nat.lt_of_le_of_ne hcut.length_le fun hlength => hne (hcut.eq_of_length hlength)

/-- A header that is cut off ends in its fields or in its key. -/
theorem cut_cases (hs : s <+: h.wire) (hne : s ≠ h.wire) : s <+: h.fields ∨ EndsInKey h s := by
  rcases Nat.le_total s.length h.fields.length with hshort | hlong
  · exact .inl (List.prefix_of_prefix_length_le hs (List.prefix_append _ _) hshort)
  · obtain ⟨part, rfl⟩ :=
      List.prefix_of_prefix_length_le (List.prefix_append h.fields h.masking_key) hs hlong
    obtain ⟨rest, hkey⟩ := (List.prefix_append_right_inj _).mp hs
    by_cases hpart : part = []
    · exact .inl (by simp [hpart])
    · refine .inr ⟨part, rest, hpart, fun hrest => hne ?_, hkey.symm, rfl⟩
      rw [Header.wire, ← hkey, hrest, List.append_nil]

/-- A read counts as done when it got any of its bytes, which tells for the key alone: after a
part of anything else the next read finds the end. -/
theorem exact_iff (hfull : Full plan) (junk : ℕ → ℕ → UInt8) (h : Header) (s : List UInt8)
    (o k : ℕ) : Exact plan junk h s o k ↔ ¬EndsInKey h s := by
  constructor
  · intro hexact hend
    obtain ⟨hcut, hne⟩ := hend.cut
    exact recv_key_cut hfull junk hend o k (hexact.cut hcut hne)
  · intro hend
    constructor
    · rintro t rfl
      exact recv_whole hfull junk h t o k
    · intro hcut hne
      obtain hfields | hkey := cut_cases hcut hne
      · exact recv_cut hfull junk h hfields o k
      · exact absurd hkey hend

/-- The longest encoding of a short length. -/
def greeting : Header :=
  ⟨true, ⟨0, Nat.succ_pos _⟩, ⟨1, Nat.succ_lt_succ (Nat.succ_pos _)⟩, .extended64 2, [1, 0, 2, 0],
    rfl⟩

theorem exact_greeting : Full (fun _ => 8) ∧
    Exact (fun _ => 8) (fun _ _ => 0) greeting (greeting.wire ++ [0x69, 0x6B]) 0 0 := by
  have hfull : Full fun _ => 8 := fun _ => Nat.le_refl 8
  refine ⟨hfull, (exact_iff hfull _ _ _ _ _).mpr fun hend => ?_⟩
  exact absurd hend.length_lt (by decide)

/-- The stream ends after the first byte of the key, and the header is taken for complete. -/
theorem key_cut_accepted :
    recv_frame_head (fun _ => 8) (fun _ _ => 0) ⟨greeting.fields ++ [1], 0, 0⟩ =
        some (⟨true, 1, true, 2, [1, 0, 0, 0]⟩, ⟨[], 11, 4⟩) ∧
      ¬∀ plan junk h s o k, Full plan → Exact plan junk h s o k := by
  have hrecv : recv_frame_head (fun _ => 8) (fun _ _ => 0) ⟨greeting.fields ++ [1], 0, 0⟩ =
      some (⟨true, 1, true, 2, [1, 0, 0, 0]⟩, ⟨[], 11, 4⟩) := by decide +kernel
  refine ⟨hrecv, fun h => ?_⟩
  have hexact := h (fun _ => 8) (fun _ _ => 0) greeting (greeting.fields ++ [1]) 0 0
    fun _ => Nat.le_refl 8
  have hnone := hexact.cut (by decide) (by decide)
  rw [hrecv] at hnone
  cases hnone

end FrameHeader
