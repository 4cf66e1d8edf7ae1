import AndroidDebug.LengthFraming

/-! The receive path of the terminal's WebSocket: recv_frame_head, umask and the loop of
TermWebSocket_run, over a socket whose reads return as much as a plan says. A delivered
byte carries its position in the stream, and logging is left out. -/
namespace WebSocketFrames

open LengthFraming

/-- The connection: the bytes still to come, the position of the first of them and the
number of reads made. -/
structure Socket where
  rest : List UInt8
  offset : ℕ
  calls : ℕ
  deriving DecidableEq, Repr

/-- The plan has the last word on a read only between one byte and what is there. -/
def readCount (planned requested available : ℕ) : ℕ :=
  min available (max 1 (min planned requested))

/-- `read(fd, buf, requested)`: no byte is the end of the stream. -/
def Socket.read (plan : ℕ → ℕ) (requested : ℕ) (s : Socket) : List UInt8 × Socket :=
  let n := readCount (plan s.calls) requested s.rest.length
  (s.rest.take n, ⟨s.rest.drop n, s.offset + n, s.calls + 1⟩)

structure FrameHead where
  fin : Bool
  opcode : UInt8
  mask : Bool
  payload_length : ℕ
  masking_key : List UInt8
  deriving DecidableEq, Repr

/-- A buffer of `size` bytes after a read; what the read did not reach is what was there. -/
def filled (junk : ℕ → UInt8) (size : ℕ) (bytes : List UInt8) : List UInt8 :=
  bytes ++ (List.range' bytes.length (size - bytes.length)).map junk

def littleEndian (bs : List UInt8) : ℕ := bs.foldr (fun b acc => b.toNat + 256 * acc) 0

/-- The two bytes of a 16-bit length, as the shift and or combine them. -/
def shortLength (b : List UInt8) : ℕ :=
  (b.getD 0 0).toNat <<< 8 ||| (b.getD 1 0).toNat

/-- The swap loop mirrors the eight bytes, memcpy reads them little-endian. -/
def longLength (b : List UInt8) : ℕ := littleEndian b.reverse

/-- A read that gets at least a byte. -/
def Socket.readSome (plan : ℕ → ℕ) (requested : ℕ) (s : Socket) : Option (List UInt8 × Socket) :=
  if s.rest = [] then none else some (s.read plan requested)

/-- The length that the second byte announces, from the two or eight bytes after it if need be.
`junk` is what the uninitialised locals hold at each read. -/
def extendedLength (plan : ℕ → ℕ) (junk : ℕ → ℕ → UInt8) (length : ℕ) (s : Socket) :
    Option (ℕ × Socket) :=
  if length = 126 then do
    let (extern_len, s) ← s.readSome plan 2
    return (shortLength (filled (junk s.calls) 2 extern_len), s)
  else if length = 127 then do
    let (extern_len, s) ← s.readSome plan 8
    return (longLength (filled (junk s.calls) 8 extern_len), s)
  else return (length, s)

/-- `none` is a return of -1. -/
def recv_frame_head (plan : ℕ → ℕ) (junk : ℕ → ℕ → UInt8) (s : Socket) :
    Option (FrameHead × Socket) := do
  let (first, s) ← s.readSome plan 1
  let (second, s) ← s.readSome plan 1
  let fin : Bool := (first.headD 0 &&& 0x80) = 0x80
  let opcode := first.headD 0 &&& 0x0F
  let mask : Bool := (second.headD 0 &&& 0x80) = 0x80
  let (payload_length, s) ← extendedLength plan junk (second.headD 0 &&& 0x7F).toNat s
  let (key, s) ← s.readSome plan 4
  return (⟨fin, opcode, mask, payload_length, filled (junk s.calls) 4 key⟩, s)

def umask (data : List UInt8) (len : ℕ) (mask : List UInt8) : List UInt8 :=
  data.mapIdx fun i b => if i < len then b ^^^ mask.getD (i % 4) 0 else b

def BUFFER : ℕ := 1024

/-- The bytes of one call of onReceiveData, each with its position in the stream. -/
abbrev Delivery := List (UInt8 × ℕ)

/-- The inner loop. Without a socket it ended in a call of umask that leaves the array; the
result is `none` when the fuel is used up. -/
def receive (plan : ℕ → ℕ) (head : FrameHead) :
    ℕ → Socket → List UInt8 → ℕ → Option (List Delivery × Option Socket)
  | 0, _, _, _ => none
  | fuel + 1, s, payload_data, size =>
    match s.readSome plan BUFFER with
    | none => some ([], some s)
    | some (bytes, s') =>
      let size := size + bytes.length
      if BUFFER < size then some ([], none)
      else
        let payload_data :=
          umask (bytes ++ payload_data.drop bytes.length) size head.masking_key
        let delivery := (payload_data.take bytes.length).zipIdx s.offset
        if size < head.payload_length then
          (receive plan head fuel s' payload_data size).map fun (ds, e) => (delivery :: ds, e)
        else some ([delivery], some s')

inductive Ending where
  | closed | outOfBounds
  deriving DecidableEq, Repr

/-- TermWebSocket_run up to the closing of the descriptors. -/
def run (plan : ℕ → ℕ) (junk : ℕ → ℕ → UInt8) : ℕ → Socket → Option (List Delivery × Ending)
  | 0, _ => none
  | fuel + 1, s =>
    match recv_frame_head plan junk s with
    | none => some ([], .closed)
    | some (head, s) =>
      match receive plan head (s.rest.length + 1) s (List.replicate BUFFER 0) 0 with
      | none => none
      | some (ds, none) => some (ds, .outOfBounds)
      | some (ds, some s) => (run plan junk fuel s).map fun (es, e) => (ds ++ es, e)

inductive DataOpcode where
  | text | binary
  deriving DecidableEq, Repr

def DataOpcode.code : DataOpcode → UInt8
  | .text => 1
  | .binary => 2

/-- An unfragmented data frame of a client. -/
structure ClientFrame where
  opcode : DataOpcode
  key : List UInt8
  payload : List UInt8
  key_length : key.length = 4
  payload_length : payload.length < 2 ^ 63

/-- Masking from position `o` of the payload on. -/
def maskFrom (key : List UInt8) (o : ℕ) (bs : List UInt8) : List UInt8 :=
  bs.mapIdx fun i b => b ^^^ key.getD ((o + i) % 4) 0

/-- The payload length in the shortest of the three encodings, with the mask bit. -/
def lengthField (n : ℕ) : List UInt8 :=
  if n < 126 then [0x80 ||| UInt8.ofNat n]
  else if n < 65536 then (0x80 ||| 126) :: be 2 n
  else (0x80 ||| 127) :: be 8 n

def ClientFrame.header (f : ClientFrame) : List UInt8 :=
  (0x80 ||| f.opcode.code) :: lengthField f.payload.length ++ f.key

def ClientFrame.wire (f : ClientFrame) : List UInt8 :=
  f.header ++ maskFrom f.key 0 f.payload

def wire (fs : List ClientFrame) : List UInt8 := fs.flatMap ClientFrame.wire

/-- The payload bytes of frames that start at position `o`, with their positions. -/
def payloads : ℕ → List ClientFrame → Delivery
  | _, [] => []
  | o, f :: fs => f.payload.zipIdx (o + f.header.length) ++ payloads (o + f.wire.length) fs

/-- The bytes passed to onReceiveData are the unmasked payloads. -/
def DeliversPayloads (plan : ℕ → ℕ) (junk : ℕ → ℕ → UInt8) (fs : List ClientFrame) : Prop :=
  ∃ ds, run plan junk ((wire fs).length + 1) ⟨wire fs, 0, 0⟩ = some (ds, .closed) ∧
    ds.flatten.map Prod.fst = fs.flatMap ClientFrame.payload

/-- They are, and each comes from its own place in the stream: nothing is lost or repeated
and no header byte stands in for a payload byte. -/
def Faithful (plan : ℕ → ℕ) (junk : ℕ → ℕ → UInt8) (fs : List ClientFrame) : Prop :=
  ∃ ds, run plan junk ((wire fs).length + 1) ⟨wire fs, 0, 0⟩ = some (ds, .closed) ∧
    ds.flatten = payloads 0 fs

section Reading

variable {plan : ℕ → ℕ} {n o k : ℕ} {a t : List UInt8}

theorem readCount_bounds {p n m : ℕ} (hm : 0 < m) (hn : 0 < n) :
    0 < readCount p n m ∧ readCount p n m ≤ n ∧ readCount p n m ≤ m := by
  unfold readCount
  omega

@[simp] theorem readSome_closed : Socket.readSome plan n ⟨[], o, k⟩ = none := rfl

@[simp] theorem readSome_byte (b : UInt8) :
    Socket.readSome plan 1 ⟨b :: t, o, k⟩ = some ([b], ⟨t, o + 1, k + 1⟩) := by
  have h : readCount (plan k) 1 (t.length + 1) = 1 := by
    unfold readCount
    omega
  simp [Socket.readSome, Socket.read, h]

/-- A read for a field that is there gets a first part of it. -/
theorem readSome_part (ha : a.length = n) (hn : 0 < n) :
    Socket.readSome plan n ⟨a ++ t, o, k⟩ =
      some (a.take (min n (max 1 (plan k))),
        ⟨a.drop (min n (max 1 (plan k))) ++ t, o + min n (max 1 (plan k)), k + 1⟩) := by
  have h : readCount (plan k) n (a ++ t).length = min n (max 1 (plan k)) := by
    rw [List.length_append]
    unfold readCount
    omega
  have hle : min n (max 1 (plan k)) ≤ a.length := by omega
  have hne : a ++ t ≠ [] := by
    intro h
    rw [List.append_eq_nil_iff] at h
    simp [h.1] at ha
    omega
  simp only [Socket.readSome, hne, if_false, Socket.read, h, List.take_append_of_le_length hle,
    List.drop_append_of_le_length hle]

theorem readSome_whole (ha : a.length = n) (hpos : 0 < n) (hn : n ≤ plan k) :
    Socket.readSome plan n ⟨a ++ t, o, k⟩ = some (a, ⟨t, o + n, k + 1⟩) := by
  have hm : min n (max 1 (plan k)) = n := by omega
  rw [readSome_part ha hpos, hm]
  simp [← ha]

end Reading

theorem filled_whole (junk : ℕ → UInt8) {n : ℕ} {b : List UInt8} (h : b.length = n) :
    filled junk n b = b := by
  simp [filled, h]

theorem shortLength_be {n : ℕ} (h : n < 65536) : shortLength (be 2 n) = n := by
  have hb : be 2 n = [UInt8.ofNat (n / 256), UInt8.ofNat n] := by simp [be]
  have hlow : n % 256 < 2 ^ 8 := Nat.mod_lt _ (by decide)
  have hhigh : n / 256 % 256 = n / 256 := Nat.mod_eq_of_lt (by omega)
  simp only [shortLength, hb, List.getD_cons_zero, List.getD_cons_succ, UInt8.toNat_ofNat', hhigh]
  rw [← Nat.shiftLeft_add_eq_or_of_lt hlow, Nat.shiftLeft_eq]
  omega

theorem longLength_eq (b : List UInt8) : longLength b = readBE b := by
  unfold longLength littleEndian readBE
  rw [List.foldr_reverse]
  congr 1
  funext acc b
  omega

/-- How many bytes extend the seven length bits. -/
def extendedSize (n : ℕ) : ℕ := if n < 126 then 0 else if n < 65536 then 2 else 8

/-- The extended length and the masking key each come in one read. -/
def HeaderWhole (plan : ℕ → ℕ) (k n : ℕ) : Prop :=
  if extendedSize n = 0 then 4 ≤ plan (k + 2)
  else extendedSize n ≤ plan (k + 2) ∧ 4 ≤ plan (k + 3)

def headerReads (n : ℕ) : ℕ := if extendedSize n = 0 then 3 else 4

def ClientFrame.head (f : ClientFrame) : FrameHead :=
  ⟨true, f.opcode.code, true, f.payload.length, f.key⟩

theorem opcode_bits (c : DataOpcode) :
    ((0x80 ||| c.code) &&& 0x80 : UInt8) = 0x80 ∧
      ((0x80 ||| c.code) &&& 0x0F : UInt8) = c.code := by
  cases c <;> decide

theorem length_bits (n : ℕ) (h : n < 128) :
    ((0x80 ||| UInt8.ofNat n) &&& 0x80 : UInt8) = 0x80 ∧
    ((0x80 ||| UInt8.ofNat n) &&& 0x7F : UInt8).toNat = n := by
  revert n
  decide +kernel

section Header

variable {plan : ℕ → ℕ} {junk : ℕ → ℕ → UInt8} {f : ClientFrame} {t : List UInt8} {o k : ℕ}

/-- What is left of recv_frame_head once the length is known: the read of the key. -/
def keyed (plan : ℕ → ℕ) (junk : ℕ → ℕ → UInt8) (f : ClientFrame) (length : ℕ) (s : Socket) :
    Option (FrameHead × Socket) := do
  let (key, s) ← s.readSome plan 4
  return (⟨true, f.opcode.code, true, length, filled (junk s.calls) 4 key⟩, s)

theorem ClientFrame.header_short (h : f.payload.length < 126) :
    f.header ++ t = (0x80 ||| f.opcode.code) :: (0x80 ||| UInt8.ofNat f.payload.length) ::
      (f.key ++ t) := by
  simp [ClientFrame.header, lengthField, h]

theorem ClientFrame.header_medium (h : 126 ≤ f.payload.length) (h' : f.payload.length < 65536) :
    f.header ++ t = (0x80 ||| f.opcode.code) :: (0x80 ||| UInt8.ofNat 126) ::
      (be 2 f.payload.length ++ (f.key ++ t)) := by
  simp [ClientFrame.header, lengthField, Nat.not_lt.mpr h, h']

theorem ClientFrame.header_long (h : 65536 ≤ f.payload.length) :
    f.header ++ t = (0x80 ||| f.opcode.code) :: (0x80 ||| UInt8.ofNat 127) ::
      (be 8 f.payload.length ++ (f.key ++ t)) := by
  have h' : ¬ f.payload.length < 126 := by omega
  simp [ClientFrame.header, lengthField, h', Nat.not_lt.mpr h]

theorem recv_bytes (first second : UInt8) :
    recv_frame_head plan junk ⟨first :: second :: t, o, k⟩ =
      (extendedLength plan junk (second &&& 0x7F).toNat ⟨t, o + 2, k + 2⟩).bind fun (n, s) =>
        (s.readSome plan 4).bind fun (key, s) =>
          some (⟨(first &&& 0x80) = 0x80, first &&& 0x0F, (second &&& 0x80) = 0x80, n,
            filled (junk s.calls) 4 key⟩, s) := by
  simp only [recv_frame_head, readSome_byte, Option.bind_eq_bind, Option.bind_some, List.headD_cons]
  rfl

theorem recv_short (h : f.payload.length < 126) :
    recv_frame_head plan junk ⟨f.header ++ t, o, k⟩ =
      keyed plan junk f f.payload.length ⟨f.key ++ t, o + 2, k + 2⟩ := by
  have hb := length_bits f.payload.length (by omega)
  have hne : f.payload.length ≠ 126 ∧ f.payload.length ≠ 127 := by omega
  rw [ClientFrame.header_short h, recv_bytes]
  simp only [extendedLength, hb, hne, if_false, opcode_bits, decide_true]
  rfl

theorem recv_medium (h : 126 ≤ f.payload.length) (h' : f.payload.length < 65536) :
    recv_frame_head plan junk ⟨f.header ++ t, o, k⟩ =
      (Socket.readSome plan 2 ⟨be 2 f.payload.length ++ (f.key ++ t), o + 2, k + 2⟩).bind
        fun (b, s) => keyed plan junk f (shortLength (filled (junk s.calls) 2 b)) s := by
  have hb := length_bits 126 (by decide)
  rw [ClientFrame.header_medium h h', recv_bytes]
  simp only [extendedLength, hb, if_true, opcode_bits, decide_true, Option.bind_eq_bind,
    Option.bind_assoc]
  rfl

theorem recv_long (h : 65536 ≤ f.payload.length) :
    recv_frame_head plan junk ⟨f.header ++ t, o, k⟩ =
      (Socket.readSome plan 8 ⟨be 8 f.payload.length ++ (f.key ++ t), o + 2, k + 2⟩).bind
        fun (b, s) => keyed plan junk f (longLength (filled (junk s.calls) 8 b)) s := by
  have hb := length_bits 127 (by decide)
  have hne : ¬ 127 = 126 := by decide
  rw [ClientFrame.header_long h, recv_bytes]
  simp only [extendedLength, hb, hne, if_true, if_false, opcode_bits, decide_true,
    Option.bind_eq_bind, Option.bind_assoc]
  rfl

theorem ClientFrame.length_header (f : ClientFrame) :
    f.header.length = 6 + extendedSize f.payload.length := by
  unfold ClientFrame.header lengthField extendedSize
  by_cases h : f.payload.length < 126
  · simp [h, f.key_length]
  · by_cases h' : f.payload.length < 65536 <;> simp [h, h', f.key_length]

theorem keyed_whole {n : ℕ} (h : 4 ≤ plan k) :
    keyed plan junk f n ⟨f.key ++ t, o, k⟩ =
      some (⟨true, f.opcode.code, true, n, f.key⟩, ⟨t, o + 4, k + 1⟩) := by
  rw [keyed, readSome_whole f.key_length (by decide) h]
  simp [filled_whole _ f.key_length]

theorem keyed_some (plan : ℕ → ℕ) (junk : ℕ → ℕ → UInt8) (f : ClientFrame) (n o k : ℕ)
    (h : t ≠ []) : ∃ key, keyed plan junk f n ⟨t, o, k⟩ =
    some (⟨true, f.opcode.code, true, n, key⟩, ⟨t.drop (readCount (plan k) 4 t.length),
      o + readCount (plan k) 4 t.length, k + 1⟩) := by
  simp [keyed, Socket.readSome, Socket.read, h]

/-- With whole reads the header is parsed as it was written. -/
theorem recv_whole (junk : ℕ → ℕ → UInt8) (t : List UInt8) (o : ℕ)
    (h : HeaderWhole plan k f.payload.length) :
    recv_frame_head plan junk ⟨f.header ++ t, o, k⟩ =
      some (f.head, ⟨t, o + f.header.length, k + headerReads f.payload.length⟩) := by
  rw [f.length_header]
  unfold HeaderWhole headerReads extendedSize at *
  by_cases hs : f.payload.length < 126
  · simp only [hs, if_true] at h ⊢
    rw [recv_short hs, keyed_whole h]
    simp [ClientFrame.head, Nat.add_assoc]
  · by_cases hm : f.payload.length < 65536
    · simp only [hs, hm, if_true, if_false] at h ⊢
      rw [recv_medium (by omega) hm, readSome_whole (length_be 2 _) (by decide) h.1]
      simp only [Option.bind_some, filled_whole _ (length_be 2 _), shortLength_be hm]
      rw [keyed_whole h.2]
      simp [ClientFrame.head, Nat.add_assoc]
    · have hl : f.payload.length < 256 ^ 8 := by
        have := f.payload_length
        omega
      simp only [hs, hm, if_false] at h ⊢
      rw [recv_long (by omega), readSome_whole (length_be 8 _) (by decide) h.1]
      simp only [Option.bind_some, filled_whole _ (length_be 8 _), longLength_eq, readBE_be hl]
      rw [keyed_whole h.2]
      simp [ClientFrame.head, Nat.add_assoc]

/-- After an incomplete read of the header the payload is looked for inside the header. -/
theorem recv_part (junk : ℕ → ℕ → UInt8) (t : List UInt8) (o : ℕ)
    (h : ¬ HeaderWhole plan k f.payload.length) :
    ∃ head s, recv_frame_head plan junk ⟨f.header ++ t, o, k⟩ = some (head, s) ∧
      s.offset < o + f.header.length ∧ s.rest ≠ [] := by
  have hlast : ∀ (n o' k' : ℕ) (a : List UInt8) {m : ℕ}, a.length = m → (m = 0 → ¬ 4 ≤ plan k') →
      ∃ head s, keyed plan junk f n ⟨a ++ (f.key ++ t), o', k'⟩ = some (head, s) ∧
        s.offset < o' + m + 4 ∧ s.rest ≠ [] := by
    intro n o' k' a m ha hz
    have hlen : (a ++ (f.key ++ t)).length = m + 4 + t.length := by
      simp [ha, f.key_length, Nat.add_assoc]
    have hne : a ++ (f.key ++ t) ≠ [] := by
      intro hnil
      rw [hnil, List.length_nil] at hlen
      omega
    obtain ⟨key, hk⟩ := keyed_some plan junk f n o' k' hne
    refine ⟨_, _, hk, ?_, ?_⟩
    · simp only [hlen, readCount]
      omega
    · intro hnil
      have := congrArg List.length hnil
      simp only [List.length_drop, hlen, readCount, List.length_nil] at this
      omega
  rw [f.length_header]
  unfold HeaderWhole extendedSize at *
  by_cases hs : f.payload.length < 126
  · simp only [hs, if_true] at h ⊢
    rw [recv_short hs]
    obtain ⟨head, s, hk, ho, hr⟩ := hlast f.payload.length (o + 2) (k + 2) [] rfl fun _ => h
    exact ⟨head, s, hk, by omega, hr⟩
  · by_cases hm : f.payload.length < 65536
    · simp only [hs, hm, if_true, if_false] at h ⊢
      have h : ¬ (2 ≤ plan (k + 2) ∧ 4 ≤ plan (k + 2 + 1)) := by simpa using h
      rw [recv_medium (by omega) hm, readSome_part (length_be 2 _) (by decide), Option.bind_some]
      obtain ⟨head, s, hk, ho, hr⟩ := hlast
        (shortLength (filled (junk (k + 2 + 1)) 2
          ((be 2 f.payload.length).take (min 2 (max 1 (plan (k + 2)))))))
        (o + 2 + min 2 (max 1 (plan (k + 2)))) (k + 2 + 1)
        ((be 2 f.payload.length).drop (min 2 (max 1 (plan (k + 2))))) rfl
        (by rw [List.length_drop, length_be]; omega)
      refine ⟨head, s, hk, ?_, hr⟩
      rw [List.length_drop, length_be] at ho
      omega
    · simp only [hs, hm, if_false] at h ⊢
      have h : ¬ (8 ≤ plan (k + 2) ∧ 4 ≤ plan (k + 2 + 1)) := by simpa using h
      rw [recv_long (by omega), readSome_part (length_be 8 _) (by decide), Option.bind_some]
      obtain ⟨head, s, hk, ho, hr⟩ := hlast
        (longLength (filled (junk (k + 2 + 1)) 8
          ((be 8 f.payload.length).take (min 8 (max 1 (plan (k + 2)))))))
        (o + 2 + min 8 (max 1 (plan (k + 2)))) (k + 2 + 1)
        ((be 8 f.payload.length).drop (min 8 (max 1 (plan (k + 2))))) rfl
        (by rw [List.length_drop, length_be]; omega)
      refine ⟨head, s, hk, ?_, hr⟩
      rw [List.length_drop, length_be] at ho
      omega

end Header

section Payload

variable {plan : ℕ → ℕ} {head : FrameHead} {rest p t d key : List UInt8} {o k fuel size : ℕ}

@[simp] theorem length_maskFrom (key : List UInt8) (o : ℕ) (bs : List UInt8) :
    (maskFrom key o bs).length = bs.length := by
  simp [maskFrom]

theorem umask_take (b d key : List UInt8) {size : ℕ} (h : b.length ≤ size) :
    (umask (b ++ d) size key).take b.length = maskFrom key 0 b := by
  unfold umask maskFrom
  apply List.ext_getElem
  · simp
  · intro i hi _
    have hib : i < b.length := by
      simp at hi
      omega
    have his : i < size := by omega
    simp [hib, his]

@[simp] theorem receive_closed :
    receive plan head (fuel + 1) ⟨[], o, k⟩ d size = some ([], some ⟨[], o, k⟩) := rfl

/-- One round of the inner loop on an open connection. -/
theorem receive_round (plan : ℕ → ℕ) (head : FrameHead) (fuel o k size : ℕ) (d : List UInt8)
    (hrest : rest ≠ []) {r : ℕ} (hr : readCount (plan k) BUFFER rest.length = r) :
    ∃ d', receive plan head (fuel + 1) ⟨rest, o, k⟩ d size =
      if BUFFER < size + r then some ([], none)
      else if size + r < head.payload_length then
        (receive plan head fuel ⟨rest.drop r, o + r, k + 1⟩ d' (size + r)).map fun (ds, e) =>
          ((maskFrom head.masking_key 0 (rest.take r)).zipIdx o :: ds, e)
      else some ([(maskFrom head.masking_key 0 (rest.take r)).zipIdx o],
        some ⟨rest.drop r, o + r, k + 1⟩) := by
  have hpos : 0 < rest.length := List.length_pos_iff.mpr hrest
  have hlen : (rest.take r).length = r := by
    have := readCount_bounds (p := plan k) hpos (show 0 < BUFFER by decide)
    rw [List.length_take]
    omega
  refine ⟨umask (rest.take r ++ d.drop r) (size + r) head.masking_key, ?_⟩
  have hum := umask_take (rest.take r) (d.drop r) head.masking_key
    (show (rest.take r).length ≤ size + r by omega)
  rw [hlen] at hum
  simp only [receive, Socket.readSome, hrest, if_false, Socket.read, hr, hlen, hum]

/-- Unmasking a chunk from its own start is right if the key repeats accordingly. -/
def InPhase (key : List UInt8) (o r : ℕ) : Prop :=
  ∀ i < r, key.getD ((o + i) % 4) 0 = key.getD (i % 4) 0

theorem unmask_byte (key : List UInt8) (o : ℕ) {p : List UInt8} {i : ℕ} (hi : i < p.length) :
    (maskFrom key 0 (maskFrom key o p))[i]? =
      some (p[i] ^^^ key.getD ((o + i) % 4) 0 ^^^ key.getD (i % 4) 0) := by
  simp [maskFrom, hi]

theorem unmask_iff {key p : List UInt8} {o : ℕ} :
    maskFrom key 0 (maskFrom key o p) = p ↔ InPhase key o p.length := by
  constructor
  · intro h i hi
    have hx := unmask_byte key o hi
    rw [h, List.getElem?_eq_getElem hi, Option.some_inj, UInt8.xor_assoc] at hx
    nth_rewrite 1 [← UInt8.xor_zero (a := p[i])] at hx
    exact UInt8.xor_eq_zero_iff.mp ((UInt8.xor_right_inj _).mp hx).symm
  · intro h
    apply List.ext_getElem?
    intro i
    by_cases hi : i < p.length
    · rw [unmask_byte key o hi, h i hi, List.getElem?_eq_getElem hi, UInt8.xor_assoc,
        UInt8.xor_self, UInt8.xor_zero]
    · simp [hi]

theorem maskFrom_take (key : List UInt8) (o r : ℕ) (p : List UInt8) :
    (maskFrom key o p).take r = maskFrom key o (p.take r) := by
  apply List.ext_getElem
  · simp
  · intro i _ _
    simp [maskFrom]

theorem maskFrom_drop (key : List UInt8) (o r : ℕ) (p : List UInt8) :
    (maskFrom key o p).drop r = maskFrom key (o + r) (p.drop r) := by
  apply List.ext_getElem
  · simp
  · intro i _ _
    simp [maskFrom, Nat.add_assoc]

/-- Reads that stop at the end of the payload and whose chunks are in phase with the key;
`after` bytes follow the payload, `o` of its bytes have been read before, `n` are to come. -/
inductive PayloadWhole (plan : ℕ → ℕ) (key : List UInt8) (after : ℕ) : ℕ → ℕ → ℕ → ℕ → Prop where
  | last {k o n} : readCount (plan k) BUFFER (n + after) = n → InPhase key o n →
      PayloadWhole plan key after k o n (k + 1)
  | more {k o r n k'} : readCount (plan k) BUFFER (n + after) = r → r < n → InPhase key o r →
      PayloadWhole plan key after (k + 1) (o + r) (n - r) k' →
      PayloadWhole plan key after k o n k'

theorem split_payload (key t : List UInt8) (size : ℕ) {r : ℕ} (hr : r ≤ p.length) :
    (maskFrom key size p ++ t).take r = maskFrom key size (p.take r) ∧
    (maskFrom key size p ++ t).drop r = maskFrom key (size + r) (p.drop r) ++ t := by
  constructor
  · rw [List.take_append_of_le_length (by simpa using hr), maskFrom_take]
  · rw [List.drop_append_of_le_length (by simpa using hr), maskFrom_drop]

theorem zipIdx_split (r : ℕ) (p : List UInt8) (o : ℕ) (hr : r ≤ p.length) :
    p.zipIdx o = (p.take r).zipIdx o ++ (p.drop r).zipIdx (o + r) := by
  conv_lhs => rw [← List.take_append_drop r p, List.zipIdx_append]
  rw [List.length_take, Nat.min_eq_left hr]

/-- A round whose read stays within the payload. -/
theorem receive_within (plan : ℕ → ℕ) (head : FrameHead) (fuel o k size : ℕ) (d : List UInt8)
    {r : ℕ} (hpos : 0 < p.length) (hr : readCount (plan k) BUFFER (p.length + t.length) = r)
    (hrp : r ≤ p.length)
    (hsize : size + r ≤ BUFFER) :
    ∃ d', receive plan head (fuel + 1) ⟨maskFrom head.masking_key size p ++ t, o, k⟩ d size =
      if size + r < head.payload_length then
        (receive plan head fuel ⟨maskFrom head.masking_key (size + r) (p.drop r) ++ t, o + r, k + 1⟩
          d' (size + r)).map fun (ds, e) => ((maskFrom head.masking_key 0
            (maskFrom head.masking_key size (p.take r))).zipIdx o :: ds, e)
      else some ([(maskFrom head.masking_key 0
          (maskFrom head.masking_key size (p.take r))).zipIdx o],
        some ⟨maskFrom head.masking_key (size + r) (p.drop r) ++ t, o + r, k + 1⟩) := by
  have hne : maskFrom head.masking_key size p ++ t ≠ [] := by
    intro h
    have := congrArg List.length h
    simp at this
    simp [this.1] at hpos
  obtain ⟨htake, hdrop⟩ := split_payload head.masking_key t size hrp
  obtain ⟨d', hround⟩ := receive_round plan head fuel o k size d hne (r := r) (by simpa using hr)
  rw [htake, hdrop, if_neg (by omega)] at hround
  exact ⟨d', hround⟩

theorem receive_faithful (d : List UInt8) (o : ℕ) {n k' : ℕ}
    (h : PayloadWhole plan head.masking_key t.length k size n k') (hn : p.length = n)
    (hpos : 0 < n) (hsize : size + n = head.payload_length) (hle : head.payload_length ≤ BUFFER)
    (hfuel : n < fuel) :
    ∃ ds, receive plan head fuel ⟨maskFrom head.masking_key size p ++ t, o, k⟩ d size =
        some (ds, some ⟨t, o + n, k'⟩) ∧ ds.flatten = p.zipIdx o := by
  induction h generalizing p o d fuel with
  | @last k size n hr hphase =>
    subst hn
    obtain ⟨fuel, rfl⟩ : ∃ m, fuel = m + 1 := ⟨fuel - 1, by omega⟩
    obtain ⟨d', hround⟩ :=
      receive_within plan head fuel o k size d hpos hr (Nat.le_refl _) (by omega)
    rw [if_neg (by omega), List.take_length, List.drop_length, unmask_iff.mpr hphase] at hround
    exact ⟨_, hround, by simp⟩
  | @more k size r n k' hr hlt hphase _ ih =>
    subst hn
    obtain ⟨fuel, rfl⟩ : ∃ m, fuel = m + 1 := ⟨fuel - 1, by omega⟩
    have hrpos : 0 < r := by
      have := readCount_bounds (p := plan k) (m := p.length + t.length) (by omega)
        (show 0 < BUFFER by decide)
      omega
    have hrp : r ≤ p.length := Nat.le_of_lt hlt
    obtain ⟨d', hround⟩ := receive_within plan head fuel o k size d hpos hr hrp (by omega)
    have htake : (p.take r).length = r := by simp [hrp]
    obtain ⟨ds, hds, hflat⟩ := @ih (p.drop r) fuel d' (o + r) (by simp) (by omega) (by omega)
      (by omega)
    rw [if_pos (by omega), hds, unmask_iff.mpr (htake.symm ▸ hphase)] at hround
    refine ⟨_, by rw [hround, show o + p.length = o + r + (p.length - r) by omega]; rfl, ?_⟩
    rw [zipIdx_split r p o hrp, ← hflat]
    rfl

theorem receive_outOfBounds {m : ℕ} (hb : BUFFER < head.payload_length)
    (hsize : size + m = head.payload_length) (hle : size ≤ BUFFER) (hm : m ≤ rest.length)
    {ds : List Delivery} {e : Option Socket}
    (h : receive plan head fuel ⟨rest, o, k⟩ d size = some (ds, e)) : e = none := by
  induction fuel generalizing rest o k d size m ds e with
  | zero => cases h
  | succ fuel ih =>
    have hne : rest ≠ [] := by
      rintro rfl
      simp at hm
      omega
    have hbounds := readCount_bounds (p := plan k) (List.length_pos_iff.mpr hne)
      (show 0 < BUFFER by decide)
    obtain ⟨d', hround⟩ := receive_round plan head fuel o k size d hne rfl
    rw [hround] at h
    by_cases hfault : BUFFER < size + readCount (plan k) BUFFER rest.length
    · rw [if_pos hfault] at h
      cases h
      rfl
    · rw [if_neg hfault, if_pos (by omega), Option.map_eq_some_iff] at h
      obtain ⟨⟨ds', e'⟩, hrec, heq⟩ := h
      cases heq
      exact ih (m := m - readCount (plan k) BUFFER rest.length) (by omega) (by omega)
        (by rw [List.length_drop]; omega) hrec

/-- The first read of a payload delivers from where the connection stands. -/
theorem receive_first (hne : rest ≠ []) {ds : List Delivery} {e : Option Socket}
    (h : receive plan head fuel ⟨rest, o, k⟩ d 0 = some (ds, e)) :
    ∃ b xs, ds.flatten = (b, o) :: xs := by
  cases fuel with
  | zero => cases h
  | succ fuel =>
    have hbounds := readCount_bounds (p := plan k) (List.length_pos_iff.mpr hne)
      (show 0 < BUFFER by decide)
    obtain ⟨d', hround⟩ := receive_round plan head fuel o k 0 d hne rfl
    rw [hround, if_neg (by omega)] at h
    obtain ⟨b, bs, hbs⟩ : ∃ b bs, maskFrom head.masking_key 0
        (rest.take (readCount (plan k) BUFFER rest.length)) = b :: bs := by
      apply List.exists_cons_of_length_pos
      simp
      omega
    rw [hbs] at h
    split at h
    · rw [Option.map_eq_some_iff] at h
      obtain ⟨⟨ds', e'⟩, -, heq⟩ := h
      cases heq
      exact ⟨b, bs.zipIdx (o + 1) ++ ds'.flatten, rfl⟩
    · cases h
      exact ⟨b, bs.zipIdx (o + 1), by simp⟩

/-- A chunk unmasked out of phase is wrong, whatever is delivered after it. -/
theorem out_of_phase_ne {r : ℕ} (hrp : r ≤ p.length) (hphase : ¬ InPhase key size r)
    (more later : Delivery) :
    (maskFrom key 0 (maskFrom key size (p.take r))).zipIdx o ++ more ≠ p.zipIdx o ++ later := by
  have htake : (p.take r).length = r := by simp [hrp]
  intro heq
  rw [zipIdx_split r p o hrp, List.append_assoc] at heq
  have hchunk := (List.append_inj heq (by simp)).1
  have hbytes := congrArg (List.map Prod.fst) hchunk
  rw [List.zipIdx_map_fst, List.zipIdx_map_fst, unmask_iff, htake] at hbytes
  exact hphase hbytes

/-- A chunk longer than the payload delivers the byte after the payload as if it belonged
to it. -/
theorem overrun_ne {chunk : List UInt8} {later : Delivery} (hlong : p.length < chunk.length)
    (hlater : ∀ x ∈ later, o + p.length < x.2) (more : Delivery) :
    chunk.zipIdx o ++ more ≠ p.zipIdx o ++ later := by
  intro heq
  have hget := congrArg (fun l => l[p.length]?) heq
  rw [List.getElem?_append_left (by simpa using hlong), List.getElem?_append_right (by simp),
    List.getElem?_zipIdx, List.length_zipIdx, Nat.sub_self] at hget
  cases hx : later[0]? with
  | none =>
    rw [hx, Option.map_eq_none_iff, List.getElem?_eq_none_iff] at hget
    omega
  | some x =>
    rw [hx, Option.map_eq_some_iff] at hget
    obtain ⟨b, -, rfl⟩ := hget
    have := hlater _ (List.mem_of_getElem? hx)
    simp at this

/-- Once a read passes the end of the payload or a chunk is out of phase, nothing that is
delivered later makes up for it. -/
theorem receive_unfaithful (later : Delivery) (hpos : 0 < p.length)
    (hsize : size + p.length = head.payload_length) (hle : head.payload_length ≤ BUFFER)
    (hlater : ∀ x ∈ later, o + p.length < x.2)
    (h : ∀ k', ¬ PayloadWhole plan head.masking_key t.length k size p.length k')
    {ds : List Delivery} {e : Option Socket}
    (hrun : receive plan head fuel ⟨maskFrom head.masking_key size p ++ t, o, k⟩ d size =
      some (ds, e)) :
    e = none ∨ ∀ ys, ds.flatten ++ ys ≠ p.zipIdx o ++ later := by
  induction fuel generalizing p o k d size ds e with
  | zero => cases hrun
  | succ fuel ih =>
    have hne : maskFrom head.masking_key size p ++ t ≠ [] := by
      intro hnil
      have := congrArg List.length hnil
      simp at this
      simp [this.1] at hpos
    have hlen : (maskFrom head.masking_key size p ++ t).length = p.length + t.length := by simp
    obtain ⟨r, hr⟩ : ∃ r, readCount (plan k) BUFFER (p.length + t.length) = r := ⟨_, rfl⟩
    have hbounds := readCount_bounds (p := plan k) (m := p.length + t.length) (by omega)
      (show 0 < BUFFER by decide)
    rw [hr] at hbounds
    by_cases hrp : r ≤ p.length
    · obtain ⟨d', hround⟩ := receive_within plan head fuel o k size d hpos hr hrp (by omega)
      rw [hround] at hrun
      have htake : (p.take r).length = r := by simp [hrp]
      by_cases hphase : InPhase head.masking_key size r
      · rw [unmask_iff.mpr (htake.symm ▸ hphase)] at hrun
        have hlt : r < p.length := by
          by_contra hge
          obtain rfl : r = p.length := by omega
          exact h _ (.last hr hphase)
        rw [if_pos (by omega), Option.map_eq_some_iff] at hrun
        obtain ⟨⟨ds', e'⟩, hrec, heq⟩ := hrun
        cases heq
        have hdrop : (p.drop r).length = p.length - r := by simp
        rcases ih (p := p.drop r) (o := o + r) (by omega) (by omega) (by
            intro x hx
            have := hlater x hx
            omega) (fun k' hk => h k' (.more hr hlt hphase (hdrop ▸ hk))) hrec with he | hys
        · exact Or.inl he
        · refine Or.inr fun ys heq => hys ys ?_
          rw [zipIdx_split r p o hrp, List.append_assoc] at heq
          simpa using heq
      · right
        -- the chunk itself is wrong, whatever the loop does next
        obtain ⟨ds', hds⟩ : ∃ ds', ds = (maskFrom head.masking_key 0
            (maskFrom head.masking_key size (p.take r))).zipIdx o :: ds' := by
          split at hrun
          · rw [Option.map_eq_some_iff] at hrun
            obtain ⟨⟨ds', e'⟩, -, heq⟩ := hrun
            cases heq
            exact ⟨_, rfl⟩
          · cases hrun
            exact ⟨_, rfl⟩
        intro ys
        rw [hds, List.flatten_cons, List.append_assoc]
        exact out_of_phase_ne hrp hphase _ _
    · obtain ⟨d', hround⟩ := receive_round plan head fuel o k size d hne (r := r) (by rw [hlen, hr])
      rw [hround] at hrun
      by_cases hfault : BUFFER < size + r
      · rw [if_pos hfault] at hrun
        cases hrun
        exact Or.inl rfl
      · right
        rw [if_neg hfault, if_neg (by omega)] at hrun
        cases hrun
        intro ys
        rw [List.flatten_singleton]
        exact overrun_ne (by simp; omega) hlater ys

end Payload

section Run

variable {plan : ℕ → ℕ} {junk : ℕ → ℕ → UInt8}

/-- The reads keep step with the frames from the call `k` on: each header field comes in one
read, a payload is not empty unless its frame is the last, fits the buffer, and its reads stop
at its end in phase with the key. -/
inductive Aligned (plan : ℕ → ℕ) : ℕ → List ClientFrame → Prop where
  | nil (k) : Aligned plan k []
  | empty {k f} : HeaderWhole plan k f.payload.length → f.payload = [] → Aligned plan k [f]
  | cons {k k' f fs} : HeaderWhole plan k f.payload.length → 0 < f.payload.length →
      f.payload.length ≤ BUFFER →
      PayloadWhole plan f.key (wire fs).length (k + headerReads f.payload.length) 0
        f.payload.length k' →
      Aligned plan k' fs → Aligned plan k (f :: fs)

theorem wire_cons (f : ClientFrame) (fs : List ClientFrame) :
    wire (f :: fs) = f.header ++ (maskFrom f.key 0 f.payload ++ wire fs) := by
  simp [wire, ClientFrame.wire]

theorem payloads_after (o : ℕ) (fs : List ClientFrame) : ∀ x ∈ payloads o fs, o + 5 < x.2 := by
  induction fs generalizing o with
  | nil => simp [payloads]
  | cons f fs ih =>
    intro x hx
    have hheader := f.length_header
    rcases List.mem_append.mp hx with hx | hx
    · have := List.le_snd_of_mem_zipIdx hx
      omega
    · have := ih _ x hx
      omega

/-- The rounds of the outer loop: a frame head, its payload, the rest. -/
theorem run_closed {fuel : ℕ} {s s' : Socket} {head : FrameHead} {ds : List Delivery}
    (hhead : recv_frame_head plan junk s = some (head, s'))
    (h : run plan junk (fuel + 1) s = some (ds, .closed)) :
    ∃ es s'' fs, receive plan head (s'.rest.length + 1) s' (List.replicate BUFFER 0) 0 =
        some (es, some s'') ∧ run plan junk fuel s'' = some (fs, .closed) ∧ ds = es ++ fs := by
  rw [run, hhead] at h
  simp only at h
  split at h
  · cases h
  · cases h
  · rename_i es s'' hrec
    rw [Option.map_eq_some_iff] at h
    obtain ⟨⟨fs, e⟩, hrun, heq⟩ := h
    cases heq
    exact ⟨es, s'', fs, hrec, hrun, rfl⟩

theorem run_of_receive {fuel : ℕ} {s s' s'' : Socket} {head : FrameHead} {es fs : List Delivery}
    (hhead : recv_frame_head plan junk s = some (head, s'))
    (hrec : receive plan head (s'.rest.length + 1) s' (List.replicate BUFFER 0) 0 =
      some (es, some s''))
    (hrun : run plan junk fuel s'' = some (fs, .closed)) :
    run plan junk (fuel + 1) s = some (es ++ fs, .closed) := by
  rw [run, hhead]
  simp only [hrec, hrun, Option.map_some]

theorem run_nil (plan : ℕ → ℕ) (junk : ℕ → ℕ → UInt8) (fuel o k : ℕ) :
    run plan junk (fuel + 1) ⟨[], o, k⟩ = some ([], .closed) := by
  simp [run, recv_frame_head]

theorem aligned_faithful {fs : List ClientFrame} {o k fuel : ℕ} (h : Aligned plan k fs)
    (hfuel : (wire fs).length < fuel) :
    ∃ ds, run plan junk fuel ⟨wire fs, o, k⟩ = some (ds, .closed) ∧
      ds.flatten = payloads o fs := by
  induction h generalizing o fuel with
  | nil k =>
    obtain ⟨fuel, rfl⟩ : ∃ m, fuel = m + 1 := ⟨fuel - 1, by omega⟩
    exact ⟨[], run_nil plan junk fuel o k, rfl⟩
  | @empty k f hw hnil =>
    have hlen := f.length_header
    rw [wire_cons, List.length_append] at hfuel
    obtain ⟨fuel, rfl⟩ : ∃ m, fuel = m + 2 := ⟨fuel - 2, by omega⟩
    have hhead := recv_whole junk (maskFrom f.key 0 f.payload ++ wire []) o hw
    have hempty : maskFrom f.key 0 f.payload ++ wire [] = [] := by simp [hnil, wire, maskFrom]
    refine ⟨[], ?_, by simp [payloads, hnil]⟩
    rw [hempty] at hhead
    rw [wire_cons, hempty]
    exact run_of_receive hhead receive_closed (run_nil plan junk fuel _ _)
  | @cons k k' f fs hw hpos hle hpay _ ih =>
    rw [wire_cons, List.length_append, List.length_append] at hfuel
    obtain ⟨fuel, rfl⟩ : ∃ m, fuel = m + 1 := ⟨fuel - 1, by omega⟩
    have hlen := f.length_header
    have hhead := recv_whole junk (maskFrom f.key 0 f.payload ++ wire fs) o hw
    have hrounds : f.payload.length < (maskFrom f.key 0 f.payload ++ wire fs).length + 1 := by
      rw [List.length_append, length_maskFrom]
      omega
    have hsize : 0 + f.payload.length = f.head.payload_length := by simp [ClientFrame.head]
    obtain ⟨es, hes, hflat⟩ := @receive_faithful plan f.head f.payload (wire fs)
      (k + headerReads f.payload.length) _ 0 (List.replicate BUFFER 0) (o + f.header.length) _ _
      hpay rfl hpos hsize hle hrounds
    obtain ⟨ds, hds, hpays⟩ := @ih (o + f.header.length + f.payload.length) fuel (by omega)
    refine ⟨es ++ ds, ?_, ?_⟩
    · rw [wire_cons]
      exact run_of_receive hhead hes hds
    · rw [List.flatten_append, hflat, hpays, payloads]
      simp [ClientFrame.wire, Nat.add_assoc]

theorem payloads_position (o : ℕ) (f : ClientFrame) (fs : List ClientFrame) :
    ∀ x ∈ payloads o (f :: fs), o + f.header.length ≤ x.2 := by
  intro x hx
  rcases List.mem_append.mp hx with hx | hx
  · exact List.le_snd_of_mem_zipIdx hx
  · have := payloads_after _ fs x hx
    simp only [ClientFrame.wire, List.length_append] at this
    omega

theorem faithful_aligned {fs : List ClientFrame} {o k fuel : ℕ} {ds : List Delivery}
    (hrun : run plan junk fuel ⟨wire fs, o, k⟩ = some (ds, .closed))
    (hflat : ds.flatten = payloads o fs) : Aligned plan k fs := by
  induction fs generalizing o k fuel ds with
  | nil => exact .nil k
  | cons f fs ih =>
    cases fuel with
    | zero => cases hrun
    | succ fuel =>
    rw [wire_cons] at hrun
    by_cases hw : HeaderWhole plan k f.payload.length
    · obtain ⟨es, s, fs', hrec, hrest, rfl⟩ := run_closed (recv_whole junk _ o hw) hrun
      rw [List.flatten_append] at hflat
      by_cases hnil : f.payload = []
      · cases fs with
        | nil => exact .empty hw hnil
        | cons g gs =>
          have hne : maskFrom f.key 0 f.payload ++ wire (g :: gs) ≠ [] := by
            simp [wire_cons, ClientFrame.header]
          obtain ⟨b, xs, hb⟩ := receive_first hne hrec
          rw [hb, payloads, hnil] at hflat
          have hmem : (b, o + f.header.length) ∈ payloads (o + f.wire.length) (g :: gs) := by
            rw [show payloads (o + f.wire.length) (g :: gs) = _ from hflat.symm]
            exact List.mem_cons_self
          have := payloads_after _ _ _ hmem
          simp only [ClientFrame.wire, List.length_append] at this
          omega
      · have hpos : 0 < f.payload.length := List.length_pos_iff.mpr hnil
        by_cases hle : f.payload.length ≤ BUFFER
        · by_cases hpay : ∃ k', PayloadWhole plan f.key (wire fs).length
              (k + headerReads f.payload.length) 0 f.payload.length k'
          · obtain ⟨k', hpay⟩ := hpay
            have hsize : 0 + f.payload.length = f.head.payload_length := by
              simp [ClientFrame.head]
            obtain ⟨es', hes, hflat'⟩ := @receive_faithful plan f.head f.payload (wire fs)
              (k + headerReads f.payload.length) _ 0 (List.replicate BUFFER 0)
              (o + f.header.length) _ _ hpay rfl hpos hsize hle
              (show _ < (maskFrom f.key 0 f.payload ++ wire fs).length + 1 by
                rw [List.length_append, length_maskFrom]; omega)
            obtain ⟨rfl, rfl⟩ : es = es' ∧ s = _ := by simpa using hrec.symm.trans hes
            rw [hflat', payloads] at hflat
            refine .cons hw hpos hle hpay (ih hrest ?_)
            rw [List.append_cancel_left hflat]
            simp [ClientFrame.wire, Nat.add_assoc]
          · have hlater : ∀ x ∈ payloads (o + f.wire.length) fs,
                o + f.header.length + f.payload.length < x.2 := by
              intro x hx
              have := payloads_after _ fs x hx
              simp only [ClientFrame.wire, List.length_append, length_maskFrom] at this
              omega
            rcases receive_unfaithful (payloads (o + f.wire.length) fs) hpos
              (by simp [ClientFrame.head]) hle hlater (fun k' hk => hpay ⟨k', hk⟩) hrec with
              he | hys
            · cases he
            · exact absurd hflat (hys _)
        · have hlong : BUFFER < f.head.payload_length := Nat.lt_of_not_le hle
          have hsize : 0 + f.payload.length = f.head.payload_length := by simp [ClientFrame.head]
          have hnone := receive_outOfBounds hlong hsize (Nat.zero_le _) (by simp) hrec
          cases hnone
    · obtain ⟨head, s, hhead, hoff, hne⟩ := recv_part junk
        (maskFrom f.key 0 f.payload ++ wire fs) o hw
      obtain ⟨es, s', fs', hrec, -, rfl⟩ := run_closed hhead hrun
      obtain ⟨b, xs, hb⟩ := receive_first hne hrec
      rw [List.flatten_append, hb] at hflat
      have hmem : (b, s.offset) ∈ payloads o (f :: fs) := by
        rw [← hflat]
        exact List.mem_cons_self
      have := payloads_position o f fs _ hmem
      simp only at this
      omega

/-- The payloads are delivered exactly when the reads keep step with the frames. -/
theorem faithful_iff_aligned (plan : ℕ → ℕ) (junk : ℕ → ℕ → UInt8) (fs : List ClientFrame) :
    Faithful plan junk fs ↔ Aligned plan 0 fs := by
  constructor
  · rintro ⟨ds, hrun, hflat⟩
    exact faithful_aligned hrun hflat
  · intro h
    exact aligned_faithful h (Nat.lt_succ_self _)

theorem payloads_bytes (o : ℕ) (fs : List ClientFrame) :
    (payloads o fs).map Prod.fst = fs.flatMap ClientFrame.payload := by
  induction fs generalizing o with
  | nil => rfl
  | cons f fs ih => simp [payloads, ih]

theorem Faithful.delivers {fs : List ClientFrame} (h : Faithful plan junk fs) :
    DeliversPayloads plan junk fs := by
  obtain ⟨ds, hrun, hflat⟩ := h
  exact ⟨ds, hrun, by rw [hflat, payloads_bytes]⟩

/-- A read gets at least a byte, no more than it asks for, and takes it from the stream. -/
theorem readSome_bounds {n : ℕ} {s s' : Socket} {b : List UInt8} (hn : 0 < n)
    (h : s.readSome plan n = some (b, s')) :
    0 < b.length ∧ b.length ≤ n ∧ b.length + s'.rest.length = s.rest.length := by
  unfold Socket.readSome at h
  split at h
  · cases h
  · rename_i hne
    have hpos := List.length_pos_iff.mpr hne
    have := readCount_bounds (p := plan s.calls) hpos hn
    obtain ⟨rfl, rfl⟩ : _ = b ∧ _ = s' := by simpa [Socket.read] using h
    simp only [List.length_take, List.length_drop]
    omega

theorem readSome_shrinks {n : ℕ} {s s' : Socket} {b : List UInt8} (hn : 0 < n)
    (h : s.readSome plan n = some (b, s')) : s'.rest.length < s.rest.length := by
  have := readSome_bounds hn h
  omega

theorem recv_shrinks {s s' : Socket} {head : FrameHead}
    (h : recv_frame_head plan junk s = some (head, s')) : s'.rest.length < s.rest.length := by
  simp only [recv_frame_head, Option.bind_eq_bind, Option.bind_eq_some_iff] at h
  obtain ⟨⟨b₁, s₁⟩, h₁, ⟨b₂, s₂⟩, h₂, ⟨n, s₃⟩, h₃, ⟨b₄, s₄⟩, h₄, heq⟩ := h
  have lt₁ := readSome_shrinks (by decide) h₁
  have lt₂ := readSome_shrinks (by decide) h₂
  have lt₄ := readSome_shrinks (by decide) h₄
  have lt₃ : s₃.rest.length ≤ s₂.rest.length := by
    simp only [extendedLength, Option.bind_eq_bind] at h₃
    split at h₃
    · obtain ⟨⟨b, s⟩, hs, hpair⟩ := Option.bind_eq_some_iff.mp h₃
      obtain ⟨-, rfl⟩ : _ = n ∧ s = s₃ := by simpa using hpair
      exact Nat.le_of_lt (readSome_shrinks (by decide) hs)
    · split at h₃
      · obtain ⟨⟨b, s⟩, hs, hpair⟩ := Option.bind_eq_some_iff.mp h₃
        obtain ⟨-, rfl⟩ : _ = n ∧ s = s₃ := by simpa using hpair
        exact Nat.le_of_lt (readSome_shrinks (by decide) hs)
      · obtain ⟨-, rfl⟩ : _ = n ∧ s₂ = s₃ := by simpa using h₃
        exact Nat.le_refl _
  obtain ⟨-, rfl⟩ : _ = head ∧ s₄ = s' := by simpa using heq
  simp only at lt₁ lt₂ lt₃ lt₄
  omega

theorem receive_total (plan : ℕ → ℕ) (head : FrameHead) (d : List UInt8) (size : ℕ) {fuel : ℕ}
    {s : Socket} (h : s.rest.length < fuel) :
    ∃ ds e, receive plan head fuel s d size = some (ds, e) ∧
      ∀ s', e = some s' → s'.rest.length ≤ s.rest.length := by
  induction fuel generalizing s d size with
  | zero => omega
  | succ fuel ih =>
    cases hread : s.readSome plan BUFFER with
    | none => exact ⟨[], some s, by simp [receive, hread], by simp⟩
    | some p =>
      obtain ⟨b, s'⟩ := p
      have hlt := readSome_shrinks (by decide) hread
      simp only [receive, hread]
      split
      · exact ⟨[], none, rfl, by simp⟩
      · split
        · obtain ⟨ds, e, hds, he⟩ := ih (umask (b ++ d.drop b.length) (size + b.length)
            head.masking_key) (size + b.length) (s := s') (by omega)
          refine ⟨_, e, by rw [hds]; rfl, fun s'' hs'' => ?_⟩
          have := he s'' hs''
          omega
        · refine ⟨_, some s', rfl, ?_⟩
          rintro _ ⟨⟩
          omega

/-- The loop always ends: the fuel counts bytes, and every round takes some. -/
theorem run_total (plan : ℕ → ℕ) (junk : ℕ → ℕ → UInt8) {fuel : ℕ} {s : Socket}
    (h : s.rest.length < fuel) : ∃ ds e, run plan junk fuel s = some (ds, e) := by
  induction fuel generalizing s with
  | zero => omega
  | succ fuel ih =>
    cases hhead : recv_frame_head plan junk s with
    | none => exact ⟨[], .closed, by simp [run, hhead]⟩
    | some p =>
      obtain ⟨head, s'⟩ := p
      have hlt := recv_shrinks hhead
      obtain ⟨ds, e, hds, he⟩ := receive_total plan head (List.replicate BUFFER 0) 0
        (Nat.lt_succ_self s'.rest.length)
      cases e with
      | none => exact ⟨ds, .outOfBounds, by simp [run, hhead, hds]⟩
      | some s'' =>
        have := he s'' rfl
        obtain ⟨es, e, hes⟩ := @ih s'' (by omega)
        exact ⟨ds ++ es, e, by simp [run, hhead, hds, hes]⟩

def greeting : ClientFrame := ⟨.text, [1, 2, 3, 4], [104, 105], rfl, by decide⟩

/-- Two frames that arrive together: the second is taken for payload of the first. -/
theorem faithful_fails_coalesced :
    ¬ DeliversPayloads (fun _ => 2000) (fun _ _ => 0) [greeting, greeting] := by
  have hrun : run (fun _ => 2000) (fun _ _ => 0) 17 ⟨wire [greeting, greeting], 0, 0⟩ =
      some ([[(104, 6), (105, 7), (130, 8), (134, 9), (0, 10), (0, 11), (0, 12), (0, 13),
        (104, 14), (105, 15)]], .closed) := by decide +kernel
  rintro ⟨ds, hds, hbytes⟩
  obtain rfl := (Prod.mk.inj (Option.some.inj (hrun.symm.trans hds))).1
  exact absurd hbytes (by decide)

end Run

end WebSocketFrames
