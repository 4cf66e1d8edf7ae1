import AndroidDebug.CheckedFold
import AndroidDebug.JavaText
import AndroidDebug.LengthFraming
import Mathlib.Tactic.Linarith

/-! The message format between proxy client and proxy server: ProxyMessageEncoder writes
a message as one length-prefixed frame, ProxyMessageDecoder reads a frame back.
Java bytes and longs are kept as bit patterns; `signed` reads one as a number. -/
namespace ProxyMessageCodec

open CheckedFold JavaText LengthFraming

structure ProxyMessage where
  type : UInt8 := 0
  serialNumber : UInt64 := 0
  uri : Option JString := none
  data : Option (List UInt8) := none
  deriving DecidableEq, Repr

def C_TYPE_AUTH : UInt8 := 0x01
def TYPE_CONNECT : UInt8 := 0x03
def TYPE_DISCONNECT : UInt8 := 0x04
def P_TYPE_TRANSFER : UInt8 := 0x05

def HEADER_SIZE : ℕ := 4
def TYPE_SIZE : ℕ := 1
def SERIAL_NUMBER_SIZE : ℕ := 8
def URI_LENGTH_SIZE : ℕ := 1

def MAX_FRAME_LENGTH : ℕ := 1024 * 1024
def LENGTH_FIELD_LENGTH : ℕ := 4

/-- The length written is a Java int, so only its low 32 bits reach the wire; likewise
only the low 8 bits of the uri length. -/
def encode (msg : ProxyMessage) : List UInt8 :=
  let uriBytes := msg.uri.map getBytes
  let bodyLength := TYPE_SIZE + SERIAL_NUMBER_SIZE + URI_LENGTH_SIZE
    + (uriBytes.map List.length).getD 0 + (msg.data.map List.length).getD 0
  be 4 bodyLength ++ [msg.type] ++ be 8 msg.serialNumber.toNat ++
    (match uriBytes with
      | some bytes => UInt8.ofNat bytes.length :: bytes
      | none => [0x00]) ++
    msg.data.getD []

/-- A bit pattern of `width` bits read as a signed Java integer. -/
def signed (width : ℕ) (n : ℤ) : ℤ := Int.bmod n (2 ^ width)

inductive DecodeError where
  | negativeArraySize | indexOutOfBounds
  deriving DecidableEq, Repr

def readBytes (n : ℕ) (buf : List UInt8) : Except DecodeError (List UInt8 × List UInt8) :=
  if n ≤ buf.length then .ok (buf.take n, buf.drop n) else .error .indexOutOfBounds

def newArray (n : ℤ) : Except DecodeError ℕ :=
  if n < 0 then .error .negativeArraySize else .ok n.toNat

/-- The part of `decode` after `readInt`; `none` is a null result. -/
def decodeBody (malformed : List UInt8 → JString) (frameLength : ℤ) (buf : List UInt8) :
    Except DecodeError (Option ProxyMessage) :=
  if (buf.length : ℤ) < frameLength then .ok none
  else do
    let (type, buf) ← readBytes 1 buf
    let (sn, buf) ← readBytes 8 buf
    let (uriLengthByte, buf) ← readBytes 1 buf
    let uriLength := signed 8 (readBE uriLengthByte)
    let uriSize ← newArray uriLength
    let (uriBytes, buf) ← readBytes uriSize buf
    let dataSize ← newArray (signed 32
      (frameLength - TYPE_SIZE - SERIAL_NUMBER_SIZE - URI_LENGTH_SIZE - uriLength))
    let (data, _) ← readBytes dataSize buf
    .ok (some { type := UInt8.ofNat (readBE type), serialNumber := UInt64.ofNat (readBE sn),
                uri := some (newString malformed uriBytes), data := some data })

/-- `decode` on a frame cut by `super.decode`. -/
def decode (malformed : List UInt8 → JString) (frame : List UInt8) :
    Except DecodeError (Option ProxyMessage) :=
  if frame.length < HEADER_SIZE then .ok none
  else do
    let (lengthField, buf) ← readBytes HEADER_SIZE frame
    decodeBody malformed (signed 32 (readBE lengthField)) buf

/-- What the decoder makes of a null uri or null data. -/
def ProxyMessage.normalize (m : ProxyMessage) : ProxyMessage :=
  { m with uri := some (m.uri.getD []), data := some (m.data.getD []) }

/-- The uri is proper UTF-16 of at most 127 bytes in UTF-8 and the frame is within the limit. -/
structure ProxyMessage.Encodable (m : ProxyMessage) : Prop where
  uri_wellFormed : WellFormed (m.uri.getD [])
  uri_short : (getBytes (m.uri.getD [])).length ≤ 127
  frame_short : (encode m).length ≤ MAX_FRAME_LENGTH

instance (m : ProxyMessage) : Decidable m.Encodable :=
  decidable_of_iff (WellFormed (m.uri.getD []) ∧ (getBytes (m.uri.getD [])).length ≤ 127 ∧
      (encode m).length ≤ MAX_FRAME_LENGTH)
    ⟨fun ⟨a, b, c⟩ => ⟨a, b, c⟩, fun ⟨a, b, c⟩ => ⟨a, b, c⟩⟩

def ProxyMessage.uriBytes (m : ProxyMessage) : List UInt8 := getBytes (m.uri.getD [])
def ProxyMessage.body (m : ProxyMessage) : List UInt8 :=
  [m.type] ++ (be 8 m.serialNumber.toNat ++
    ([UInt8.ofNat m.uriBytes.length] ++ (m.uriBytes ++ m.data.getD [])))

theorem length_body (m : ProxyMessage) :
    m.body.length = 10 + m.uriBytes.length + (m.data.getD []).length := by
  simp only [ProxyMessage.body, List.length_append, List.length_singleton, length_be]
  omega

/-- A null uri is written like the empty one, null data like none. -/
theorem encode_eq (m : ProxyMessage) : encode m = be 4 m.body.length ++ m.body := by
  have hd : (m.data.map List.length).getD 0 = (m.data.getD []).length := by
    cases m.data <;> rfl
  rw [length_body]
  unfold encode ProxyMessage.body ProxyMessage.uriBytes
  cases hu : m.uri with
  | none => simp [hd, TYPE_SIZE, SERIAL_NUMBER_SIZE, URI_LENGTH_SIZE]
  | some u => simp [hd, TYPE_SIZE, SERIAL_NUMBER_SIZE, URI_LENGTH_SIZE]

theorem readBytes_append {n : ℕ} {a : List UInt8} (h : a.length = n) (b : List UInt8) :
    readBytes n (a ++ b) = .ok (a, b) := by
  unfold readBytes
  rw [if_pos (by simp [← h]), List.take_left' h, List.drop_left' h]

theorem readBytes_all (a : List UInt8) : readBytes a.length a = .ok (a, []) := by
  simp [readBytes]

theorem newArray_natCast (n : ℕ) : newArray n = .ok n := by
  unfold newArray
  rw [if_neg (by omega), Int.toNat_natCast]

theorem signed_of_lt {width n : ℕ} (h : 2 * n < 2 ^ width) : signed width n = n :=
  Int.bmod_eq_of_le (by omega) (by omega)

theorem body_bounds {m : ProxyMessage} (h : m.Encodable) :
    m.uriBytes.length ≤ 127 ∧ m.body.length + 4 ≤ MAX_FRAME_LENGTH := by
  have hf := h.frame_short
  rw [encode_eq, List.length_append, length_be] at hf
  exact ⟨h.uri_short, by omega⟩

theorem encode_isFrame {m : ProxyMessage} (h : m.Encodable) :
    IsFrame LENGTH_FIELD_LENGTH (encode m) := by
  have hb := (body_bounds h).2
  rw [encode_eq]
  exact isFrame_mk rfl (by unfold MAX_FRAME_LENGTH at hb; unfold LENGTH_FIELD_LENGTH; omega)

theorem readBE_singleton (b : UInt8) : readBE [b] = b.toNat := by simp [readBE]

/-- A body laid out in the encoder's order is read back field by field. -/
theorem decodeBody_layout (malformed : List UInt8 → JString) (type : UInt8) {sn ub : ℕ}
    {uriBytes data : List UInt8} (hsn : sn < 256 ^ 8) (hu : uriBytes.length = ub)
    (hub : ub ≤ 127) (hl : 10 + ub + data.length < 2 ^ 31) :
    decodeBody malformed (10 + ub + data.length : ℕ)
        ([type] ++ (be 8 sn ++ ([UInt8.ofNat ub] ++ (uriBytes ++ data)))) =
      .ok (some { type := type, serialNumber := UInt64.ofNat sn,
                  uri := some (newString malformed uriBytes), data := some data }) := by
  have huri : signed 8 (readBE [UInt8.ofNat ub]) = ub := by
    rw [readBE_singleton, UInt8.toNat_ofNat', Nat.mod_eq_of_lt (by omega)]
    exact signed_of_lt (by omega)
  have hdata : signed 32 (((10 + ub + data.length : ℕ) : ℤ) - TYPE_SIZE - SERIAL_NUMBER_SIZE
      - URI_LENGTH_SIZE - ub) = (data.length : ℕ) := by
    have he : ((10 + ub + data.length : ℕ) : ℤ) - TYPE_SIZE - SERIAL_NUMBER_SIZE
        - URI_LENGTH_SIZE - ub = (data.length : ℕ) := by
      unfold TYPE_SIZE SERIAL_NUMBER_SIZE URI_LENGTH_SIZE
      omega
    rw [he]
    exact signed_of_lt (by omega)
  unfold decodeBody
  rw [if_neg (by simp; omega)]
  simp only [ok_bind, readBytes_append (show [type].length = 1 from rfl),
    readBytes_append (length_be 8 sn), readBytes_append (show [UInt8.ofNat ub].length = 1 from rfl),
    huri, newArray_natCast, readBytes_append hu, hdata, readBytes_all]
  simp [readBE_singleton, readBE_be hsn]

theorem decode_frame (malformed : List UInt8 → JString) {n : ℕ} (hn : n < 2 ^ 31)
    (body : List UInt8) : decode malformed (be 4 n ++ body) = decodeBody malformed n body := by
  have hframe : signed 32 (readBE (be 4 n)) = n := by
    rw [readBE_be (by omega)]
    exact signed_of_lt (by omega)
  unfold decode
  rw [if_neg (by simp [HEADER_SIZE]), readBytes_append (by simp [HEADER_SIZE])]
  rw [ok_bind]
  simp only [hframe]

/-- The decoder's offsets meet the encoder's: each read takes the field written there. -/
theorem decode_encode (malformed : List UInt8 → JString) {m : ProxyMessage}
    (h : m.Encodable) : decode malformed (encode m) = .ok (some m.normalize) := by
  obtain ⟨hu, hb⟩ := body_bounds h
  have hlen := length_body m
  have hsn : m.serialNumber.toNat < 256 ^ 8 := m.serialNumber.toNat_lt
  have hstr : newString malformed m.uriBytes = m.uri.getD [] :=
    newString_getBytes malformed h.uri_wellFormed
  have hl : 10 + m.uriBytes.length + (m.data.getD []).length < 2 ^ 31 := by
    unfold MAX_FRAME_LENGTH at hb
    omega
  rw [encode_eq, decode_frame malformed (by rw [hlen]; exact hl), hlen]
  unfold ProxyMessage.body
  rw [decodeBody_layout malformed m.type hsn rfl hu hl, hstr, UInt64.ofNat_toNat,
    ProxyMessage.normalize]

/-- What the client's pipeline makes of the chunks read from the socket. -/
def received (malformed : List UInt8 → JString) (d : FrameDecoder)
    (chunks : List (List UInt8)) : List (Except DecodeError (Option ProxyMessage)) :=
  (d.run d.init chunks).map (decode malformed)

/-- The frame decoder hands out the encoder's frames whatever the cuts, and each frame
decodes by itself, so no state of this codec spans a cut. -/
theorem stream_round_trip (malformed : List UInt8 → JString) (d : FrameDecoder)
    (hd : d.EmitsSlices LENGTH_FIELD_LENGTH MAX_FRAME_LENGTH) (msgs : List ProxyMessage)
    (hm : ∀ m ∈ msgs, m.Encodable) (chunks : List (List UInt8))
    (hc : chunks.flatten = (msgs.map encode).flatten) :
    received malformed d chunks = msgs.map fun m => .ok (some m.normalize) := by
  have hframes : d.run d.init chunks = msgs.map encode := by
    apply hd _ _ _ hc
    intro f hf
    obtain ⟨m, hmem, rfl⟩ := List.mem_map.mp hf
    exact ⟨encode_isFrame (hm m hmem), (hm m hmem).frame_short⟩
  rw [received, hframes, List.map_map]
  apply List.map_congr_left
  intro m hmem
  rw [Function.comp_apply, decode_encode malformed (hm m hmem)]

def connectNotice : ProxyMessage :=
  { type := TYPE_CONNECT, serialNumber := 7, uri := some (ofString "user@é"), data := none }

def transferNotice : ProxyMessage :=
  { type := P_TYPE_TRANSFER, uri := none, data := some [1, 2, 3] }

/-- The cut falls inside the length field of the second message. -/
theorem stream_round_trip_split_header :
    received (fun _ => []) (cumulator 4 MAX_FRAME_LENGTH)
        [(encode connectNotice ++ encode transferNotice).take 23,
          (encode connectNotice ++ encode transferNotice).drop 23] =
      [.ok (some connectNotice.normalize), .ok (some transferNotice.normalize)] :=
  stream_round_trip (fun _ => []) (cumulator 4 MAX_FRAME_LENGTH)
    (cumulator_emitsSlices (by decide)) [connectNotice, transferNotice]
    (by decide) _ (by simp)

end ProxyMessageCodec
