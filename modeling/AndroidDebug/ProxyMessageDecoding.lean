import AndroidDebug.ProxyMessageCodec

/-! ProxyMessageDecoder.decode with the buffer it reads: the frame handed over by
`super.decode` holds one reference, given back by the last statement only. Over it, the
frames decoded cleanly and the messages that survive the length byte of their uri. -/
namespace ProxyMessageDecoding

open CheckedFold JavaText LengthFraming ProxyMessageCodec

structure ByteBuf where
  readable : List UInt8
  refCnt : ℕ
  deriving DecidableEq, Repr

/-- What a statement does: its value or exception, and the buffer it leaves. -/
abbrev Outcome (α : Type) := Except DecodeError α × ByteBuf

def andThen {α β : Type} (r : Outcome α) (f : α → ByteBuf → Outcome β) : Outcome β :=
  match r with
  | (.ok a, buf) => f a buf
  | (.error e, buf) => (.error e, buf)

/-- `readBytes(dst)` takes nothing when the buffer holds too few bytes. -/
def ByteBuf.readBytes (n : ℕ) (buf : ByteBuf) : Outcome (List UInt8) :=
  if n ≤ buf.readable.length then
    (.ok (buf.readable.take n), { buf with readable := buf.readable.drop n })
  else (.error .indexOutOfBounds, buf)

def ByteBuf.newArray (n : ℤ) (buf : ByteBuf) : Outcome ℕ :=
  if n < 0 then (.error .negativeArraySize, buf) else (.ok n.toNat, buf)

def ByteBuf.release (buf : ByteBuf) : ByteBuf := { buf with refCnt := buf.refCnt - 1 }

def decode (malformed : List UInt8 → JString) (buf : ByteBuf) : Outcome (Option ProxyMessage) :=
  if buf.readable.length < HEADER_SIZE then (.ok none, buf)
  else
    andThen (buf.readBytes HEADER_SIZE) fun lengthField buf =>
    let frameLength := signed 32 (readBE lengthField)
    if (buf.readable.length : ℤ) < frameLength then (.ok none, buf)
    else
      andThen (buf.readBytes 1) fun type buf =>
      andThen (buf.readBytes 8) fun sn buf =>
      andThen (buf.readBytes 1) fun uriLengthByte buf =>
      let uriLength := signed 8 (readBE uriLengthByte)
      andThen (buf.newArray uriLength) fun uriSize buf =>
      andThen (buf.readBytes uriSize) fun uriBytes buf =>
      andThen (buf.newArray (signed 32
        (frameLength - TYPE_SIZE - SERIAL_NUMBER_SIZE - URI_LENGTH_SIZE - uriLength)))
        fun dataSize buf =>
      andThen (buf.readBytes dataSize) fun data buf =>
      (.ok (some { type := UInt8.ofNat (readBE type), serialNumber := UInt64.ofNat (readBE sn),
                   uri := some (newString malformed uriBytes), data := some data }), buf.release)

def handedOver (frame : List UInt8) : ByteBuf := ⟨frame, 1⟩

/-- A buffer of `refs` references has one fewer after a message. -/
def refsAfter {α : Type} (refs : ℕ) : Except DecodeError (Option α) → ℕ
  | .ok (some _) => refs - 1
  | _ => refs

structure Refines {α : Type} (refs : ℕ) (r : Outcome (Option α))
    (e : Except DecodeError (Option α)) : Prop where
  value : r.1 = e
  refCnt : r.2.refCnt = refsAfter refs e

variable {α : Type} {refs : ℕ}

theorem refines_readBytes {n : ℕ} {bytes : List UInt8}
    {f : List UInt8 → ByteBuf → Outcome (Option α)}
    {g : List UInt8 × List UInt8 → Except DecodeError (Option α)}
    (h : ∀ taken left, Refines refs (f taken ⟨left, refs⟩) (g (taken, left))) :
    Refines refs (andThen (ByteBuf.readBytes n ⟨bytes, refs⟩) f)
      (ProxyMessageCodec.readBytes n bytes >>= g) := by
  rw [ByteBuf.readBytes, ProxyMessageCodec.readBytes]
  by_cases hn : n ≤ bytes.length
  · rw [if_pos hn, if_pos hn]
    exact h _ _
  · rw [if_neg hn, if_neg hn]
    exact ⟨rfl, rfl⟩

theorem refines_newArray {n : ℤ} {bytes : List UInt8} {f : ℕ → ByteBuf → Outcome (Option α)}
    {g : ℕ → Except DecodeError (Option α)}
    (h : ∀ size, Refines refs (f size ⟨bytes, refs⟩) (g size)) :
    Refines refs (andThen (ByteBuf.newArray n ⟨bytes, refs⟩) f)
      (ProxyMessageCodec.newArray n >>= g) := by
  rw [ByteBuf.newArray, ProxyMessageCodec.newArray]
  by_cases hn : n < 0
  · rw [if_pos hn, if_pos hn]
    exact ⟨rfl, rfl⟩
  · rw [if_neg hn, if_neg hn]
    exact h _

/-- Every statement reads what `ProxyMessageCodec.decode` reads, and only the path that builds
a message passes the release. -/
theorem decode_refines (malformed : List UInt8 → JString) (frame : List UInt8) :
    Refines refs (decode malformed ⟨frame, refs⟩) (ProxyMessageCodec.decode malformed frame) := by
  rw [decode, ProxyMessageCodec.decode]
  by_cases hh : frame.length < HEADER_SIZE
  · rw [if_pos hh, if_pos hh]
    exact ⟨rfl, rfl⟩
  rw [if_neg hh, if_neg hh]
  apply refines_readBytes
  intro lengthField buf
  dsimp only
  unfold decodeBody
  by_cases hl : (buf.length : ℤ) < signed 32 (readBE lengthField)
  · rw [if_pos hl, if_pos hl]
    exact ⟨rfl, rfl⟩
  rw [if_neg hl, if_neg hl]
  refine refines_readBytes fun type buf => refines_readBytes fun sn buf =>
    refines_readBytes fun uriLengthByte buf => refines_newArray fun uriSize =>
    refines_readBytes fun uriBytes buf => refines_newArray fun dataSize =>
    refines_readBytes fun data buf => ⟨rfl, rfl⟩

theorem newArray_uriLength (b : UInt8) :
    newArray (signed 8 (readBE [b])) =
      if b.toNat < 128 then .ok b.toNat else .error .negativeArraySize := by
  have hb := b.toNat_lt
  rw [readBE_singleton]
  by_cases h : b.toNat < 128
  · rw [if_pos h, signed_of_lt (by omega), newArray_natCast]
  · have hs : signed 8 b.toNat = b.toNat - 256 := by
      unfold signed
      rw [Int.bmod_def]
      omega
    rw [if_neg h, hs, newArray, if_pos (by omega)]

/-- A body long enough for the fixed fields is decoded as far as its uri length byte says. -/
theorem decodeBody_fields (malformed : List UInt8 → JString) (type uriLength : UInt8)
    {sn rest : List UInt8} (hsn : sn.length = 8) (hl : 10 + rest.length < 2 ^ 31) :
    decodeBody malformed (10 + rest.length : ℕ) ([type] ++ (sn ++ ([uriLength] ++ rest))) =
      if uriLength.toNat < 128 then
        if uriLength.toNat ≤ rest.length then
          .ok (some { type := type, serialNumber := UInt64.ofNat (readBE sn),
                      uri := some (newString malformed (rest.take uriLength.toNat)),
                      data := some (rest.drop uriLength.toNat) })
        else .error .indexOutOfBounds
      else .error .negativeArraySize := by
  have hu := newArray_uriLength uriLength
  unfold decodeBody
  rw [if_neg (by simp [hsn]; omega)]
  simp only [ok_bind, readBytes_append (show [type].length = 1 from rfl), readBytes_append hsn,
    readBytes_append (show [uriLength].length = 1 from rfl), hu]
  by_cases hb : uriLength.toNat < 128
  · rw [if_pos hb, if_pos hb, ok_bind]
    have hsigned : signed 8 (readBE [uriLength]) = uriLength.toNat := by
      rw [readBE_singleton]
      exact signed_of_lt (by omega)
    by_cases hr : uriLength.toNat ≤ rest.length
    · have hdata : signed 32 (((10 + rest.length : ℕ) : ℤ) - TYPE_SIZE - SERIAL_NUMBER_SIZE
          - URI_LENGTH_SIZE - uriLength.toNat) = (rest.drop uriLength.toNat).length := by
        have he : ((10 + rest.length : ℕ) : ℤ) - TYPE_SIZE - SERIAL_NUMBER_SIZE
            - URI_LENGTH_SIZE - uriLength.toNat = (rest.drop uriLength.toNat).length := by
          rw [List.length_drop]
          unfold TYPE_SIZE SERIAL_NUMBER_SIZE URI_LENGTH_SIZE
          omega
        rw [he]
        exact signed_of_lt (by rw [List.length_drop]; omega)
      have huri : ProxyMessageCodec.readBytes uriLength.toNat rest =
          .ok (rest.take uriLength.toNat, rest.drop uriLength.toNat) := if_pos hr
      rw [if_pos hr, hsigned, huri]
      simp only [ok_bind, hdata, newArray_natCast, readBytes_all]
      rw [readBE_singleton, UInt8.ofNat_toNat]
    · have huri : ProxyMessageCodec.readBytes uriLength.toNat rest = .error .indexOutOfBounds :=
        if_neg hr
      rw [if_neg hr, huri]
      rfl
  · rw [if_neg hb, if_neg hb]
    rfl

/-- The uri length byte of a body; a body of less than ten bytes has none. -/
def uriLengthByte (body : List UInt8) : Option UInt8 := body[9]?

theorem exists_fields {body : List UInt8} (h : 10 ≤ body.length) :
    ∃ type sn uriLength rest, sn.length = 8 ∧ body = [type] ++ (sn ++ ([uriLength] ++ rest)) := by
  obtain ⟨type, tail, rfl⟩ : ∃ type tail, body = type :: tail :=
    List.exists_cons_of_length_pos (by omega)
  have hlen : 9 ≤ tail.length := by simpa using h
  obtain ⟨uriLength, rest, hdrop⟩ : ∃ uriLength rest, tail.drop 8 = uriLength :: rest :=
    List.exists_cons_of_length_pos (by rw [List.length_drop]; omega)
  refine ⟨type, tail.take 8, uriLength, rest, by rw [List.length_take]; omega, ?_⟩
  rw [List.singleton_append, List.singleton_append, ← hdrop, List.take_append_drop]

theorem uriLengthByte_fields (type uriLength : UInt8) {sn : List UInt8} (rest : List UInt8)
    (hsn : sn.length = 8) : uriLengthByte ([type] ++ (sn ++ ([uriLength] ++ rest))) =
      some uriLength := by
  rw [uriLengthByte, List.singleton_append, List.getElem?_cons_succ,
    List.getElem?_append_right (by omega), hsn]
  rfl

theorem decodeBody_short (malformed : List UInt8 → JString) {body : List UInt8}
    (h : body.length < 10) :
    decodeBody malformed body.length body = .error .indexOutOfBounds := by
  unfold decodeBody ProxyMessageCodec.readBytes
  rw [if_neg (by omega)]
  by_cases h1 : 1 ≤ body.length
  · rw [if_pos h1, ok_bind]
    by_cases h9 : 8 ≤ (body.drop 1).length
    · have h10 : ¬1 ≤ ((body.drop 1).drop 8).length := by
        rw [List.length_drop, List.length_drop]
        omega
      simp only [if_pos h9, ok_bind, if_neg h10]
      rfl
    · simp only [if_neg h9]
      rfl
  · rw [if_neg h1]
    rfl

/-- The fields the uri length byte announces lie in the body, and the byte is not negative. -/
def Announced (body : List UInt8) : Prop :=
  ∃ u, uriLengthByte body = some u ∧ u.toNat ≤ 127 ∧ 10 + u.toNat ≤ body.length

theorem decodeBody_ok_iff (malformed : List UInt8 → JString) {body : List UInt8}
    (hl : body.length < 2 ^ 31) :
    (∃ m, decodeBody malformed body.length body = .ok (some m)) ↔ Announced body := by
  by_cases h : body.length < 10
  · have hnone : uriLengthByte body = none := List.getElem?_eq_none (by omega)
    rw [decodeBody_short malformed h]
    simp [Announced, hnone]
  obtain ⟨type, sn, uriLength, rest, hsn, rfl⟩ := exists_fields (Nat.le_of_not_lt h)
  have hlen : ([type] ++ (sn ++ ([uriLength] ++ rest))).length = 10 + rest.length := by
    simp only [List.length_append, List.length_singleton, hsn]
    omega
  rw [hlen] at hl
  unfold Announced
  rw [hlen, decodeBody_fields malformed type uriLength hsn hl,
    uriLengthByte_fields type uriLength rest hsn]
  split
  · split <;> simp <;> omega
  · simp
    omega

/-- What the decoder is to do with a frame whose length field counts `body`. -/
structure Clean (malformed : List UInt8 → JString) (body : List UInt8) : Prop where
  no_negative_array : (decode malformed (handedOver (be 4 body.length ++ body))).1 ≠
    .error .negativeArraySize
  no_overrun : (decode malformed (handedOver (be 4 body.length ++ body))).1 ≠
    .error .indexOutOfBounds
  released : (decode malformed (handedOver (be 4 body.length ++ body))).2.refCnt = 0
  message_iff : (∃ m, (decode malformed (handedOver (be 4 body.length ++ body))).1 =
    .ok (some m)) ↔ ∃ u, uriLengthByte body = some u ∧ 10 + u.toNat ≤ body.length

theorem released_iff (malformed : List UInt8 → JString) (frame : List UInt8) :
    (decode malformed (handedOver frame)).2.refCnt = 0 ↔
      ∃ m, (decode malformed (handedOver frame)).1 = .ok (some m) := by
  obtain ⟨hv, hc⟩ : Refines 1 (decode malformed ⟨frame, 1⟩) _ := decode_refines malformed frame
  rw [handedOver, hc, hv]
  cases ProxyMessageCodec.decode malformed frame with
  | error e => simp [refsAfter]
  | ok r => cases r <;> simp [refsAfter]

/-- A frame is released on the path that returns a message only, and that path is taken when
the announced fields lie in the body. -/
theorem clean_iff (malformed : List UInt8 → JString) (body : List UInt8)
    (hl : body.length ≤ 1024 * 1024 - 4) : Clean malformed body ↔ Announced body := by
  have hvalue : (decode malformed (handedOver (be 4 body.length ++ body))).1 =
      decodeBody malformed body.length body := by
    rw [← decode_frame malformed (by omega)]
    exact (decode_refines malformed _).value
  have hok : _ ↔ Announced body := decodeBody_ok_iff malformed (by omega)
  rw [← hvalue] at hok
  constructor
  · intro h
    exact hok.mp ((released_iff malformed _).mp h.released)
  · intro h
    have hmessage := hok.mpr h
    have hreleased := (released_iff malformed _).mpr hmessage
    obtain ⟨u, hu, -, hlen⟩ := h
    refine ⟨?_, ?_, hreleased, iff_of_true hmessage ⟨u, hu, hlen⟩⟩
    all_goals
      obtain ⟨m, hm⟩ := hmessage
      rw [hm]
      exact nofun

theorem clean_iff_heartbeat :
    Clean (fun _ => []) (UInt8.ofNat 7 :: List.replicate 9 0) ↔
      Announced (UInt8.ofNat 7 :: List.replicate 9 0) :=
  clean_iff (fun _ => []) _ (by decide)

/-- A frame of a length field alone, counting a body of no bytes. -/
theorem not_clean_empty_body : ¬∀ body : List UInt8, body.length ≤ 1024 * 1024 - 4 →
    Clean (fun _ => []) body := by
  intro h
  exact absurd (h [] (by decide)).released (by decide)

theorem decode_encode_iff (malformed : List UInt8 → JString) {m : ProxyMessage}
    (h : (encode m).length ≤ MAX_FRAME_LENGTH) :
    ProxyMessageCodec.decode malformed (encode m) = .ok (some m.normalize) ↔
      WellFormed (m.uri.getD []) ∧ (getBytes (m.uri.getD [])).length ≤ 127 := by
  refine ⟨fun hd => ?_, fun ⟨hw, hu⟩ => decode_encode malformed ⟨hw, hu, h⟩⟩
  have hlen := length_body m
  have hframe : m.body.length + 4 ≤ 1024 * 1024 := by
    rw [encode_eq, List.length_append, length_be] at h
    unfold MAX_FRAME_LENGTH at h
    omega
  have hrest : m.body.length = 10 + (m.uriBytes ++ m.data.getD []).length := by
    rw [List.length_append]
    omega
  rw [encode_eq, decode_frame malformed (by omega), hrest] at hd
  unfold ProxyMessage.body at hd
  rw [decodeBody_fields malformed _ _ (length_be 8 _) (by omega), UInt8.toNat_ofNat'] at hd
  split at hd
  · rename_i hbyte
    split at hd
    · have hm := Option.some.inj (Except.ok.inj hd)
      have hdata : (m.uriBytes ++ m.data.getD []).drop (m.uriBytes.length % 2 ^ 8) =
          m.data.getD [] := Option.some.inj (congrArg ProxyMessage.data hm)
      have huri : newString malformed
          ((m.uriBytes ++ m.data.getD []).take (m.uriBytes.length % 2 ^ 8)) = m.uri.getD [] :=
        Option.some.inj (congrArg ProxyMessage.uri hm)
      -- a wrapped length leaves part of the uri to the data
      have hshort : m.uriBytes.length % 2 ^ 8 = m.uriBytes.length := by
        have := congrArg List.length hdata
        rw [List.length_drop, List.length_append] at this
        omega
      rw [hshort, List.take_left] at huri
      refine ⟨?_, by rw [hshort] at hbyte; exact Nat.le_of_lt_succ hbyte⟩
      have hback : newString malformed m.uriBytes = units (scalars (m.uri.getD [])) := by
        unfold newString ProxyMessage.uriBytes getBytes
        rw [JavaText.decode_encode (scalars_isScalar _)]
      rw [WellFormed, ← hback, huri]
    · cases hd
  · cases hd

theorem decode_encode_iff_connect :
    ProxyMessageCodec.decode (fun _ => []) (encode connectNotice) =
        .ok (some connectNotice.normalize) ↔
      WellFormed (connectNotice.uri.getD []) ∧
        (getBytes (connectNotice.uri.getD [])).length ≤ 127 :=
  decode_encode_iff (fun _ => []) (by decide)

/-- A connect request whose uri takes 128 bytes. -/
def longConnect : ProxyMessage :=
  { type := TYPE_CONNECT, uri := some (List.replicate 128 97) }

theorem long_uri_lost : ¬∀ m : ProxyMessage, (encode m).length ≤ MAX_FRAME_LENGTH →
    ProxyMessageCodec.decode (fun _ => []) (encode m) = .ok (some m.normalize) := by
  intro h
  exact absurd (h longConnect (by decide +kernel)) (by decide +kernel)

end ProxyMessageDecoding
