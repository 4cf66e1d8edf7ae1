import AndroidDebug.WebSocketFrames

/-! The header that send_frame_length and send_frame_head write before a payload, and a reader of
the base framing to check it. -/
namespace WebSocketHeaders

open LengthFraming WebSocketFrames

def char (n : ℤ) : UInt8 := UInt8.ofNat (n % 256).toNat

/-- The response_head both functions fill and write. The last branch is `no code`: it writes
the twelve bytes that malloc returned as they are. -/
def response_head (junk : ℕ → UInt8) (payload_length : ℤ) : List UInt8 :=
  if payload_length < 126 then [0x81, char payload_length]
  else if payload_length < 0xFFFF then
    [0x81, 126, char (payload_length >>> (8 : ℕ) % 256), char (payload_length % 256)]
  else (List.range 12).map junk

def send_frame_head (junk : ℕ → UInt8) (head : FrameHead) : List UInt8 :=
  response_head junk head.payload_length

def send_frame_length (junk : ℕ → UInt8) (payload_length : ℤ) : List UInt8 :=
  response_head junk payload_length

/-- The length of the base framing, in the fewest bytes that hold it. -/
def parseLength (short : ℕ) (bs : List UInt8) : Option (ℕ × List UInt8) :=
  if short < 126 then some (short, bs)
  else
    let size := if short = 126 then 2 else 8
    let n := readBE (bs.take size)
    if size ≤ bs.length ∧ (if short = 126 then 126 ≤ n else 65536 ≤ n ∧ n < 2 ^ 63) then
      some (n, bs.drop size)
    else none

def parseHead : List UInt8 → Option (FrameHead × List UInt8)
  | first :: second :: rest => do
    let (n, rest) ← parseLength (second.toNat % 128) rest
    let masked : Bool := 128 ≤ second.toNat
    let keySize := if masked then 4 else 0
    if first.toNat / 16 % 8 = 0 ∧ keySize ≤ rest.length then
      some (⟨128 ≤ first.toNat, UInt8.ofNat (first.toNat % 16), masked, n, rest.take keySize⟩,
        rest.drop keySize)
    else none
  | _ => none

def textHead (n : ℕ) : FrameHead := ⟨true, 1, false, n, []⟩

/-- The payload of an unmasked text frame, and what follows it. -/
def readText (bs : List UInt8) : Option (List UInt8 × List UInt8) := do
  let (head, rest) ← parseHead bs
  if head = textHead head.payload_length ∧ head.payload_length ≤ rest.length then
    some (rest.take head.payload_length, rest.drop head.payload_length)
  else none

/-- `bytes` are the header of a text frame of `n` bytes and nothing else. -/
structure Decodable (bytes : List UInt8) (n : ℕ) : Prop where
  header : parseHead bytes = some (textHead n, [])
  frame : ∀ payload rest, payload.length = n →
    readText (bytes ++ (payload ++ rest)) = some (payload, rest)

/-- What the two writers promise for a payload of `n` bytes, each over the range of its
parameter. -/
structure HeadersRight (junk junk' : ℕ → UInt8) (n : ℕ) : Prop where
  frame_length : n < 2 ^ 31 → Decodable (send_frame_length junk n) n
  frame_head : ∀ head, head.payload_length = n → Decodable (send_frame_head junk' head) n
  same : n < 2 ^ 31 → ∀ head, head.payload_length = n →
    send_frame_length junk n = send_frame_head junk' head

variable {junk : ℕ → UInt8} {n : ℕ}

theorem char_natCast (n : ℕ) : char n = UInt8.ofNat n := by
  apply UInt8.toNat_inj.mp
  unfold char
  rw [UInt8.toNat_ofNat', UInt8.toNat_ofNat']
  omega

theorem response_head_short (h : n < 126) : response_head junk n = [0x81, UInt8.ofNat n] := by
  rw [response_head, if_pos (by omega), char_natCast]

theorem response_head_medium (h : 126 ≤ n) (h' : n < 0xFFFF) :
    response_head junk n = 0x81 :: 126 :: be 2 n := by
  have hhigh : ((n : ℤ) >>> (8 : ℕ) % 256) = (n / 256 : ℕ) := by
    rw [Int.shiftRight_eq_div_pow]
    omega
  have hlow : ((n : ℤ) % 256) = (n % 256 : ℕ) := by omega
  have hbyte : UInt8.ofNat (n % 256) = UInt8.ofNat n := by
    apply UInt8.toNat_inj.mp
    rw [UInt8.toNat_ofNat', UInt8.toNat_ofNat']
    omega
  rw [response_head, if_neg (by omega), if_pos (by omega), hhigh, hlow, char_natCast,
    char_natCast, hbyte]
  simp [be]

theorem length_response_head (h : 0xFFFF ≤ n) : (response_head junk n).length = 12 := by
  rw [response_head, if_neg (by omega), if_neg (by omega), List.length_map, List.length_range]

theorem parseHead_text {second : UInt8} {bs rest : List UInt8} (hs : second.toNat < 128)
    (hl : parseLength second.toNat bs = some (n, rest)) :
    parseHead (0x81 :: second :: bs) = some (textHead n, rest) := by
  have hm : second.toNat % 128 = second.toNat := Nat.mod_eq_of_lt hs
  have hbit : ¬128 ≤ second.toNat := by omega
  simp [parseHead, hm, hl, hbit, textHead]

/-- The reader takes the header off whatever follows it. -/
theorem parseHead_response_head (h : n < 0xFFFF) (rest : List UInt8) :
    parseHead (response_head junk n ++ rest) = some (textHead n, rest) := by
  by_cases hs : n < 126
  · have hn : (UInt8.ofNat n).toNat = n := by
      rw [UInt8.toNat_ofNat']
      omega
    rw [response_head_short hs, List.cons_append, List.cons_append, List.nil_append]
    apply parseHead_text
    · omega
    · rw [hn, parseLength, if_pos hs]
  · have hread : readBE (be 2 n) = n := readBE_be (by omega)
    have htake : (be 2 n ++ rest).take 2 = be 2 n := List.take_left' (length_be 2 n)
    have hdrop : (be 2 n ++ rest).drop 2 = rest := List.drop_left' (length_be 2 n)
    rw [response_head_medium (by omega) h]
    apply parseHead_text
    · decide
    · simp [parseLength, htake, hdrop, hread]
      omega

theorem readText_response_head (h : n < 0xFFFF) {payload : List UInt8}
    (hp : payload.length = n) (rest : List UInt8) :
    readText (response_head junk n ++ (payload ++ rest)) = some (payload, rest) := by
  have hfits : n ≤ (payload ++ rest).length := by
    rw [List.length_append, hp]
    omega
  unfold readText
  rw [parseHead_response_head h]
  simp only [Option.bind_eq_bind, Option.bind_some]
  rw [if_pos ⟨rfl, hfits⟩]
  exact congrArg some (Prod.ext (List.take_left' hp) (List.drop_left' hp))

theorem length_of_parseLength {short : ℕ} {bs rest : List UInt8}
    (h : parseLength short bs = some (n, rest)) :
    bs.length = rest.length ∨ bs.length = rest.length + 2 ∨ bs.length = rest.length + 8 := by
  unfold parseLength at h
  by_cases hs : short < 126
  · rw [if_pos hs] at h
    have hr := congrArg Prod.snd (Option.some.inj h)
    exact .inl (congrArg List.length hr)
  · rw [if_neg hs] at h
    dsimp only at h
    by_cases hm : short = 126
    · simp only [hm, if_true] at h
      split at h
      · rename_i hc
        have hr := congrArg (List.length ∘ Prod.snd) (Option.some.inj h)
        simp only [Function.comp_apply, List.length_drop] at hr
        omega
      · cases h
    · simp only [hm, if_false] at h
      split at h
      · rename_i hc
        have hr := congrArg (List.length ∘ Prod.snd) (Option.some.inj h)
        simp only [Function.comp_apply, List.length_drop] at hr
        omega
      · cases h

/-- An unmasked header takes two, four or ten bytes. -/
theorem length_of_parseHead {bs : List UInt8} {head : FrameHead} (hm : head.mask = false)
    (h : parseHead bs = some (head, [])) :
    bs.length = 2 ∨ bs.length = 4 ∨ bs.length = 10 := by
  match bs with
  | [] => cases h
  | [_] => cases h
  | first :: second :: rest =>
    obtain ⟨⟨n, left⟩, hl, h⟩ := Option.bind_eq_some_iff.mp h
    have hlen := length_of_parseLength hl
    by_cases hs : 128 ≤ second.toNat
    · simp only [hs, decide_true, if_true, Option.ite_none_right_eq_some] at h
      obtain ⟨rfl, -⟩ := Prod.ext_iff.mp (Option.some.inj h.2)
      cases hm
    · simp only [hs, decide_false, Bool.false_eq_true, if_false, Option.ite_none_right_eq_some] at h
      have hnil : left = [] := (Prod.ext_iff.mp (Option.some.inj h.2)).2
      rw [hnil, List.length_nil] at hlen
      simp only [List.length_cons]
      omega

theorem decodable_response_head (h : n < 0xFFFF) : Decodable (response_head junk n) n where
  header := by
    have hparse : parseHead (response_head junk n ++ []) = _ := parseHead_response_head h []
    rwa [List.append_nil] at hparse
  frame _ rest hp := readText_response_head h hp rest

theorem not_decodable_response_head (h : 0xFFFF ≤ n) : ¬Decodable (response_head junk n) n := by
  intro hd
  have hlen := length_of_parseHead rfl hd.header
  rw [length_response_head h] at hlen
  omega

theorem headersRight_iff (junk junk' : ℕ → UInt8) (h : n < 2 ^ 63) :
    HeadersRight junk junk' n ↔ n < 0xFFFF := by
  constructor
  · intro hr
    by_contra hn
    exact not_decodable_response_head (Nat.le_of_not_lt hn) (hr.frame_head (textHead n) rfl)
  · intro hn
    refine ⟨fun _ => decodable_response_head hn, ?_, ?_⟩
    · rintro head rfl
      exact decodable_response_head hn
    · rintro - head rfl
      unfold send_frame_length send_frame_head
      by_cases hs : head.payload_length < 126
      · rw [response_head_short hs, response_head_short hs]
      · rw [response_head_medium (by omega) hn, response_head_medium (by omega) hn]

theorem headersRight_iff_medium :
    HeadersRight (fun _ => 0) (fun _ => 0) 65534 ↔ 65534 < 0xFFFF :=
  headersRight_iff _ _ (by decide)

/-- At 65535 the length goes into twelve bytes that nothing wrote. -/
theorem header_undefined : ¬∀ n < 2 ^ 63, HeadersRight (fun _ => 0) (fun _ => 0) n := by
  intro h
  have hd := (h 65535 (by decide)).frame_head (textHead 65535) rfl
  exact absurd hd.header (by decide)

end WebSocketHeaders
