import AndroidDebug.Base64

/-! The upgrade handshake of the terminal's WebSocket, from the buffer that its one read
filled. SHA1 is a parameter, and logging is left out. -/
namespace WebSocketHandshake

open CheckedFold CMemory

def BUFFER_SIZE : ℕ := 1024

def SHA_DIGEST_LENGTH : ℕ := 20

def GUID : List UInt8 := literal "258EAFA5-E914-47DA-95CA-C5AB0DC85B11"

def CR : UInt8 := 13

def LF : UInt8 := 10

/-- What the memory BIO behind the base64 filter holds after the flush. Without any input
the filter has nothing to end and writes nothing. -/
def bio (bs : List UInt8) : List UInt8 := if bs = [] then [] else Base64.encode bs ++ [LF]

/-- The zero goes over the last byte that the BIO wrote. -/
def base64_encode (in_str : Buffer) (in_len : ℕ) (out_str : Buffer) :
    Except Fault (Buffer × ℕ) := do
  let data := bio (in_str.take in_len)
  let out_str ← memcpy out_str 0 data
  let out_str ← store out_str ((data.length : ℤ) - 1) 0
  return (out_str, data.length)

/-- `b[i] == '\r' && b[i + 1] == '\n'` -/
def lineBreakAt (b : Buffer) (i : ℤ) : Except Fault Bool := do
  let c ← load b i
  if c = CR then return (← load b (i + 1)) = LF else return false

/-- The loop of _readline, which has `left` steps to the end of the string. -/
def scan (allbuf : Buffer) : ℕ → ℤ → Buffer → ℕ → Except Fault (ℤ × Buffer)
  | 0, _, linebuf, _ => .ok (-1, linebuf)
  | left + 1, level, linebuf, out => do
    if ← lineBreakAt allbuf level then return (level + 2, linebuf)
    else
      let linebuf ← store linebuf out (← load allbuf level)
      scan allbuf left (level + 1) linebuf (out + 1)

def readline (allbuf : Buffer) (level : ℤ) (linebuf : Buffer) : Except Fault (ℤ × Buffer) := do
  let len ← strlen allbuf
  scan allbuf (len - level).toNat level linebuf 0

/-- The 101 response with the given Sec-WebSocket-Accept. -/
def switchingProtocols (accept : List UInt8) : List UInt8 :=
  literal "HTTP/1.1 101 Switching Protocols\r\nUpgrade: websocket\r\n" ++
    literal "Connection: Upgrade\r\nSec-WebSocket-Accept: " ++ accept ++ literal "\r\n\r\n"

variable (sha1 : List UInt8 → Vector UInt8 20)

/-- The branch of the key line, up to the bytes that it writes. -/
def answerKey (sec_accept linebuf : Buffer) : Except Fault (List UInt8) := do
  let linebuf ← strcat linebuf GUID
  let len ← strlen (linebuf.drop 19)
  let digest := sha1 ((linebuf.drop 19).take len)
  let sha1_data ← memcpy (zeros (SHA_DIGEST_LENGTH + 1)) 0 digest.toList
  let in_len ← strlen sha1_data
  let (sec_accept, _) ← base64_encode sha1_data in_len sec_accept
  let accept ← cstring sec_accept
  let head ← strcpy (zeros BUFFER_SIZE) (switchingProtocols accept)
  let len ← strlen head
  return head.take len

/-- The do-while loop, to the list of writes. Each turn moves `level` on or ends the loop. -/
def shakeLoop (sec_accept buffer : Buffer) : ℕ → ℤ → Except Fault (List (List UInt8))
  | 0, _ => .error .noReturn
  | fuel + 1, level => do
    let (level, linebuf) ← readline buffer level (zeros 256)
    if ← strstr linebuf (literal "Sec-WebSocket-Key") then
      let head ← answerKey sha1 sec_accept linebuf
      return [head]
    else
      let stop ← lineBreakAt buffer level
      if ¬ stop ∧ level ≠ -1 then shakeLoop sec_accept buffer fuel level else return []

/-- `buffer` is what the read left in it, `sec_accept` what the stack held. -/
def shakehands (sec_accept buffer : Buffer) : Except Fault (List (List UInt8)) :=
  shakeLoop sha1 sec_accept buffer (buffer.length + 1) 0

def keyHeader : List UInt8 := literal "Sec-WebSocket-Key: "

/-- A line of a request: short, of no zero byte, and over at its first line break. -/
structure Line where
  text : List UInt8
  short : text.length < 200
  no_zero : 0 ∉ text
  no_break : ¬ [CR, LF] <:+: text

def wire (lines : List Line) : List UInt8 := lines.flatMap fun l => l.text ++ [CR, LF]

/-- A request with one key line that one read gets whole. -/
structure UpgradeRequest where
  before : List Line
  keyLine : Line
  after : List Line
  key : List UInt8
  key_line : keyLine.text = keyHeader ++ key
  key_ne : key ≠ []
  only_key : ∀ l ∈ before ++ after, ¬ literal "Sec-WebSocket-Key" <:+: l.text
  fits : (wire (before ++ keyLine :: after)).length < BUFFER_SIZE

def UpgradeRequest.text (r : UpgradeRequest) : List UInt8 := wire (r.before ++ r.keyLine :: r.after)

def UpgradeRequest.buffer (r : UpgradeRequest) : Buffer :=
  r.text ++ zeros (BUFFER_SIZE - r.text.length)

/-- One 101 response is written and it accepts the key with the whole digest. -/
def AcceptsKey (sec_accept : Vector UInt8 32) (r : UpgradeRequest) : Prop :=
  shakehands sha1 sec_accept.toList r.buffer =
    .ok [switchingProtocols (Base64.encode (sha1 (r.key ++ GUID)).toList)]

instance (sec_accept : Vector UInt8 32) (r : UpgradeRequest) :
    Decidable (AcceptsKey sha1 sec_accept r) :=
  inferInstanceAs (Decidable (_ = _))

section Reading

variable {b linebuf : Buffer} {line t : List UInt8} {level out left : ℕ}

theorem lineBreakAt_line (hb : b.drop level = line ++ CR :: LF :: t)
    (hline : ¬ [CR, LF] <:+: line) : lineBreakAt b level = .ok (decide (line = [])) := by
  match line with
  | [] =>
    have hc := load_of_drop hb
    have hd := load_succ_of_drop hb
    simp [lineBreakAt, hc, hd, ok_bind, pure, Except.pure]
  | [c] =>
    have hc := load_of_drop hb
    have hd := load_succ_of_drop hb
    have hne : CR ≠ LF := by decide
    by_cases h : c = CR <;> simp [lineBreakAt, hc, hd, ok_bind, pure, Except.pure, h, hne]
  | c :: d :: u =>
    have hc := load_of_drop hb
    have hd := load_succ_of_drop hb
    by_cases h : c = CR
    · have hne : d ≠ LF := by
        intro h'
        exact hline ⟨[], u, by simp [h, h']⟩
      simp [lineBreakAt, hc, hd, ok_bind, pure, Except.pure, h, hne]
    · simp [lineBreakAt, hc, ok_bind, pure, Except.pure, h]

/-- The scan copies the line and steps over its line break. -/
theorem scan_line (hb : b.drop level = line ++ CR :: LF :: t) (hline : ¬ [CR, LF] <:+: line)
    (hleft : line.length < left) (hfits : out + line.length ≤ linebuf.length) :
    scan b left level linebuf out =
      (memcpy linebuf out line).map fun d => (((level + line.length + 2 : ℕ) : ℤ), d) := by
  induction line generalizing left level out linebuf with
  | nil =>
    obtain ⟨left, rfl⟩ : ∃ n, left = n + 1 := ⟨left - 1, by omega⟩
    rw [scan, lineBreakAt_line hb hline, memcpy_fits hfits]
    simp [ok_bind, pure, Except.pure, Except.map]
  | cons c line ih =>
    obtain ⟨left, rfl⟩ : ∃ n, left = n + 1 := ⟨left - 1, by omega⟩
    have hrest : b.drop (level + 1) = line ++ CR :: LF :: t := by
      rw [← List.drop_drop, hb]
      rfl
    have hinner : ¬ [CR, LF] <:+: line := fun h => hline (h.trans (List.suffix_cons c line).isInfix)
    have hcopy := memcpy_set hfits
    simp only [List.length_cons] at hleft hfits
    have hlen : out + 1 + line.length ≤ (linebuf.set out c).length := by
      rw [List.length_set]
      omega
    have hnext := ih hrest hinner (by omega : line.length < left) hlen
    have hend : level + 1 + line.length + 2 = level + (c :: line).length + 2 := by
      rw [List.length_cons]
      omega
    rw [hcopy, hend] at hnext
    rw [scan, lineBreakAt_line hb hline, ok_bind]
    simp only [reduceCtorEq, decide_false, Bool.false_eq_true, if_false]
    rw [load_of_drop hb, ok_bind, store_fits (by omega), ok_bind]
    exact_mod_cast hnext

/-- What a turn of the loop reads into the cleared line buffer. -/
theorem readline_line {text pad : List UInt8} (htext : 0 ∉ text)
    (hb : text.drop level = line ++ CR :: LF :: t) (hline : ¬ [CR, LF] <:+: line)
    (hshort : line.length < 256) :
    readline (text ++ 0 :: pad) level (zeros 256) =
      .ok (((level + line.length + 2 : ℕ) : ℤ), line ++ 0 :: zeros (255 - line.length)) := by
  have hlen : (text.drop level).length = line.length + t.length + 2 := by
    simp [hb, Nat.add_assoc]
  rw [List.length_drop] at hlen
  have hdrop : (text ++ 0 :: pad).drop level = line ++ CR :: LF :: (t ++ 0 :: pad) := by
    rw [List.drop_append_of_le_length (by omega), hb]
    simp
  have hleft : line.length < ((text.length : ℤ) - (level : ℤ)).toNat := by omega
  have hfits : 0 + line.length ≤ (zeros 256).length := by
    rw [length_zeros]
    omega
  have hzeros : 256 - line.length = (255 - line.length) + 1 := by omega
  have hcopy : memcpy (zeros 256) ((0 : ℕ) : ℤ) line =
      .ok (line ++ 0 :: zeros (255 - line.length)) := by
    rw [memcpy_fits hfits, List.take_zero, List.nil_append, drop_zeros, Nat.zero_add, hzeros,
      zeros_succ]
  rw [readline, strlen_of_not_mem htext, ok_bind, scan_line hdrop hline hleft hfits, hcopy]
  rfl

end Reading

section Answering

theorem length_GUID : GUID.length = 36 := by decide

theorem zero_not_mem_GUID : 0 ∉ GUID := by decide

theorem bio_of_ne_nil {bs : List UInt8} (h : bs ≠ []) : bio bs = Base64.encode bs ++ [LF] :=
  if_neg h

theorem length_bio {bs : List UInt8} (h : bs.length ≤ 20) : (bio bs).length ≤ 29 := by
  by_cases hnil : bs = []
  · simp [bio, hnil]
  · rw [bio_of_ne_nil hnil, List.length_append, Base64.length_encode, List.length_singleton]
    omega

/-- Nothing to encode leaves nothing to put the zero over. -/
theorem base64_encode_empty {in_str : Buffer} {in_len : ℕ} (h : in_str.take in_len = [])
    (out_str : Buffer) : base64_encode in_str in_len out_str = .error .outOfBounds := by
  have hcopy : memcpy out_str 0 [] = .ok out_str := by
    rw [memcpy_start (Nat.zero_le _)]
    rfl
  simp only [base64_encode]
  rw [h, bio, if_pos rfl, hcopy, ok_bind]
  rfl

theorem base64_encode_fits {in_str : Buffer} {in_len : ℕ} {out_str : Buffer}
    (hne : in_str.take in_len ≠ []) (hin : in_len ≤ 20) (hout : out_str.length = 32) :
    ∃ t n, base64_encode in_str in_len out_str =
      .ok (Base64.encode (in_str.take in_len) ++ 0 :: t, n) := by
  have hbytes : (in_str.take in_len).length ≤ 20 := by
    rw [List.length_take]
    omega
  have hlen := length_bio hbytes
  have hbio := bio_of_ne_nil hne
  have hlast : (((bio (in_str.take in_len)).length : ℤ) - 1) =
      ((Base64.encode (in_str.take in_len)).length : ℤ) := by
    simp [hbio]
  refine ⟨out_str.drop (bio (in_str.take in_len)).length, (bio (in_str.take in_len)).length, ?_⟩
  simp only [base64_encode]
  rw [memcpy_start (by omega), ok_bind, hlast, store_fits (by simp [hbio])]
  simp [hbio, ok_bind, pure, Except.pure]

theorem zero_not_mem_switchingProtocols {accept : List UInt8} (h : 0 ∉ accept) :
    0 ∉ switchingProtocols accept := by
  have hstart : 0 ∉ literal "HTTP/1.1 101 Switching Protocols\r\nUpgrade: websocket\r\n" := by
    decide +kernel
  have hheader : 0 ∉ literal "Connection: Upgrade\r\nSec-WebSocket-Accept: " := by decide +kernel
  have hend : 0 ∉ literal "\r\n\r\n" := by decide +kernel
  simp only [switchingProtocols, List.mem_append, not_or]
  exact ⟨⟨⟨hstart, hheader⟩, h⟩, hend⟩

theorem length_switchingProtocols (accept : List UInt8) :
    (switchingProtocols accept).length = accept.length + 101 := by
  have hstart :
      (literal "HTTP/1.1 101 Switching Protocols\r\nUpgrade: websocket\r\n").length = 54 := by
    decide +kernel
  have hheader : (literal "Connection: Upgrade\r\nSec-WebSocket-Accept: ").length = 43 := by
    decide +kernel
  have hend : (literal "\r\n\r\n").length = 4 := by decide +kernel
  simp only [switchingProtocols, List.length_append, hstart, hheader, hend]
  omega

variable (sha1 : List UInt8 → Vector UInt8 20)

theorem sha1_data_holds {digest : List UInt8} (h : digest.length = 20) :
    memcpy (zeros (SHA_DIGEST_LENGTH + 1)) 0 digest = .ok (digest ++ [0]) := by
  have hfits : digest.length ≤ (zeros (SHA_DIGEST_LENGTH + 1)).length := by
    simp [h, SHA_DIGEST_LENGTH]
  rw [memcpy_start hfits, drop_zeros, h]
  rfl

theorem head_holds {accept : List UInt8} (h : accept.length ≤ 28) :
    ∃ t, strcpy (zeros BUFFER_SIZE) (switchingProtocols accept) =
      .ok (switchingProtocols accept ++ 0 :: t) := by
  have hfits : (switchingProtocols accept ++ [0]).length ≤ (zeros BUFFER_SIZE).length := by
    rw [List.length_append, length_switchingProtocols, length_zeros]
    simp only [List.length_singleton, BUFFER_SIZE]
    omega
  refine ⟨(zeros BUFFER_SIZE).drop (switchingProtocols accept ++ [0]).length, ?_⟩
  rw [strcpy, memcpy_start hfits, List.append_assoc, List.singleton_append]

/-- The digest up to its first zero byte, which is where strlen sees it end. -/
def seen (digest : List UInt8) : List UInt8 := digest.takeWhile (· ≠ 0)

/-- The answer to a line that is followed by a zero and by room for the GUID. -/
theorem answerKey_line (sha1 : List UInt8 → Vector UInt8 20) {sec_accept : Buffer}
    {line : List UInt8} {n : ℕ} (haccept : sec_accept.length = 32) (hline : 0 ∉ line)
    (hroom : 36 ≤ n) :
    answerKey sha1 sec_accept (line ++ 0 :: zeros n) =
      if seen (sha1 ((line ++ GUID).drop 19)).toList = [] then .error .outOfBounds
      else .ok (switchingProtocols
        (Base64.encode (seen (sha1 ((line ++ GUID).drop 19)).toList))) := by
  have hguid : 0 ∉ (line ++ GUID).drop 19 := by
    intro h
    have hmem := List.mem_of_mem_drop h
    simp [hline, zero_not_mem_GUID] at hmem
  have hfits : (line ++ GUID ++ [0]).length ≤ (line ++ 0 :: zeros n).length := by
    simp only [List.length_append, length_GUID, List.length_cons, length_zeros, List.length_nil]
    omega
  have htail : (line ++ GUID ++ 0 :: (zeros n).drop GUID.length).drop 19 =
      (line ++ GUID).drop 19 ++ 0 :: (zeros n).drop GUID.length := by
    rw [List.drop_append_of_le_length]
    rw [List.length_append, length_GUID]
    omega
  have hinput : ((line ++ GUID).drop 19 ++ 0 :: (zeros n).drop GUID.length).take
      ((line ++ GUID).drop 19).length = (line ++ GUID).drop 19 := List.take_left
  obtain ⟨digest, hdigest⟩ : ∃ d, d = (sha1 ((line ++ GUID).drop 19)).toList := ⟨_, rfl⟩
  have hlen : digest.length = 20 := by simp [hdigest]
  have hpre : seen digest <+: digest := List.takeWhile_prefix _
  have hle : (seen digest).length ≤ 20 := hlen ▸ hpre.length_le
  have hseen : (digest ++ [0]).take (seen digest).length = seen digest :=
    (List.prefix_iff_eq_take.mp (hpre.trans (List.prefix_append digest [0]))).symm
  have hstrlen : strlen (digest ++ [0]) = .ok (seen digest).length := strlen_append
  rw [answerKey, strcat_append hline hfits, ok_bind, htail, strlen_of_not_mem hguid, ok_bind]
  simp only [hinput, ← hdigest]
  rw [sha1_data_holds hlen, ok_bind, hstrlen, ok_bind]
  by_cases hempty : seen digest = []
  · rw [base64_encode_empty (by rw [hseen, hempty]), if_pos hempty]
    rfl
  · obtain ⟨t, m, hencode⟩ := base64_encode_fits (by rwa [hseen]) hle haccept
    obtain ⟨accept, haccepted⟩ : ∃ a, a = Base64.encode (seen digest) := ⟨_, rfl⟩
    have hzero : 0 ∉ accept := haccepted ▸ Base64.zero_not_mem_encode _
    have hshort : accept.length ≤ 28 := by
      rw [haccepted, Base64.length_encode]
      omega
    obtain ⟨u, hhead⟩ := head_holds hshort
    rw [hencode, ok_bind, if_neg hempty]
    simp only [hseen]
    rw [← haccepted, cstring_of_not_mem hzero, ok_bind, hhead, ok_bind,
      strlen_of_not_mem (zero_not_mem_switchingProtocols hzero), ok_bind, List.take_left]
    rfl

def answered (digest : List UInt8) : Except Fault (List (List UInt8)) :=
  if seen digest = [] then .error .outOfBounds
  else .ok [switchingProtocols (Base64.encode (seen digest))]

end Answering

section Handshake

variable (sha1 : List UInt8 → Vector UInt8 20)
variable {sec_accept pad : Buffer} {text t : List UInt8} {fuel level : ℕ}

theorem wire_cons (l : Line) (ls : List Line) :
    wire (l :: ls) = l.text ++ CR :: LF :: wire ls := by
  simp [wire]

theorem zero_not_mem_wire (ls : List Line) : 0 ∉ wire ls := by
  induction ls with
  | nil => simp [wire]
  | cons l ls ih =>
    have hbreak : 0 ∉ [CR, LF] := by decide
    rw [wire_cons]
    simpa [l.no_zero, ih] using hbreak

theorem length_le_wire (ls : List Line) : ls.length ≤ (wire ls).length := by
  induction ls with
  | nil => simp
  | cons l ls ih =>
    simp only [wire_cons, List.length_append, List.length_cons]
    omega

/-- A turn that reads another line goes on unless the next line is empty. -/
theorem shakeLoop_other (htext : 0 ∉ text) (l : Line)
    (hb : text.drop level = l.text ++ CR :: LF :: t)
    (hother : ¬ literal "Sec-WebSocket-Key" <:+: l.text) :
    shakeLoop sha1 sec_accept (text ++ 0 :: pad) (fuel + 1) level =
      (lineBreakAt (text ++ 0 :: pad) ((level + l.text.length + 2 : ℕ) : ℤ) >>= fun stop =>
        if stop then .ok []
        else shakeLoop sha1 sec_accept (text ++ 0 :: pad) fuel
          ((level + l.text.length + 2 : ℕ) : ℤ)) := by
  have hshort : l.text.length < 256 := Nat.lt_trans l.short (by omega)
  have hlevel : ((level + l.text.length + 2 : ℕ) : ℤ) ≠ -1 := by omega
  rw [shakeLoop, readline_line htext hb l.no_break hshort, ok_bind]
  simp only [strstr_append l.no_zero, ok_bind, hother, decide_false, Bool.false_eq_true, if_false]
  congr 1
  funext stop
  cases stop
  · simp only [Bool.false_eq_true, not_false_eq_true, true_and, ne_eq, hlevel, if_true, if_false]
  · rfl

theorem shakeLoop_key (htext : 0 ∉ text) (l : Line) {key : List UInt8}
    (hkey : l.text = keyHeader ++ key) (haccept : sec_accept.length = 32)
    (hb : text.drop level = l.text ++ CR :: LF :: t) :
    shakeLoop sha1 sec_accept (text ++ 0 :: pad) (fuel + 1) level =
      answered (sha1 (key ++ GUID)).toList := by
  have hshort : l.text.length < 200 := l.short
  have hfound : literal "Sec-WebSocket-Key" <:+: l.text := by
    have h : literal "Sec-WebSocket-Key" <+: keyHeader := by decide +kernel
    rw [hkey]
    exact (h.trans (List.prefix_append keyHeader key)).isInfix
  have hroom : 36 ≤ 255 - l.text.length := by omega
  have hinput : (l.text ++ GUID).drop 19 = key ++ GUID := by
    have hlength : keyHeader.length = 19 := by decide +kernel
    rw [hkey, List.append_assoc, ← hlength, List.drop_left]
  rw [shakeLoop, readline_line htext hb l.no_break (by omega), ok_bind]
  simp only [strstr_append l.no_zero, ok_bind, hfound, decide_true, if_true]
  rw [answerKey_line sha1 haccept l.no_zero hroom, hinput, answered]
  split <;> rfl

/-- The loop reads on to the key line unless an empty line that is not the first to be read
comes before it. -/
theorem shakeLoop_lines (htext : 0 ∉ text) (haccept : sec_accept.length = 32)
    {before after : List Line} {keyLine : Line} {key : List UInt8}
    (hkey : keyLine.text = keyHeader ++ key)
    (hother : ∀ l ∈ before, ¬ literal "Sec-WebSocket-Key" <:+: l.text)
    (hfuel : before.length < fuel)
    (hb : text.drop level = wire (before ++ keyLine :: after)) :
    shakeLoop sha1 sec_accept (text ++ 0 :: pad) fuel level =
      if [] ∈ before.tail.map Line.text then .ok []
      else answered (sha1 (key ++ GUID)).toList := by
  induction before generalizing fuel level with
  | nil =>
    obtain ⟨fuel, rfl⟩ : ∃ n, fuel = n + 1 := ⟨fuel - 1, by omega⟩
    rw [List.nil_append, wire_cons] at hb
    rw [shakeLoop_key sha1 htext keyLine hkey haccept hb]
    simp
  | cons l before ih =>
    simp only [List.length_cons] at hfuel
    obtain ⟨fuel, rfl⟩ : ∃ n, fuel = n + 1 := ⟨fuel - 1, by omega⟩
    rw [List.cons_append, wire_cons] at hb
    have hnext : text.drop (level + l.text.length + 2) = wire (before ++ keyLine :: after) := by
      rw [Nat.add_assoc, ← List.drop_drop, hb, ← List.drop_drop, List.drop_left]
      rfl
    have hrest := ih (fun m hm => hother m (List.mem_cons_of_mem l hm))
      (Nat.lt_of_succ_lt_succ hfuel) hnext
    rw [shakeLoop_other sha1 htext l hb (hother l (List.mem_cons_self ..))]
    have hle : level + l.text.length + 2 ≤ text.length := by
      have hlen := congrArg List.length hb
      simp only [List.length_drop, List.length_append, List.length_cons] at hlen
      omega
    cases before with
    | nil =>
      have hkeyne : keyLine.text ≠ [] := by
        have h : keyHeader ≠ [] := by decide +kernel
        rw [hkey]
        simp [h]
      rw [List.nil_append, wire_cons] at hnext
      have hbuf : (text ++ 0 :: pad).drop (level + l.text.length + 2) =
          keyLine.text ++ CR :: LF :: (wire after ++ 0 :: pad) := by
        rw [List.drop_append_of_le_length hle, hnext]
        simp
      rw [lineBreakAt_line hbuf keyLine.no_break, ok_bind, hrest]
      simp [hkeyne]
    | cons m before =>
      rw [List.cons_append, wire_cons] at hnext
      have hbuf : (text ++ 0 :: pad).drop (level + l.text.length + 2) =
          m.text ++ CR :: LF :: (wire (before ++ keyLine :: after) ++ 0 :: pad) := by
        rw [List.drop_append_of_le_length hle, hnext]
        simp
      rw [lineBreakAt_line hbuf m.no_break, ok_bind, hrest]
      by_cases hm : m.text = []
      · simp [hm]
      · have hm' : [] ≠ m.text := fun h => hm h.symm
        simp [hm, hm']

theorem shakehands_request (sec_accept : Vector UInt8 32) (r : UpgradeRequest) :
    shakehands sha1 sec_accept.toList r.buffer =
      if [] ∈ r.before.tail.map Line.text then .ok []
      else answered (sha1 (r.key ++ GUID)).toList := by
  have hfits : r.text.length < BUFFER_SIZE := r.fits
  have hpad : BUFFER_SIZE - r.text.length = (BUFFER_SIZE - r.text.length - 1) + 1 := by omega
  have hcount := length_le_wire (r.before ++ r.keyLine :: r.after)
  have hfuel : r.before.length < r.buffer.length + 1 := by
    simp only [UpgradeRequest.buffer, UpgradeRequest.text, List.length_append,
      List.length_cons] at hcount ⊢
    omega
  have hother : ∀ l ∈ r.before, ¬ literal "Sec-WebSocket-Key" <:+: l.text := fun l hl =>
    r.only_key l (List.mem_append_left _ hl)
  have hstart : r.text.drop 0 = wire (r.before ++ r.keyLine :: r.after) := rfl
  have hbuffer : r.buffer = r.text ++ 0 :: zeros (BUFFER_SIZE - r.text.length - 1) := by
    rw [← zeros_succ, ← hpad]
    rfl
  rw [hbuffer] at hfuel ⊢
  exact shakeLoop_lines sha1 (zero_not_mem_wire _) sec_accept.length_toList r.key_line hother
    hfuel hstart

theorem switchingProtocols_injective {a b : List UInt8}
    (h : switchingProtocols a = switchingProtocols b) : a = b := by
  simp only [switchingProtocols] at h
  exact List.append_cancel_left (List.append_cancel_right h)

/-- The digest has no zero byte, and no empty line after the first line comes before the key
line. -/
def ReadsThrough (r : UpgradeRequest) : Prop :=
  0 ∉ (sha1 (r.key ++ GUID)).toList ∧ [] ∉ r.before.tail.map Line.text

theorem accepts_key_iff (sec_accept : Vector UInt8 32) (r : UpgradeRequest) :
    AcceptsKey sha1 sec_accept r ↔ ReadsThrough sha1 r := by
  rw [AcceptsKey, shakehands_request, ReadsThrough]
  by_cases hempty : [] ∈ r.before.tail.map Line.text
  · simp only [hempty, if_true, not_true_eq_false, and_false, iff_false]
    intro h
    cases h
  simp only [hempty, if_false, not_false_eq_true, and_true]
  rw [answered]
  constructor
  · intro h
    split at h
    · cases h
    have hwritten := List.head_eq_of_cons_eq (Except.ok.inj h)
    have hseen := Base64.encode_injective (switchingProtocols_injective hwritten)
    rw [seen, List.takeWhile_eq_self_iff] at hseen
    intro hzero
    simpa using hseen 0 hzero
  · intro h
    have hwhole : seen (sha1 (r.key ++ GUID)).toList = (sha1 (r.key ++ GUID)).toList :=
      takeWhile_eq_self h
    have hne : (sha1 (r.key ++ GUID)).toList ≠ [] := by
      intro hnil
      have hlen := (sha1 (r.key ++ GUID)).length_toList
      rw [hnil] at hlen
      cases hlen
    rw [hwhole, if_neg hne]

end Handshake

def Line.ofLiteral (s : String) (hshort : (literal s).length < 200) (hzero : 0 ∉ literal s)
    (hbreak : ¬ [CR, LF] <:+: literal s) : Line :=
  ⟨literal s, hshort, hzero, hbreak⟩

/-- A request with the key of sixteen bytes 2. -/
def requestOfTwos : UpgradeRequest where
  before :=
    [Line.ofLiteral "GET / HTTP/1.1" (by decide) (by decide) (by decide),
      Line.ofLiteral "Upgrade: websocket" (by decide) (by decide) (by decide)]
  keyLine := Line.ofLiteral "Sec-WebSocket-Key: AgICAgICAgICAgICAgICAg==" (by decide +kernel)
    (by decide +kernel) (by decide +kernel)
  after :=
    [Line.ofLiteral "Sec-WebSocket-Version: 13" (by decide) (by decide +kernel) (by decide +kernel),
      Line.ofLiteral "" (by decide) (by decide) (by decide)]
  key := literal "AgICAgICAgICAgICAgICAg=="
  key_line := by decide +kernel
  key_ne := by decide
  only_key := by decide +kernel
  fits := by decide +kernel

/-- The digest of that key with the GUID; its twelfth byte is zero. -/
def digestOfTwos : Vector UInt8 20 :=
  #v[31, 20, 6, 185, 31, 252, 52, 217, 4, 147, 232, 0, 71, 176, 6, 69, 20, 20, 71, 146]

theorem accepts_key_fails_zero_byte :
    ¬ AcceptsKey (fun _ => digestOfTwos) (Vector.replicate 32 0) requestOfTwos ∧
      shakehands (fun _ => digestOfTwos) (Vector.replicate 32 0).toList requestOfTwos.buffer =
        .ok [switchingProtocols (literal "HxQGuR/8NNkEk+g=")] := by
  decide +kernel

end WebSocketHandshake
