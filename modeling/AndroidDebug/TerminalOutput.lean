import AndroidDebug.Utf8Split
import AndroidDebug.WebSocketHeaders

/-! The send path of the terminal: the reader thread hands each read of the shell's output to
TermWebSocket_send, which puts it into one text frame. `junk` is what freshly allocated
memory holds; logging and the results of write are left out. -/
namespace TerminalOutput

open LengthFraming JavaText Utf8Split WebSocketHeaders

def ERROR_FD : ℤ := -999
def BUFFER : ℕ := 4096

/-- What one call of `mTermIn.read(mBuffer)` delivers. -/
structure Chunk where
  bytes : List UInt8
  nonempty : bytes ≠ []
  fits : bytes.length ≤ BUFFER

def read (chunk : Chunk) (mBuffer : List UInt8) : List UInt8 :=
  chunk.bytes ++ mBuffer.drop chunk.bytes.length

def TermWebSocket_send (junk : ℕ → UInt8) (conn : ℤ) (jdata : List UInt8) (jlength : ℕ) :
    List UInt8 :=
  if conn = ERROR_FD then [] else send_frame_length junk jlength ++ jdata.take jlength

def onReader (junk : ℕ → UInt8) (conn : ℤ) (buffer : List UInt8) (size : ℕ) : List UInt8 :=
  TermWebSocket_send junk conn buffer size

/-- What the reader thread has written to the connection when the shell's output ends. -/
def mReaderThread (junk : ℕ → UInt8) (conn : ℤ) : List UInt8 → List Chunk → List UInt8
  | _, [] => []
  | mBuffer, chunk :: chunks =>
    let mBuffer := read chunk mBuffer
    onReader junk conn mBuffer chunk.bytes.length ++ mReaderThread junk conn mBuffer chunks

def stream (chunks : List Chunk) : List UInt8 := (chunks.map Chunk.bytes).flatten

/-! The receiving end. -/

structure Frame where
  fin : Bool
  opcode : UInt8
  payload : List UInt8
  deriving DecidableEq, Repr

def TEXT : UInt8 := 1

def readLength (b : UInt8) (rest : List UInt8) : Option (ℕ × List UInt8) :=
  let n := (b &&& 0x7F).toNat
  if n < 126 then some (n, rest)
  else
    let k := if n = 126 then 2 else 8
    if rest.length < k then none else some (readBE (rest.take k), rest.drop k)

/-- A frame of a server: no reserved bit is set and nothing is masked. -/
def readFrame : List UInt8 → Option (Frame × List UInt8)
  | a :: b :: rest =>
    if a &&& 0x70 ≠ 0 ∨ b &&& 0x80 ≠ 0 then none
    else do
      let (n, rest) ← readLength b rest
      if rest.length < n then none
      else some (⟨a &&& 0x80 ≠ 0, a &&& 0x0F, rest.take n⟩, rest.drop n)
  | _ => none

def readFrames : ℕ → List UInt8 → Option (List Frame)
  | _, [] => some []
  | 0, _ :: _ => none
  | fuel + 1, b :: bs => do
    let (f, rest) ← readFrame (b :: bs)
    let fs ← readFrames fuel rest
    some (f :: fs)

/-- The written bytes are final text frames, each a text by itself, that carry the stream. -/
def TextFrames (written sent : List UInt8) : Prop :=
  ∃ frames, readFrames written.length written = some frames ∧
    (∀ f ∈ frames, f.fin = true ∧ f.opcode = TEXT ∧ IsText f.payload) ∧
    (frames.map Frame.payload).flatten = sent

/-! One frame. -/

theorem seven_bits : ∀ n < 126,
    (UInt8.ofNat n &&& 0x7F).toNat = n ∧ UInt8.ofNat n &&& 0x80 = 0 := by
  decide

theorem readLength_short {n : ℕ} (h : n < 126) (rest : List UInt8) :
    readLength (UInt8.ofNat n) rest = some (n, rest) := by
  simp [readLength, (seven_bits n h).1, h]

theorem readLength_medium {n : ℕ} (h : n < 0xFFFF) (rest : List UInt8) :
    readLength 126 (be 2 n ++ rest) = some (n, rest) := by
  have hseven : ((126 : UInt8) &&& 0x7F).toNat = 126 := rfl
  have hle : ¬ (be 2 n ++ rest).length < 2 := by
    rw [List.length_append, length_be]
    omega
  have hvalue : readBE (be 2 n) = n := readBE_be (by omega)
  rw [readLength, hseven, if_neg (by decide), if_pos rfl, if_neg hle,
    List.take_left' (length_be 2 n), List.drop_left' (length_be 2 n), hvalue]

theorem readFrame_text {b : UInt8} (hb : b &&& 0x80 = 0) {bs payload rest : List UInt8}
    (h : readLength b bs = some (payload.length, payload ++ rest)) :
    readFrame (0x81 :: b :: bs) = some (⟨true, TEXT, payload⟩, rest) := by
  have hbits : ¬ ((0x81 : UInt8) &&& 0x70 ≠ 0 ∨ b &&& 0x80 ≠ 0) := by
    rw [hb]
    decide
  rw [readFrame, if_neg hbits, h, Option.bind_eq_bind, Option.bind_some]
  simp only [List.length_append, List.take_left, List.drop_left]
  rw [if_neg (by omega)]
  rfl

/-- A chunk is too short for the long form, so its frame is read back. -/
theorem readFrame_send (junk : ℕ → UInt8) (payload rest : List UInt8)
    (h : payload.length < 0xFFFF) :
    readFrame (send_frame_length junk payload.length ++ (payload ++ rest)) =
      some (⟨true, TEXT, payload⟩, rest) := by
  rw [send_frame_length]
  by_cases hshort : payload.length < 126
  · rw [response_head_short hshort]
    exact readFrame_text (seven_bits _ hshort).2 (readLength_short hshort _)
  · rw [response_head_medium (Nat.le_of_not_lt hshort) h]
    exact readFrame_text (by decide) (readLength_medium h (payload ++ rest))

theorem send_frame_length_ne_nil (junk : ℕ → UInt8) (n : ℕ) : send_frame_length junk n ≠ [] := by
  rw [send_frame_length, response_head]
  split_ifs <;> simp

/-! The whole output. -/

theorem onReader_read (junk : ℕ → UInt8) {conn : ℤ} (hc : conn ≠ ERROR_FD) (chunk : Chunk)
    (mBuffer : List UInt8) :
    onReader junk conn (read chunk mBuffer) chunk.bytes.length =
      send_frame_length junk chunk.bytes.length ++ chunk.bytes := by
  rw [onReader, TermWebSocket_send, if_neg hc, read, List.take_left]

theorem readFrames_cons {fuel : ℕ} {bs rest : List UInt8} {f : Frame} {fs : List Frame}
    (hf : readFrame bs = some (f, rest)) (hfs : readFrames fuel rest = some fs) :
    readFrames (fuel + 1) bs = some (f :: fs) := by
  cases bs with
  | nil => cases hf
  | cons b bs => simp [readFrames, hf, hfs]

/-- Each chunk becomes a text frame of its own. -/
theorem readFrames_mReaderThread (junk : ℕ → UInt8) {conn : ℤ} (hc : conn ≠ ERROR_FD)
    (chunks : List Chunk) (mBuffer : List UInt8) (fuel : ℕ) (hfuel : chunks.length ≤ fuel) :
    readFrames fuel (mReaderThread junk conn mBuffer chunks) =
      some (chunks.map fun c => ⟨true, TEXT, c.bytes⟩) := by
  induction chunks generalizing mBuffer fuel with
  | nil => cases fuel <;> rfl
  | cons chunk chunks ih =>
    obtain ⟨n, rfl⟩ : ∃ n, fuel = n + 1 := ⟨fuel - 1, by simp at hfuel; omega⟩
    have hshort : chunk.bytes.length < 0xFFFF := by
      have := chunk.fits
      unfold BUFFER at this
      omega
    rw [mReaderThread, onReader_read junk hc, List.append_assoc, List.map_cons]
    exact readFrames_cons (readFrame_send junk chunk.bytes _ hshort)
      (ih _ n (by simpa using hfuel))

theorem length_le_mReaderThread (junk : ℕ → UInt8) {conn : ℤ} (hc : conn ≠ ERROR_FD)
    (chunks : List Chunk) (mBuffer : List UInt8) :
    chunks.length ≤ (mReaderThread junk conn mBuffer chunks).length := by
  induction chunks generalizing mBuffer with
  | nil => simp
  | cons chunk chunks ih =>
    have hpos := List.length_pos_of_ne_nil (send_frame_length_ne_nil junk chunk.bytes.length)
    have := ih (read chunk mBuffer)
    rw [mReaderThread, onReader_read junk hc]
    simp only [List.length_append, List.length_cons]
    omega

theorem readFrames_written (junk : ℕ → UInt8) {conn : ℤ} (hc : conn ≠ ERROR_FD)
    (chunks : List Chunk) (mBuffer : List UInt8) :
    readFrames (mReaderThread junk conn mBuffer chunks).length
        (mReaderThread junk conn mBuffer chunks) =
      some (chunks.map fun c => ⟨true, TEXT, c.bytes⟩) :=
  readFrames_mReaderThread junk hc chunks mBuffer _
    (length_le_mReaderThread junk hc chunks mBuffer)

/-- The connection gets text frames exactly when no read ends inside a character. -/
theorem terminal_frames_are_text_iff (junk : ℕ → UInt8) {conn : ℤ} (hc : conn ≠ ERROR_FD)
    {chunks : List Chunk} (h : IsText (stream chunks)) :
    TextFrames (mReaderThread junk conn (List.replicate BUFFER 0) chunks) (stream chunks) ↔
      ∀ chunk ∈ chunks, startsInside chunk.bytes = false := by
  have hread := readFrames_written junk hc chunks (List.replicate BUFFER 0)
  have hpieces : (∀ chunk ∈ chunks, IsText chunk.bytes) ↔
      ∀ chunk ∈ chunks, startsInside chunk.bytes = false := by
    simpa using IsText.pieces_iff h
  rw [← hpieces]
  constructor
  · rintro ⟨frames, hframes, htext, -⟩ chunk hchunk
    obtain rfl := Option.some.inj (hread.symm.trans hframes)
    exact (htext ⟨true, TEXT, chunk.bytes⟩ (List.mem_map.mpr ⟨chunk, hchunk, rfl⟩)).2.2
  · intro hall
    refine ⟨_, hread, ?_, by simp [stream, Function.comp_def]⟩
    intro f hf
    obtain ⟨chunk, hchunk, rfl⟩ := List.mem_map.mp hf
    exact ⟨rfl, rfl, hall chunk hchunk⟩

/-- The three bytes of one Chinese character, read as two and one. -/
def cutCharacter : List Chunk :=
  [⟨[0xE4, 0xBD], by decide, by decide⟩, ⟨[0xA0], by decide, by decide⟩]

theorem terminal_frames_cut_a_character : ¬ ∀ (junk : ℕ → UInt8) (conn : ℤ) (chunks : List Chunk),
    conn ≠ ERROR_FD → IsText (stream chunks) →
      TextFrames (mReaderThread junk conn (List.replicate BUFFER 0) chunks) (stream chunks) := by
  intro h
  obtain ⟨frames, hframes, htext, -⟩ := h (fun _ => 0) 7 cutCharacter (by decide) (by decide)
  have hconn : (7 : ℤ) ≠ ERROR_FD := by decide
  have hread := readFrames_written (fun _ => 0) hconn cutCharacter (List.replicate BUFFER 0)
  obtain rfl := Option.some.inj (hread.symm.trans hframes)
  exact absurd (htext ⟨true, TEXT, [0xA0]⟩ (by decide)).2.2 (by decide)

/-- The same character in one read, a line feed in the next. -/
def wholeCharacter : List Chunk :=
  [⟨[0xE4, 0xBD, 0xA0], by decide, by decide⟩, ⟨[0x0A], by decide, by decide⟩]

theorem terminal_frames_are_text_whole_character :
    TextFrames (mReaderThread (fun _ => 0) 7 (List.replicate BUFFER 0) wholeCharacter)
      (stream wholeCharacter) :=
  (terminal_frames_are_text_iff (fun _ => 0) (by decide) (by decide)).mpr (by decide)

end TerminalOutput
