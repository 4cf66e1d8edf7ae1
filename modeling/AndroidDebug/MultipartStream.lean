import AndroidDebug.ByteSource
import AndroidDebug.Delimiter

/-! The reader of multipart bodies: one buffer of fixed size over a stream that arrives in
pieces. -/
namespace MultipartStream

open ByteSource

abbrev Bytes := List UInt8

def CR : UInt8 := 0x0D
def LF : UInt8 := 0x0A
def DASH : UInt8 := 0x2D

def HEADER_PART_SIZE_MAX : ℕ := 10240
def DEFAULT_BUFSIZE : ℕ := 4096
def HEADER_SEPARATOR : Bytes := [CR, LF, CR, LF]
def FIELD_SEPARATOR : Bytes := [CR, LF]
def STREAM_TERMINATOR : Bytes := [DASH, DASH]
def BOUNDARY_PREFIX : Bytes := [CR, LF, DASH, DASH]

/-- How a call ends if it does not return. `stalled` is no exception: a loop goes on for ever
without reading anything. -/
inductive Fault where
  | streamEnded
  | unexpectedCharacters
  | headerTooLong
  | noMoreData
  | itemSkipped
  | illegalBoundary
  | indexOutOfBounds
  | stalled
  deriving DecidableEq, Repr

def Fault.isMalformed : Fault → Bool
  | .streamEnded | .unexpectedCharacters | .headerTooLong => true
  | _ => false

def Fault.isIOException : Fault → Bool
  | .indexOutOfBounds | .stalled => false
  | _ => true

/-- `updates` are the calls of the listener: the bytes read and the items so far. -/
structure ProgressNotifier where
  bytesRead : ℕ
  items : ℕ
  updates : List (ℕ × ℕ)

def ProgressNotifier.notifyListener (n : ProgressNotifier) : ProgressNotifier :=
  { n with updates := n.updates ++ [(n.bytesRead, n.items)] }

def ProgressNotifier.noteBytesRead (n : ProgressNotifier) (pBytes : ℕ) : ProgressNotifier :=
  notifyListener { n with bytesRead := n.bytesRead + pBytes }

def ProgressNotifier.noteItem (n : ProgressNotifier) : ProgressNotifier :=
  notifyListener { n with items := n.items + 1 }

/-- After a failed refill `tail` is -1. -/
structure Stream where
  input : Source UInt8
  buffer : Bytes
  notifier : ProgressNotifier
  boundaryLength : ℕ
  keepRegion : ℕ
  boundary : Bytes
  head : ℤ
  tail : ℤ

def Stream.bufSize (s : Stream) : ℕ := s.buffer.length

def create (input : Source UInt8) (boundary : Bytes) (bufSize : ℕ) (notifier : ProgressNotifier) :
    Stream where
  input
  buffer := List.replicate bufSize 0
  notifier
  boundaryLength := boundary.length + BOUNDARY_PREFIX.length
  keepRegion := boundary.length + BOUNDARY_PREFIX.length
  boundary := BOUNDARY_PREFIX ++ boundary
  head := 0
  tail := 0

/-- `System.arraycopy`, for ranges that are there. -/
def arraycopy (src : Bytes) (srcPos : ℤ) (dest : Bytes) (destPos length : ℤ) : Bytes :=
  dest.take destPos.toNat ++ (src.drop srcPos.toNat).take length.toNat ++
    dest.drop (destPos + length).toNat

/-- What a read of `bytes` to the place `off` of the buffer leaves. -/
def Stream.filled (s : Stream) (off : ℤ) (bytes : Bytes) (input : Source UInt8) : Stream :=
  { s with
    input
    buffer := arraycopy bytes 0 s.buffer off bytes.length
    notifier := s.notifier.noteBytesRead bytes.length
    tail := off + bytes.length }

def nextByte (s : Stream) : Except Fault UInt8 × Stream :=
  match s.buffer[s.head.toNat]? with
  | none => (.error .indexOutOfBounds, { s with head := s.head + 1 })
  | some b => (.ok b, { s with head := s.head + 1 })

def readByte (s : Stream) : Except Fault UInt8 × Stream :=
  if s.head = s.tail then
    match s.input.read s.bufSize with
    | none => (.error .noMoreData, { s with head := 0, tail := -1 })
    | some (bytes, input) => nextByte { s.filled 0 bytes input with head := 0 }
  else nextByte s

/-- The bytes after a delimiter, inside the `try`. -/
def readMarker (s : Stream) : Except Fault Bool × Stream :=
  match readByte s with
  | (.error e, s) => (.error e, s)
  | (.ok first, s) =>
    if first = LF then (.ok true, s)
    else
      match readByte s with
      | (.error e, s) => (.error e, s)
      | (.ok second, s) =>
        if [first, second] = STREAM_TERMINATOR then (.ok false, s)
        else if [first, second] = FIELD_SEPARATOR then (.ok true, s)
        else (.error .unexpectedCharacters, s)

/-- Every exception of the stream becomes one of its end, the one about the characters too. -/
def readBoundary (s : Stream) : Except Fault Bool × Stream :=
  match readMarker { s with head := s.head + s.boundaryLength } with
  | (.error e, s) => (.error (if e.isIOException then .streamEnded else e), s)
  | (.ok nextChunk, s) => (.ok nextChunk, s)

def setBoundary (s : Stream) (boundary : Bytes) : Except Fault Unit × Stream :=
  if boundary.length + BOUNDARY_PREFIX.length ≠ s.boundaryLength then (.error .illegalBoundary, s)
  else
    (.ok (), { s with
      boundary := arraycopy boundary 0 s.boundary BOUNDARY_PREFIX.length boundary.length })

/-- `i` bytes of the separator have been read, and `size` bytes in all. -/
def readHeaderBytes (i size : ℕ) (baos : Bytes) (s : Stream) : Except Fault Bytes × Stream :=
  if HEADER_SEPARATOR.length ≤ i then (.ok baos, s)
  else
    match readByte s with
    | (.error e, s) => (.error (if e.isIOException then .streamEnded else e), s)
    | (.ok b, s) =>
      if HEADER_PART_SIZE_MAX < size + 1 then (.error .headerTooLong, s)
      else
        readHeaderBytes (if HEADER_SEPARATOR[i]? = some b then i + 1 else 0) (size + 1)
          (baos ++ [b]) s
termination_by HEADER_PART_SIZE_MAX - size

/-- The bytes of the header section, its separator included. -/
def readHeaders (s : Stream) : Except Fault Bytes × Stream := readHeaderBytes 0 0 [] s

/-- -1 if the byte is not there. -/
def findByte (s : Stream) (value : UInt8) (pos : ℤ) : ℤ :=
  match (List.range (s.tail - pos).toNat).find? fun k =>
      decide (s.buffer[pos.toNat + k]? = some value) with
  | some k => pos + k
  | none => -1

/-- The rest of the delimiter follows its first byte. -/
def matchesAt (s : Stream) (first : ℤ) : Bool :=
  (List.range s.boundaryLength).all fun k =>
    k = 0 || s.buffer[first.toNat + k]? == s.boundary[k]?

def findSeparatorFrom (s : Stream) : ℕ → ℤ → ℤ
  | 0, _ => -1
  | fuel + 1, first =>
    let maxpos := s.tail - s.boundaryLength
    if maxpos < first then -1
    else
      let first := findByte s (s.boundary.headD 0) first
      if first = -1 ∨ maxpos < first then -1
      else if matchesAt s first then first
      else findSeparatorFrom s fuel (first + 1)

def findSeparator (s : Stream) : ℤ := findSeparatorFrom s ((s.tail - s.head).toNat + 1) s.head

/-- The fields of an `ItemInputStream`; the stream around it is passed along. -/
structure Item where
  total : ℤ
  pad : ℤ
  pos : ℤ
  closed : Bool

def Item.findSeparator (s : Stream) (item : Item) : Item :=
  let pos := MultipartStream.findSeparator s
  if pos = -1 then
    { item with
      pos
      pad := if s.keepRegion < s.tail - s.head then s.keepRegion else s.tail - s.head }
  else { item with pos }

def newInputStream (s : Stream) : Item := Item.findSeparator s ⟨0, 0, 0, false⟩

def available (s : Stream) (item : Item) : ℤ :=
  if item.pos = -1 then s.tail - s.head - item.pad else item.pos - s.head

/-- Reads until there is something for the item, or its end. -/
def refill (s : Stream) (item : Item) : Except Fault ℤ × Stream × Item :=
  match h : s.input.read (s.bufSize - s.tail).toNat with
  | none => (.error .streamEnded, s, item)
  | some (bytes, input) =>
    let t := s.filled s.tail bytes input
    let item := item.findSeparator t
    let av := available t item
    if 0 < av ∨ item.pos ≠ -1 then (.ok av, t, item)
    -- nothing was read, so the next turn does not differ from this one
    else if hne : bytes = [] then (.error .stalled, t, item)
    else
      have : t.input.rest.length < s.input.rest.length := (brings_of_read h).length_lt hne
      refill t item
termination_by s.input.rest.length

def makeAvailable (s : Stream) (item : Item) : Except Fault ℤ × Stream × Item :=
  if item.pos ≠ -1 then (.ok 0, s, item)
  else
    let item := { item with total := item.total + (s.tail - s.head - item.pad) }
    if item.pad < 0 then (.error .indexOutOfBounds, s, item)
    else
      let buffer := arraycopy s.buffer (s.tail - item.pad) s.buffer 0 item.pad
      refill { s with buffer, head := 0, tail := item.pad } item

/-- The number that `available` gives, or `makeAvailable` after it. -/
def ensureAvailable (s : Stream) (item : Item) : Except Fault ℤ × Stream × Item :=
  let res := available s item
  if res = 0 then makeAvailable s item else (.ok res, s, item)

/-- `read(b, off, len)`; `none` is the end of the item. -/
def read (s : Stream) (item : Item) (len : ℕ) : Except Fault (Option Bytes) × Stream × Item :=
  if item.closed then (.error .itemSkipped, s, item)
  else if len = 0 then (.ok (some []), s, item)
  else
    match ensureAvailable s item with
    | (.error e, s, item) => (.error e, s, item)
    | (.ok res, s, item) =>
      if res = 0 then (.ok none, s, item)
      else
        let res := min res len
        (.ok (some ((s.buffer.drop s.head.toNat).take res.toNat)),
          { s with head := s.head + res }, { item with total := item.total + res })

/-- What was skipped does not count in `total`. -/
def skip (s : Stream) (item : Item) (bytes : ℕ) : Except Fault ℤ × Stream × Item :=
  if item.closed then (.error .itemSkipped, s, item)
  else
    match ensureAvailable s item with
    | (.error e, s, item) => (.error e, s, item)
    | (.ok av, s, item) =>
      if av = 0 then (.ok 0, s, item)
      else (.ok (min av bytes), { s with head := s.head + min av bytes }, item)

/-- Bytes in the buffer and in the stream, more than the turns of a loop that reads them. -/
def Stream.turns (s : Stream) : ℕ := (s.tail - s.head).toNat + s.input.rest.length + 1

def closeLoop : ℕ → Stream → Item → Except Fault Unit × Stream × Item
  | 0, s, item => (.error .stalled, s, item)
  | fuel + 1, s, item =>
    match ensureAvailable s item with
    | (.error e, s, item) => (.error e, s, item)
    | (.ok av, s, item) =>
      if av = 0 then (.ok (), s, { item with closed := true })
      else
        match skip s item av.toNat with
        | (.error e, s, item) => (.error e, s, item)
        | (.ok _, s, item) => closeLoop fuel s item

def close (s : Stream) (item : Item) : Except Fault Unit × Stream × Item :=
  if item.closed then (.ok (), s, item) else closeLoop s.turns s item

/-- `Streams.DEFAULT_BUFFER_SIZE` -/
def DEFAULT_BUFFER_SIZE : ℕ := 8192

def copyLoop : ℕ → Bytes → Stream → Item → Except Fault Bytes × Stream × Item
  | 0, _, s, item => (.error .stalled, s, item)
  | fuel + 1, out, s, item =>
    match read s item DEFAULT_BUFFER_SIZE with
    | (.error e, s, item) => (.error e, s, item)
    | (.ok none, s, item) => (.ok out, s, item)
    | (.ok (some bytes), s, item) => copyLoop fuel (out ++ bytes) s item

/-- `Streams.copy`: what is written, after which the item is closed. A failed copy closes it too
and ignores what comes of that. -/
def copy (s : Stream) (item : Item) : Except Fault Bytes × Stream × Item :=
  match copyLoop s.turns [] s item with
  | (.error e, s, item) =>
    if e = .stalled then (.error e, s, item) else (.error e, (close s item).2)
  | (.ok out, s, item) =>
    match close s item with
    | (.error e, s, item) => (.error e, s, item)
    | (.ok (), s, item) => (.ok out, s, item)

def readBodyData (s : Stream) : Except Fault Bytes × Stream :=
  let done := copy s (newInputStream s)
  (done.1, done.2.1)

def discardBodyData (s : Stream) : Except Fault Unit × Stream :=
  let done := readBodyData s
  (done.1.map fun _ => (), done.2)

/-- Inside the `try`. -/
def readToBoundary (s : Stream) : Except Fault Bool × Stream :=
  match discardBodyData s with
  | (.error e, s) => (.error e, s)
  | (.ok (), s) => readBoundary s

/-- The first delimiter has no line break in front of it, so the search leaves that out. -/
def skipPreamble (s : Stream) : Except Fault Bool × Stream :=
  let length := s.boundary.length
  let tried := readToBoundary { s with
    boundary := arraycopy s.boundary 2 s.boundary 0 (length - 2)
    boundaryLength := length - 2 }
  let s := tried.2
  let boundary := arraycopy s.boundary 0 s.boundary 2 (s.boundary.length - 2)
  (match tried.1 with
    | .error e => if e.isMalformed then .ok false else .error e
    | .ok nextChunk => .ok nextChunk,
    { s with boundaryLength := s.boundary.length, boundary := (boundary.set 0 CR).set 1 LF })

end MultipartStream
