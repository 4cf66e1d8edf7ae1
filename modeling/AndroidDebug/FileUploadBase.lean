import AndroidDebug.MultipartStream
import AndroidDebug.ParameterParser

/-! The items of an upload request, as FileUploadBase takes them from its multipart stream. -/
namespace FileUploadBase

open JavaText MultipartStream ByteSource
open ParameterParser (toLowerCase)

def CONTENT_TYPE : JString := ofString "Content-type"
def CONTENT_DISPOSITION : JString := ofString "Content-disposition"
def FORM_DATA : JString := ofString "form-data"
def ATTACHMENT : JString := ofString "attachment"
def MULTIPART : JString := ofString "multipart/"
def MULTIPART_MIXED : JString := ofString "multipart/mixed"

def cr : UInt16 := 0x0D
def lf : UInt16 := 0x0A
def blank : UInt16 := 0x20
def tab : UInt16 := 0x09
def colon : UInt16 := 0x3A
def semicolon : UInt16 := 0x3B
def comma : UInt16 := 0x2C

/-- The text of a header section is read in the encoding that the request names, or else the one
of the platform. -/
structure Runtime extends ParameterParser.Runtime where
  decodeHeaders : Bytes → JString

/-- How a request fails that is not an upload, or not a whole one. -/
inductive Failure where
  | invalidContentType
  | noBoundary
  | multipart (fault : Fault)
  | illegalState
  | nullPointer
  deriving DecidableEq, Repr

/-- `String.trim` -/
def trimmed (s : JString) : JString :=
  ((s.dropWhile (· ≤ blank)).reverse.dropWhile (· ≤ blank)).reverse

variable (rt : Runtime)

def lower (s : JString) : JString := toLowerCase rt.toRuntime s

/-! Parameters of a header. -/

/-- `parse(str, separators)` uses the separator that comes first. -/
def separatorOf (separators : List UInt16) (s : JString) : UInt16 :=
  (s.find? (· ∈ separators)).getD (separators.headD 0)

def containsKey (params : List (JString × Option JString)) (name : JString) : Bool :=
  params.any fun p => p.1 = name

/-- `getBytes("ISO-8859-1")` -/
def latin1 (s : JString) : Bytes := s.map fun u => if u.toNat < 0x100 then u.toUInt8 else 0x3F

def getBoundary (contentType : Option JString) : Option Bytes := do
  let contentType ← contentType
  let params := ParameterParser.parse rt.toRuntime (separatorOf [semicolon, comma] contentType)
    contentType
  let boundaryStr ← ParameterParser.getValue params (ofString "boundary")
  return latin1 boundaryStr

def getFileName (pContentDisposition : Option JString) : Option JString := do
  let pContentDisposition ← pContentDisposition
  let cdl := lower rt pContentDisposition
  if FORM_DATA <+: cdl ∨ ATTACHMENT <+: cdl then
    let params := ParameterParser.parse rt.toRuntime semicolon pContentDisposition
    if containsKey params (ofString "filename") then
      -- a parameter without a value is an empty file name, not none
      some (((ParameterParser.getValue params (ofString "filename")).map trimmed).getD [])
    else none
  else none

def getFieldName (pContentDisposition : Option JString) : Option JString := do
  let pContentDisposition ← pContentDisposition
  if FORM_DATA <+: lower rt pContentDisposition then
    let params := ParameterParser.parse rt.toRuntime semicolon pContentDisposition
    (ParameterParser.getValue params (ofString "name")).map trimmed
  else none

/-! Headers. -/

/-- The values under each lower-case name, in the order of their first headers. -/
abbrev FileItemHeaders := List (JString × List JString)

def addHeader (headers : FileItemHeaders) (name value : JString) : FileItemHeaders :=
  let nameLower := lower rt name
  if headers.any fun h => h.1 = nameLower then
    headers.map fun h => if h.1 = nameLower then (h.1, h.2 ++ [value]) else h
  else headers ++ [(nameLower, [value])]

def getHeader (headers : FileItemHeaders) (name : JString) : Option JString :=
  (headers.find? fun h => h.1 = lower rt name).bind fun h => h.2.head?

/-- The line up to the next line break and what follows that; `none` is an exception. -/
def parseEndOfLine : JString → Option (JString × JString)
  | [] => none
  | [_] => none
  | u :: v :: rest =>
    if u = cr ∧ v = lf then some ([], rest)
    else (parseEndOfLine (v :: rest)).map fun line => (u :: line.1, line.2)

theorem parseEndOfLine_shortens {text : JString} {line rest : JString}
    (h : parseEndOfLine text = some (line, rest)) : rest.length < text.length := by
  fun_induction parseEndOfLine text generalizing line with
  | case1 => cases h
  | case2 => cases h
  | case3 u v tail heq =>
    cases h
    exact Nat.lt_succ_of_lt (Nat.lt_succ_self _)
  | case4 u v tail hne ih =>
    obtain ⟨⟨first, after⟩, hline, hpair⟩ := Option.map_eq_some_iff.mp h
    cases hpair
    exact Nat.lt_succ_of_lt (ih hline)

def isBlank (u : UInt16) : Bool := u = blank || u = tab

/-- A line that begins with a blank goes on with the header before it. -/
def continuation (header text : JString) : Option (JString × JString) :=
  let rest := text.dropWhile isBlank
  if rest.length = text.length then some (header, text)
  else
    match h : parseEndOfLine rest with
    | none => none
    | some (line, after) =>
      have : after.length < text.length :=
        Nat.lt_of_lt_of_le (parseEndOfLine_shortens h) (List.dropWhile_suffix _).length_le
      continuation (header ++ blank :: line) after
termination_by text.length

theorem continuation_shortens {header text line rest : JString}
    (h : continuation header text = some (line, rest)) : rest.length ≤ text.length := by
  fun_induction continuation header text with
  | case1 => cases h; exact Nat.le_refl _
  | case2 => cases h
  | case3 header text rest' hne line' after heq hlt ih => exact Nat.le_of_lt ((ih h).trans_lt hlt)

/-- A line without a colon is passed over. -/
def parseHeaderLine (headers : FileItemHeaders) (header : JString) : FileItemHeaders :=
  if colon ∈ header then
    let headerName := trimmed (header.takeWhile (· ≠ colon))
    let headerValue := trimmed ((header.dropWhile (· ≠ colon)).drop 1)
    addHeader rt headers headerName headerValue
  else headers

def parsedHeaders (headers : FileItemHeaders) (text : JString) : Option FileItemHeaders :=
  match h : parseEndOfLine text with
  | none => none
  | some (line, rest) =>
    if line = [] then some headers
    else
      match hc : continuation line rest with
      | none => none
      | some (header, after) =>
        have : after.length < text.length :=
          Nat.lt_of_le_of_lt (continuation_shortens hc) (parseEndOfLine_shortens h)
        parsedHeaders (parseHeaderLine rt headers header) after
termination_by text.length

/-- `none` is an `IllegalStateException`. -/
def getParsedHeaders (headerPart : JString) : Option FileItemHeaders :=
  parsedHeaders rt [] headerPart

/-! Items. -/

structure FileItemStream where
  name : Option JString
  fieldName : JString
  contentType : Option JString
  formField : Bool
  headers : FileItemHeaders

/-- `eof` once the outer parts have ended, `itemValid` while an item waits to be taken, and
`currentFieldName` while the parts of a nested body are read. -/
structure FileItemIterator where
  multi : Stream
  boundary : Bytes
  currentItem : Option (FileItemStream × Item)
  currentFieldName : Option JString
  skipPreamble : Bool
  itemValid : Bool
  eof : Bool

/-- `new FileItemStreamImpl(..)`, whose stream begins where the headers end. -/
def FileItemIterator.found (it : FileItemIterator) (item : FileItemStream) : FileItemIterator :=
  let inner := newInputStream it.multi
  { it with
    multi := { it.multi with notifier := it.multi.notifier.noteItem }
    currentItem := some (item, inner)
    itemValid := true }

/-- What a part is, from its headers: an item, a nested body with this content type, or a part
that is passed over. -/
inductive PartKind where
  | item (item : FileItemStream)
  | mixed (fieldName : JString) (subContentType : JString)
  | ignored

def partKind (currentFieldName : Option JString) (headers : FileItemHeaders) : PartKind :=
  let contentType := getHeader rt headers CONTENT_TYPE
  let disposition := getHeader rt headers CONTENT_DISPOSITION
  match currentFieldName with
  | none =>
    match getFieldName rt disposition with
    | none => .ignored
    | some fieldName =>
      match contentType.filter fun subContentType =>
          MULTIPART_MIXED <+: lower rt subContentType with
      | some subContentType => .mixed fieldName subContentType
      | none =>
        let fileName := getFileName rt disposition
        .item ⟨fileName, fieldName, contentType, fileName.isNone, headers⟩
  | some currentFieldName =>
    match getFileName rt disposition with
    | none => .ignored
    | some fileName => .item ⟨some fileName, currentFieldName, contentType, false, headers⟩

/-- After the last part of a nested body the outer one goes on with `next`. -/
def bodyEnded (next : FileItemIterator → Except Failure Bool × FileItemIterator)
    (it : FileItemIterator) : Except Failure Bool × FileItemIterator :=
  match it.currentFieldName with
  | none => (.ok false, { it with eof := true })
  | some _ =>
    match setBoundary it.multi it.boundary with
    | (.error e, multi) => (.error (.multipart e), { it with multi })
    | (.ok (), multi) => next { it with multi, currentFieldName := none }

/-- The headers of a part say what it is; `next` looks for another one. -/
def partOpened (next : FileItemIterator → Except Failure Bool × FileItemIterator)
    (headers : FileItemHeaders) (it : FileItemIterator) :
    Except Failure Bool × FileItemIterator :=
  match partKind rt it.currentFieldName headers with
  | .item item => (.ok true, it.found item)
  | .mixed fieldName subContentType =>
    let it := { it with currentFieldName := some fieldName }
    match getBoundary rt (some subContentType) with
    | none => (.error .nullPointer, it)
    | some subBoundary =>
      match setBoundary it.multi subBoundary with
      | (.error e, multi) => (.error (.multipart e), { it with multi })
      | (.ok (), multi) => next { it with multi, skipPreamble := true }
  | .ignored =>
    match discardBodyData it.multi with
    | (.error e, multi) => (.error (.multipart e), { it with multi })
    | (.ok (), multi) => next { it with multi }

def partBegun (next : FileItemIterator → Except Failure Bool × FileItemIterator)
    (it : FileItemIterator) : Except Failure Bool × FileItemIterator :=
  match readHeaders it.multi with
  | (.error e, multi) => (.error (.multipart e), { it with multi })
  | (.ok headerPart, multi) =>
    match getParsedHeaders rt (rt.decodeHeaders headerPart) with
    | none => (.error .illegalState, { it with multi })
    | some headers => partOpened rt next headers { it with multi }

/-- One part after another until there is an item or the end. -/
def nextItemLoop : ℕ → FileItemIterator → Except Failure Bool × FileItemIterator
  | 0, it => (.error (.multipart .stalled), it)
  | fuel + 1, it =>
    let found := if it.skipPreamble then MultipartStream.skipPreamble it.multi
      else readBoundary it.multi
    let it := { it with multi := found.2 }
    match found.1 with
    | .error e => (.error (.multipart e), it)
    | .ok false => bodyEnded (nextItemLoop fuel) it
    | .ok true => partBegun rt (nextItemLoop fuel) it

/-- An item that is left is closed, so that the stream stands behind it. -/
def findNextItem (it : FileItemIterator) : Except Failure Bool × FileItemIterator :=
  if it.eof then (.ok false, it)
  else
    match it.currentItem with
    | none => nextItemLoop rt (2 * it.multi.turns) it
    | some (item, inner) =>
      match close it.multi inner with
      | (.error e, multi, inner) =>
        (.error (.multipart e), { it with multi, currentItem := some (item, inner) })
      | (.ok (), multi, _) =>
        nextItemLoop rt (2 * multi.turns) { it with multi, currentItem := none }

def hasNext (it : FileItemIterator) : Except Failure Bool × FileItemIterator :=
  if it.eof then (.ok false, it)
  else if it.itemValid then (.ok true, it)
  else findNextItem rt it

/-- `new FileItemIteratorImpl(ctx)`; no limit is set on the size. -/
def getItemIterator (bufSize : ℕ) (contentType : Option JString) (input : Source UInt8) :
    Except Failure FileItemIterator × ProgressNotifier :=
  let notifier : ProgressNotifier := ⟨0, 0, []⟩
  if (contentType.filter fun c => MULTIPART <+: lower rt c).isNone then
    (.error .invalidContentType, notifier)
  else
    match getBoundary rt contentType with
    | none => (.error .noBoundary, notifier)
    | some boundary =>
      let multi := create input boundary bufSize notifier
      let found := findNextItem rt ⟨multi, boundary, none, none, true, false, false⟩
      (found.1.map fun _ => found.2, found.2.multi.notifier)

/-- What the factory makes of an item, with the bytes copied into it. -/
structure FileItem where
  stream : FileItemStream
  content : Bytes

/-- The loop of `parseRequest`: the item is taken, copied whole and kept. -/
def parseItems : ℕ → FileItemIterator → Except Failure (List FileItem) × FileItemIterator
  | 0, it => (.error (.multipart .stalled), it)
  | fuel + 1, it =>
    match hasNext rt it with
    | (.error e, it) => (.error e, it)
    | (.ok false, it) => (.ok [], it)
    | (.ok true, it) =>
      match it.currentItem with
      | none => (.error .nullPointer, it)
      | some (item, inner) =>
        match copy it.multi inner with
        | (.error e, multi, inner) =>
          (.error (.multipart e),
            { it with multi, itemValid := false, currentItem := some (item, inner) })
        | (.ok content, multi, inner) =>
          let rest := parseItems fuel
            { it with multi, itemValid := false, currentItem := some (item, inner) }
          (rest.1.map fun items => ⟨item, content⟩ :: items, rest.2)

/-- The items of a request, and what its listener has been told. -/
def parseRequest (bufSize : ℕ) (contentType : Option JString) (input : Source UInt8) :
    Except Failure (List FileItem) × ProgressNotifier :=
  match getItemIterator rt bufSize contentType input with
  | (.error e, notifier) => (.error e, notifier)
  | (.ok it, _) =>
    let done := parseItems rt it.multi.turns it
    (done.1, done.2.multi.notifier)

end FileUploadBase
