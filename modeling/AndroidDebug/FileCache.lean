import AndroidDebug.WriteOnceTable
import Mathlib.Data.List.Infix
import Mathlib.Data.Nat.Notation

/-! The views that answer GET requests, with their cache of gzipped files and templates. The
cache is one flat directory of the file system that the outside world also writes to. -/
namespace FileCache

open WriteOnceTable (Coding Steady Faithful reply)

abbrev Bytes := List UInt8

structure Path where
  dir : String
  name : String
  deriving DecidableEq, Repr

abbrev Files := Path → Option Bytes

/-- What the views rely on: the gzip streams, the template engine over the files it finds,
the table of file types and the place of the external storage. -/
structure Services (δ : Type*) where
  gzip : Bytes → Bytes
  gunzip : Bytes → Option Bytes
  gunzip_gzip : ∀ b, gunzip (gzip b) = some b
  process : Files → String → Option δ → Bytes
  getFromFile : Path → Option String
  externalStorage : String

structure Config where
  USE_GZIP : Bool
  USE_FILE_CACHE : Bool
  deriving DecidableEq, Repr

def ENCODING : String := "UTF-8"

def EXT_GZIP : String := ".gz"

/-- The value of the first Accept-Encoding header. -/
structure HttpRequest where
  acceptEncoding : Option String
  deriving DecidableEq, Repr

structure Response where
  contentEncoding : Option String
  contentType : Option String
  body : Bytes
  deriving DecidableEq, Repr

def isGZipSupported (request : HttpRequest) : Bool :=
  match request.acceptEncoding with
  | some v => "gzip".toList <:+: v.toLower.toList
  | none => false

def lastIndexOf (c : Char) (l : List Char) : ℤ :=
  match l.reverse.idxOf? c with
  | some i => (l.length : ℤ) - 1 - i
  | none => -1

/-- A name has no slash, but it may have a backslash. -/
def getExtension (name : String) : String :=
  let l := name.toList
  let i := lastIndexOf '.' l
  let p := max (lastIndexOf '/' l) (lastIndexOf '\\' l)
  if i > p then String.ofList (l.drop (i + 1).toNat) else ""

def gzipSet : List String := ["htm", "html", "js", "css"]

def isGzipFile (file : Path) : Bool := getExtension file.name ∈ gzipSet

def cacheSet : List String := ["403.html", "404.html", "503.html"]

def isCacheTemp (tempFile : String) : Bool := tempFile ∈ cacheSet

def Response.file (fs : Files) (file : Path) (contentType : Option String) : Option Response := do
  let b ← fs file
  return ⟨none, contentType, b⟩

def Response.string (content : Bytes) : Response :=
  ⟨none, some ("text/plain; charset=" ++ ENCODING), content⟩

variable {δ : Type*} (s : Services δ) (cfg : Config)

def FILE_CACHE_DIR : String := s.externalStorage ++ "/.ws/" ++ "cache/"

def Response.gzipFile (fs : Files) (file : Path) (contentType : Option String)
    (isGzipFile : Bool) : Option Response := do
  let b ← fs file
  return ⟨some "gzip", contentType, if isGzipFile then b else s.gzip b⟩

def Response.gzipByteArray (byteArray : Bytes) (isGzipByteArray : Bool) : Response :=
  ⟨some "gzip", none, if isGzipByteArray then byteArray else s.gzip byteArray⟩

/-- `none` is an IOException. -/
def gzipTo (fs : Files) (source target : Path) : Option Files := do
  let b ← fs source
  return Function.update fs target (some (s.gzip b))

/-- The type given, or else the one that the file's name has in the table. -/
def FileView.contentTypeOf (file : Path) (contentType : Option String) : String :=
  contentType.getD (match s.getFromFile file with
    | none => "charset=" ++ ENCODING
    | some mime => mime ++ ";charset=" ++ ENCODING)

def FileView.render (fs : Files) (request : HttpRequest) (file : Path)
    (contentType : Option String) : Option (Files × Response) := do
  let contentType := FileView.contentTypeOf s file contentType
  if cfg.USE_GZIP ∧ isGZipSupported request ∧ isGzipFile file then
    if cfg.USE_FILE_CACHE then
      let cacheFile : Path := ⟨FILE_CACHE_DIR s, file.name ++ EXT_GZIP⟩
      let fs ← (if (fs cacheFile).isSome then some fs else gzipTo s fs file cacheFile)
      return (fs, ← Response.gzipFile s fs cacheFile contentType true)
    else return (fs, ← Response.gzipFile s fs file contentType false)
  else return (fs, ← Response.file fs file contentType)

def TempView.renderFromCacheGzipFile (fs : Files) (cacheFile : Path) (tempFile : String)
    (data : Option δ) : Option (Files × Response) := do
  let fs := if (fs cacheFile).isSome then fs
    else Function.update fs cacheFile (some (s.gzip (s.process fs tempFile data)))
  return (fs, ← Response.gzipFile s fs cacheFile (some "text/html") true)

def TempView.renderFromCacheFile (fs : Files) (cacheFile : Path) (tempFile : String)
    (data : Option δ) : Option (Files × Response) := do
  let fs := if (fs cacheFile).isSome then fs
    else Function.update fs cacheFile (some (s.process fs tempFile data))
  return (fs, ← Response.file fs cacheFile (some "text/html"))

def TempView.render (fs : Files) (request : HttpRequest) (tempFile : String)
    (data : Option δ) : Option (Files × Response) :=
  if cfg.USE_GZIP ∧ isGZipSupported request then
    if cfg.USE_FILE_CACHE ∧ isCacheTemp tempFile then
      TempView.renderFromCacheGzipFile s fs ⟨FILE_CACHE_DIR s, tempFile ++ EXT_GZIP⟩ tempFile data
    else some (fs, Response.gzipByteArray s (s.process fs tempFile data) false)
  else if cfg.USE_FILE_CACHE ∧ isCacheTemp tempFile then
    TempView.renderFromCacheFile s fs ⟨FILE_CACHE_DIR s, tempFile⟩ tempFile data
  else some (fs, Response.string (s.process fs tempFile data))

inductive Request (δ : Type*) where
  | file (request : HttpRequest) (file : Path) (contentType : Option String)
  | temp (request : HttpRequest) (tempFile : String) (data : Option δ)

/-- The handler asks for a view of a file only when the file exists. -/
def answer (fs : Files) : Request δ → Option (Files × Response)
  | .file request file contentType =>
    if (fs file).isSome then FileView.render s cfg fs request file contentType else none
  | .temp request tempFile data => TempView.render s cfg fs request tempFile data

inductive Event (δ : Type*) where
  | write (p : Path) (content : Option Bytes)
  | get (r : Request δ)

def next (fs : Files) : Event δ → Files
  | .write p content => Function.update fs p content
  | .get r => ((answer s cfg fs r).map Prod.fst).getD fs

/-- The content of the file, or the rendering of the template, at this time. -/
def wanted (fs : Files) : Request δ → Option Bytes
  | .file _ file _ => fs file
  | .temp _ tempFile data => some (s.process fs tempFile data)

/-- The body after gunzip when it is gzipped. -/
def Response.decoded (r : Response) : Option Bytes :=
  match r.contentEncoding with
  | some _ => s.gunzip r.body
  | none => some r.body

def Right (fs : Files) : Event δ → Prop
  | .write _ _ => True
  | .get r => ∀ x ∈ answer s cfg fs r, Response.decoded s x.2 = wanted s fs r

/-- Every response has what was asked for, as it was at the time of the request. -/
def Transparent (fs : Files) : List (Event δ) → Prop
  | [] => True
  | e :: es => Right s cfg fs e ∧ Transparent (next s cfg fs e) es

/-- The cache file of a request that goes through the cache. -/
def cacheFile : Request δ → Option Path
  | .file request file _ =>
    if cfg.USE_GZIP ∧ isGZipSupported request ∧ isGzipFile file ∧ cfg.USE_FILE_CACHE then
      some ⟨FILE_CACHE_DIR s, file.name ++ EXT_GZIP⟩
    else none
  | .temp request tempFile _ =>
    if cfg.USE_FILE_CACHE ∧ isCacheTemp tempFile then
      if cfg.USE_GZIP ∧ isGZipSupported request then
        some ⟨FILE_CACHE_DIR s, tempFile ++ EXT_GZIP⟩
      else some ⟨FILE_CACHE_DIR s, tempFile⟩
    else none

def gzipped (p : Path) : Bool := EXT_GZIP.toList <:+ p.name.toList

/-- Cache files are gzipped or plain by their names. -/
def coding : Coding Path Bytes Bytes where
  enc p v := if gzipped p then s.gzip v else v
  dec p b := if gzipped p then s.gunzip b else some b
  dec_enc p v := by
    cases h : gzipped p
    · simp
    · simp [s.gunzip_gzip]

theorem gzipped_ext (dir name : String) : gzipped ⟨dir, name ++ EXT_GZIP⟩ = true := by
  simp [gzipped, String.toList_append]

theorem gzipped_temp (dir : String) {tempFile : String} (h : isCacheTemp tempFile = true) :
    gzipped ⟨dir, tempFile⟩ = false := by
  have hmem : tempFile ∈ cacheSet := by simpa [isCacheTemp] using h
  have hall : ∀ t ∈ cacheSet, decide (EXT_GZIP.toList <:+ t.toList) = false := by decide
  exact hall tempFile hmem

section Answers

variable {s cfg} {fs : Files} {r : Request δ} {c : Path} {w : Bytes}

/-- Filling an empty cache file, or leaving one that is there, is an ask of the table. -/
theorem filled_eq_step {x : Bytes} (hx : (coding s).enc c w = x) :
    (if (fs c).isSome then fs else Function.update fs c (some x)) =
      WriteOnceTable.step (coding s) fs (.ask c w) := by
  cases hb : fs c with
  | none => simp [WriteOnceTable.step, reply, hb, hx]
  | some b =>
    have hsame : Function.update fs c (some b) = fs := by
      rw [← hb, Function.update_eq_self]
    simp [WriteOnceTable.step, reply, hb, hsame]

theorem step_ask_self :
    WriteOnceTable.step (coding s) fs (.ask c w) c = some (reply (coding s) fs c w) := by
  simp [WriteOnceTable.step]

theorem coding_dec_gzipped (hp : gzipped c = true) (b : Bytes) :
    (coding s).dec c b = s.gunzip b := by
  simp [coding, hp]

theorem coding_dec_plain (hp : gzipped c = false) (b : Bytes) : (coding s).dec c b = some b := by
  simp [coding, hp]

/-- gzipTo fills the cache file unless it is there. -/
theorem gzipTo_fills {file : Path} (hc : gzipped c = true) (hw : fs file = some w) :
    (if (fs c).isSome then some fs else gzipTo s fs file c) =
      some (WriteOnceTable.step (coding s) fs (.ask c w)) := by
  have henc : (coding s).enc c w = s.gzip w := by simp [coding, hc]
  rw [← filled_eq_step henc, gzipTo, hw]
  split <;> rfl

theorem FileView.answer_cached {request : HttpRequest} {file : Path} {contentType : Option String}
    (hc : cacheFile s cfg (.file request file contentType) = some c) (hw : fs file = some w) :
    ∃ resp, answer s cfg fs (.file request file contentType) =
        some (WriteOnceTable.step (coding s) fs (.ask c w), resp) ∧
      Response.decoded s resp = (coding s).dec c (reply (coding s) fs c w) := by
  simp only [cacheFile] at hc
  split at hc
  · rename_i hcond
    obtain ⟨hgz, hsup, hext, hcache⟩ := hcond
    obtain rfl := Option.some.inj hc
    have hname := gzipped_ext (FILE_CACHE_DIR s) file.name
    refine ⟨⟨some "gzip", some (FileView.contentTypeOf s file contentType),
      reply (coding s) fs ⟨FILE_CACHE_DIR s, file.name ++ EXT_GZIP⟩ w⟩, ?_,
      (coding_dec_gzipped hname _).symm⟩
    simp only [answer, hw, Option.isSome_some, if_true, FileView.render, hgz, hsup, hext,
      hcache, and_self, gzipTo_fills hname hw]
    simp [Response.gzipFile, step_ask_self]
  · cases hc

theorem TempView.answer_cached {request : HttpRequest} {tempFile : String} {data : Option δ}
    (hc : cacheFile s cfg (.temp request tempFile data) = some c) :
    ∃ resp, answer s cfg fs (.temp request tempFile data) =
        some (WriteOnceTable.step (coding s) fs (.ask c (s.process fs tempFile data)), resp) ∧
      Response.decoded s resp =
        (coding s).dec c (reply (coding s) fs c (s.process fs tempFile data)) := by
  simp only [cacheFile] at hc
  split at hc
  · rename_i hcache
    split at hc
    · rename_i hgz
      obtain rfl := Option.some.inj hc
      have hname := gzipped_ext (FILE_CACHE_DIR s) tempFile
      have henc : (coding s).enc ⟨FILE_CACHE_DIR s, tempFile ++ EXT_GZIP⟩
          (s.process fs tempFile data) = s.gzip (s.process fs tempFile data) := by
        simp [coding, hname]
      refine ⟨⟨some "gzip", some "text/html", reply (coding s) fs
        ⟨FILE_CACHE_DIR s, tempFile ++ EXT_GZIP⟩ (s.process fs tempFile data)⟩, ?_,
        (coding_dec_gzipped hname _).symm⟩
      simp only [answer, TempView.render, hgz, hcache, and_self, if_true,
        TempView.renderFromCacheGzipFile, filled_eq_step henc]
      simp [Response.gzipFile, step_ask_self]
    · rename_i hgz
      obtain rfl := Option.some.inj hc
      have hname := gzipped_temp (FILE_CACHE_DIR s) hcache.2
      have henc : (coding s).enc ⟨FILE_CACHE_DIR s, tempFile⟩
          (s.process fs tempFile data) = s.process fs tempFile data := by
        simp [coding, hname]
      refine ⟨⟨none, some "text/html", reply (coding s) fs
        ⟨FILE_CACHE_DIR s, tempFile⟩ (s.process fs tempFile data)⟩, ?_,
        (coding_dec_plain hname _).symm⟩
      simp only [answer, TempView.render, hgz, hcache, and_self, if_true, if_false,
        TempView.renderFromCacheFile, filled_eq_step henc]
      simp [Response.file, step_ask_self]
  · cases hc

theorem answer_cached {r : Request δ} (hc : cacheFile s cfg r = some c)
    (hw : wanted s fs r = some w) :
    ∃ resp, answer s cfg fs r = some (WriteOnceTable.step (coding s) fs (.ask c w), resp) ∧
      Response.decoded s resp = (coding s).dec c (reply (coding s) fs c w) := by
  cases r with
  | file request file contentType => exact FileView.answer_cached hc hw
  | temp request tempFile data =>
    obtain rfl := Option.some.inj hw
    exact TempView.answer_cached hc

/-- A request that does not go through the cache gets what it wants. -/
theorem answer_uncached {r : Request δ} (hc : cacheFile s cfg r = none)
    (hw : wanted s fs r = some w) :
    ∃ resp, answer s cfg fs r = some (fs, resp) ∧ Response.decoded s resp = some w := by
  cases r with
  | file request file contentType =>
    have hfile : fs file = some w := hw
    simp only [cacheFile] at hc
    split at hc
    · cases hc
    · rename_i hcond
      by_cases hgz : cfg.USE_GZIP ∧ isGZipSupported request ∧ isGzipFile file
      · have hcache : ¬ cfg.USE_FILE_CACHE := fun h => hcond ⟨hgz.1, hgz.2.1, hgz.2.2, h⟩
        refine ⟨⟨some "gzip", some (FileView.contentTypeOf s file contentType), s.gzip w⟩, ?_,
          s.gunzip_gzip w⟩
        simp [answer, hfile, FileView.render, hgz, hcache, Response.gzipFile]
      · refine ⟨⟨none, some (FileView.contentTypeOf s file contentType), w⟩, ?_, rfl⟩
        simp only [answer, hfile, Option.isSome_some, if_true, FileView.render, hgz, if_false]
        simp [Response.file, hfile]
  | temp request tempFile data =>
    obtain rfl := Option.some.inj hw
    simp only [cacheFile] at hc
    split at hc
    · split at hc <;> cases hc
    · rename_i hcache
      by_cases hgz : cfg.USE_GZIP ∧ isGZipSupported request
      · refine ⟨Response.gzipByteArray s (s.process fs tempFile data) false, ?_,
          s.gunzip_gzip (s.process fs tempFile data)⟩
        simp only [answer, TempView.render, hgz, and_self, if_true, hcache, if_false]
      · refine ⟨Response.string (s.process fs tempFile data), ?_, rfl⟩
        simp only [answer, TempView.render, hgz, if_false, hcache]

theorem answer_missing {r : Request δ} (hw : wanted s fs r = none) : answer s cfg fs r = none := by
  cases r with
  | file request file contentType =>
    have hfile : fs file = none := hw
    simp [answer, hfile]
  | temp request tempFile data => cases hw

end Answers

instance (fs : Files) : ∀ e : Event δ, Decidable (Right s cfg fs e)
  | .write _ _ => isTrue trivial
  | .get r => inferInstanceAs (Decidable (∀ x ∈ answer s cfg fs r, _))

instance Transparent.decidable : ∀ (es : List (Event δ)) (fs : Files),
    Decidable (Transparent s cfg fs es)
  | [], _ => isTrue trivial
  | e :: es, fs =>
    have := Transparent.decidable es (next s cfg fs e)
    inferInstanceAs (Decidable (Right s cfg fs e ∧ Transparent s cfg (next s cfg fs e) es))

/-- What an event does to the cache: the outside may set any file, and a request that goes
through the cache asks for what it wants under its cache file. -/
def record (fs : Files) : Event δ → List (WriteOnceTable.Event Path Bytes Bytes)
  | .write p content => [.set p content]
  | .get r =>
    match cacheFile s cfg r, wanted s fs r with
    | some c, some w => [.ask c w]
    | _, _ => []

def history (fs : Files) : List (Event δ) → List (WriteOnceTable.Event Path Bytes Bytes)
  | [] => []
  | e :: es => record s cfg fs e ++ history (next s cfg fs e) es

section Transparency

variable {s cfg} {fs : Files}

/-- The file system with its cache files is a write-once table. -/
theorem next_eq_run (e : Event δ) :
    next s cfg fs e = WriteOnceTable.run (coding s) fs (record s cfg fs e) := by
  cases e with
  | write p content => rfl
  | get r =>
    cases hw : wanted s fs r with
    | none => simp [next, record, hw, answer_missing hw, WriteOnceTable.run]
    | some w =>
      cases hc : cacheFile s cfg r with
      | none =>
        obtain ⟨resp, hresp, -⟩ := answer_uncached hc hw
        simp [next, record, hc, hresp, WriteOnceTable.run]
      | some c =>
        obtain ⟨resp, hresp, -⟩ := answer_cached hc hw
        simp [next, record, hc, hw, hresp, WriteOnceTable.run]

theorem right_iff_faithful (e : Event δ) :
    Right s cfg fs e ↔ Faithful (coding s) fs (record s cfg fs e) := by
  cases e with
  | write p content => exact Iff.rfl
  | get r =>
    cases hw : wanted s fs r with
    | none => simp [Right, record, hw, answer_missing hw, Faithful]
    | some w =>
      cases hc : cacheFile s cfg r with
      | none =>
        obtain ⟨resp, hresp, hdec⟩ := answer_uncached hc hw
        simp [Right, record, hc, hw, hresp, hdec, Faithful]
      | some c =>
        obtain ⟨resp, hresp, hdec⟩ := answer_cached hc hw
        simp [Right, record, hc, hw, hresp, hdec, Faithful]

theorem transparent_iff_faithful (es : List (Event δ)) :
    Transparent s cfg fs es ↔ Faithful (coding s) fs (history s cfg fs es) := by
  induction es generalizing fs with
  | nil => exact Iff.rfl
  | cons e es ih =>
    rw [Transparent, history, WriteOnceTable.faithful_append, right_iff_faithful, ih,
      ← next_eq_run]

theorem cacheFile_dir {r : Request δ} {c : Path} (hc : cacheFile s cfg r = some c) :
    c.dir = FILE_CACHE_DIR s := by
  cases r with
  | file request file contentType =>
    simp only [cacheFile] at hc
    split at hc <;> cases hc
    rfl
  | temp request tempFile data =>
    simp only [cacheFile] at hc
    split at hc
    · split at hc <;> cases hc <;> rfl
    · cases hc

theorem asked_in_cache {es : List (Event δ)} {c : Path} {w : Bytes}
    (h : .ask c w ∈ history s cfg fs es) : c.dir = FILE_CACHE_DIR s := by
  induction es generalizing fs with
  | nil => cases h
  | cons e es ih =>
    rcases List.mem_append.mp h with he | hes
    · cases e with
      | write p content => simp [record] at he
      | get r =>
        cases hc : cacheFile s cfg r with
        | none => simp [record, hc] at he
        | some p =>
          cases hw : wanted s fs r with
          | none => simp [record, hc, hw] at he
          | some v =>
            simp only [record, hc, hw, List.mem_singleton] at he
            obtain ⟨rfl, -⟩ := WriteOnceTable.Event.ask.inj he
            exact cacheFile_dir hc
    · exact ih hes

end Transparency

/-- A file system whose cache directory is empty. -/
structure FreshFiles where
  files : Files
  empty : ∀ name, files ⟨FILE_CACHE_DIR s, name⟩ = none

/-- Requests are answered with what they ask for exactly when, between two changes of a cache
file from outside, all the requests cached under it ask for the same content, which is also
what the outside wrote there if it did. -/
theorem transparent_iff_steady (start : FreshFiles s) (es : List (Event δ)) :
    Transparent s cfg start.files es ↔ Steady (coding s) (history s cfg start.files es) := by
  rw [transparent_iff_faithful]
  apply WriteOnceTable.faithful_iff_steady
  intro c w h
  have hdir := asked_in_cache h
  have hempty := start.empty c.name
  rwa [← hdir] at hempty

theorem transparent_without_cache (hoff : cfg.USE_FILE_CACHE = false) (fs : Files)
    (es : List (Event δ)) : Transparent s cfg fs es := by
  have hnone : ∀ r : Request δ, cacheFile s cfg r = none := by
    intro r
    cases r <;> simp [cacheFile, hoff]
  induction es generalizing fs with
  | nil => trivial
  | cons e es ih =>
    refine ⟨?_, ih _⟩
    cases e with
    | write p content => trivial
    | get r =>
      rw [right_iff_faithful]
      simp [record, hnone r, Faithful]

/-- Gzip as far as the magic number goes, and no templates. -/
def standIn : Services Unit where
  gzip b := 0x1f :: 0x8b :: b
  gunzip
    | 0x1f :: 0x8b :: b => some b
    | _ => none
  gunzip_gzip _ := rfl
  process _ _ _ := []
  getFromFile _ := some "text/html"
  externalStorage := "/sdcard"

def gzipRequest : HttpRequest := ⟨some "gzip, deflate"⟩

/-- Two pages of one name in different directories. -/
def twoPages : FreshFiles standIn where
  files p :=
    if p = ⟨"/sdcard/a/", "index.html"⟩ then some [65]
    else if p = ⟨"/sdcard/b/", "index.html"⟩ then some [66]
    else none
  empty name := by
    have ha : FILE_CACHE_DIR standIn ≠ "/sdcard/a/" := by decide
    have hb : FILE_CACHE_DIR standIn ≠ "/sdcard/b/" := by decide
    simp [ha, hb]

def getPage (dir : String) : Event Unit := .get (.file gzipRequest ⟨dir, "index.html"⟩ none)

/-- The page of one directory is answered with that of another, and a page is answered as it
was before it was written anew. -/
theorem transparent_fails_same_name :
    ¬ Transparent standIn ⟨true, true⟩ twoPages.files
        [getPage "/sdcard/a/", getPage "/sdcard/b/"] ∧
      ¬ Transparent standIn ⟨true, true⟩ twoPages.files
        [getPage "/sdcard/a/", .write ⟨"/sdcard/a/", "index.html"⟩ (some [67]),
          getPage "/sdcard/a/"] := by
  decide +kernel

end FileCache
