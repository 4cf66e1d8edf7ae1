import AndroidDebug.FileCache
import AndroidDebug.JavaText

/-! TempView with the cache directory it writes to. The directory may be missing: the plain
cache makes it before it writes, the gzip cache opens its file right away. -/
namespace TemplateTransport

open FileCache (Bytes Services Config HttpRequest Response EXT_GZIP isGZipSupported isCacheTemp
  standIn)
open JavaText

/-- The cache directory and its files by name; `none` when there is no directory. -/
abbrev CacheDir := Option (String → Option Bytes)

def empty : CacheDir := some fun _ => none

def CacheDir.file (d : CacheDir) (name : String) : Option Bytes := d.bind fun files => files name

/-- `new FileOutputStream(file)` and what is written to it; `none` is a FileNotFoundException. -/
def CacheDir.write (d : CacheDir) (name : String) (content : Bytes) : Option CacheDir :=
  d.map fun files => some (Function.update files name (some content))

def CacheDir.mkdirs (d : CacheDir) : CacheDir := some (d.getD fun _ => none)

variable {δ : Type*} (s : Services δ) (cfg : Config)

def writeStringToGzipFile (d : CacheDir) (file : String) (data : JString) : Option CacheDir :=
  d.write file (s.gzip (getBytes data))

def writeStringToFile (d : CacheDir) (file : String) (data : JString) : Option CacheDir :=
  d.mkdirs.write file (getBytes data)

def renderFromCacheGzipFile (d : CacheDir) (cacheFile : String) (html : JString) :
    Option (CacheDir × Response) := do
  let d ← (if (d.file cacheFile).isSome then some d else writeStringToGzipFile s d cacheFile html)
  let content ← d.file cacheFile
  return (d, ⟨some "gzip", some "text/html", content⟩)

def renderFromCacheFile (d : CacheDir) (cacheFile : String) (html : JString) :
    Option (CacheDir × Response) := do
  let d ← (if (d.file cacheFile).isSome then some d else writeStringToFile d cacheFile html)
  let content ← d.file cacheFile
  return (d, ⟨none, some "text/html", content⟩)

/-- `html` is what TempHandler.render gives for the template; `none` is an IOException. -/
def render (d : CacheDir) (request : HttpRequest) (tempFile : String) (html : JString) :
    Option (CacheDir × Response) :=
  if cfg.USE_GZIP ∧ isGZipSupported request then
    if cfg.USE_FILE_CACHE ∧ isCacheTemp tempFile then
      renderFromCacheGzipFile s d (tempFile ++ EXT_GZIP) html
    else some (d, Response.gzipByteArray s (getBytes html) false)
  else if cfg.USE_FILE_CACHE ∧ isCacheTemp tempFile then renderFromCacheFile d tempFile html
  else some (d, Response.string (getBytes html))

/-- The states of the directory that renders leave behind under any settings; `rendered` are
the texts that the engine gave for each template. -/
inductive Reachable (rendered : String → JString → Prop) : CacheDir → Prop where
  | absent : Reachable rendered none
  | empty : Reachable rendered empty
  | render {d d' : CacheDir} {cfg : Config} {request : HttpRequest} {tempFile : String}
      {html : JString} {r : Response} : Reachable rendered d → rendered tempFile html →
      render s cfg d request tempFile html = some (d', r) → Reachable rendered d'

/-- Every client gets the rendering, whatever encodings it accepts. -/
def Independent (d : CacheDir) (tempFile : String) (html : JString) : Prop :=
  ∀ request, ∃ d' r, render s cfg d request tempFile html = some (d', r) ∧
    Response.decoded s r = some (getBytes html)

/-- A file that is there has this content. -/
def Holds (d : CacheDir) (name : String) (content : Bytes) : Prop :=
  ∀ b, d.file name = some b → b = content

/-- The directory is ready for a template that goes through the cache: its entries are up to
date, and it exists if the entry is gzipped. -/
structure Ready (d : CacheDir) (tempFile : String) (html : JString) : Prop where
  plain : Holds d tempFile (getBytes html)
  gzip : cfg.USE_GZIP = true → Holds d (tempFile ++ EXT_GZIP) (s.gzip (getBytes html))
  present : cfg.USE_GZIP = true → d.isSome = true

def Cached (tempFile : String) : Prop := cfg.USE_FILE_CACHE = true ∧ isCacheTemp tempFile = true

section Files

variable {d d' : CacheDir} {name other : String} {content b : Bytes}

theorem file_write (h : d.write name content = some d') (other : String) :
    d'.file other = if other = name then some content else d.file other := by
  obtain ⟨files, rfl, rfl⟩ := Option.map_eq_some_iff.mp h
  by_cases ho : other = name
  · subst ho
    simp [CacheDir.file]
  · simp [CacheDir.file, ho]

@[simp] theorem file_mkdirs (d : CacheDir) (name : String) : d.mkdirs.file name = d.file name := by
  cases d <;> rfl

theorem write_of_isSome (h : d.isSome = true) (name : String) (content : Bytes) :
    ∃ d', d.write name content = some d' := by
  obtain ⟨files, rfl⟩ := Option.isSome_iff_exists.mp h
  exact ⟨_, rfl⟩

theorem write_none (name : String) (content : Bytes) :
    CacheDir.write none name content = none := rfl

end Files

variable {s cfg} {d d' : CacheDir} {request : HttpRequest} {tempFile cacheFile : String}
  {html : JString} {r : Response}

theorem renderFromCacheGzipFile_hit {b : Bytes} (h : d.file cacheFile = some b) :
    renderFromCacheGzipFile s d cacheFile html =
      some (d, ⟨some "gzip", some "text/html", b⟩) := by
  simp [renderFromCacheGzipFile, h]

theorem renderFromCacheFile_hit {b : Bytes} (h : d.file cacheFile = some b) :
    renderFromCacheFile d cacheFile html = some (d, ⟨none, some "text/html", b⟩) := by
  simp [renderFromCacheFile, h]

/-- A missing file is written first and then served. -/
theorem renderFromCacheGzipFile_fill (h : d.file cacheFile = none) :
    renderFromCacheGzipFile s d cacheFile html =
      (d.write cacheFile (s.gzip (getBytes html))).map fun d' =>
        (d', ⟨some "gzip", some "text/html", s.gzip (getBytes html)⟩) := by
  rw [renderFromCacheGzipFile, writeStringToGzipFile, h, if_neg (by simp)]
  cases hw : d.write cacheFile (s.gzip (getBytes html)) with
  | none => rfl
  | some d' =>
    have hfile := file_write hw cacheFile
    rw [if_pos rfl] at hfile
    simp [hfile]

theorem renderFromCacheFile_fill (h : d.file cacheFile = none) :
    renderFromCacheFile d cacheFile html =
      (d.mkdirs.write cacheFile (getBytes html)).map fun d' =>
        (d', ⟨none, some "text/html", getBytes html⟩) := by
  rw [renderFromCacheFile, writeStringToFile, h, if_neg (by simp)]
  cases hw : d.mkdirs.write cacheFile (getBytes html) with
  | none => rfl
  | some d' =>
    have hfile := file_write hw cacheFile
    rw [if_pos rfl] at hfile
    simp [hfile]

theorem render_gzip (hc : Cached cfg tempFile) (hg : cfg.USE_GZIP = true)
    (hr : isGZipSupported request = true) : render s cfg d request tempFile html =
      renderFromCacheGzipFile s d (tempFile ++ EXT_GZIP) html := by
  rw [Cached] at hc
  rw [render, if_pos ⟨hg, hr⟩, if_pos hc]

theorem render_plain (hc : Cached cfg tempFile)
    (hr : ¬(cfg.USE_GZIP = true ∧ isGZipSupported request = true)) :
    render s cfg d request tempFile html = renderFromCacheFile d tempFile html := by
  rw [Cached] at hc
  rw [render, if_neg hr, if_pos hc]

theorem render_uncached (hc : ¬Cached cfg tempFile) : render s cfg d request tempFile html =
    some (d, if cfg.USE_GZIP = true ∧ isGZipSupported request = true then
      Response.gzipByteArray s (getBytes html) false else Response.string (getBytes html)) := by
  rw [Cached] at hc
  rw [render, if_neg hc, if_neg hc]
  split <;> rfl

/-- Each file holds a text that its template was rendered to, plain or gzipped by its name. -/
structure Entries (s : Services δ) (rendered : String → JString → Prop) (d : CacheDir) : Prop where
  plain : ∀ t b, isCacheTemp t = true → d.file t = some b →
    ∃ html, rendered t html ∧ b = getBytes html
  gzip : ∀ t b, d.file (t ++ EXT_GZIP) = some b →
    ∃ html, rendered t html ∧ b = s.gzip (getBytes html)

theorem ext_ne_temp {t : String} (ht : isCacheTemp t = true) (t' : String) :
    t ≠ t' ++ EXT_GZIP := by
  rintro rfl
  have hplain := FileCache.gzipped_temp "" ht
  rw [FileCache.gzipped_ext] at hplain
  cases hplain

theorem ext_injective {t t' : String} (h : t ++ EXT_GZIP = t' ++ EXT_GZIP) : t = t' := by
  have hl := congrArg String.toList h
  rw [String.toList_append, String.toList_append] at hl
  exact String.toList_inj.mp (List.append_cancel_right hl)

variable {rendered : String → JString → Prop}

theorem entries_gzip (h : Entries s rendered d) (hr : rendered tempFile html)
    (hw : d.write (tempFile ++ EXT_GZIP) (s.gzip (getBytes html)) = some d') :
    Entries s rendered d' where
  plain t b ht hb := by
    rw [file_write hw, if_neg (ext_ne_temp ht tempFile)] at hb
    exact h.plain t b ht hb
  gzip t b hb := by
    rw [file_write hw] at hb
    by_cases ht : t ++ EXT_GZIP = tempFile ++ EXT_GZIP
    · obtain rfl := ext_injective ht
      rw [if_pos rfl] at hb
      exact ⟨html, hr, (Option.some.inj hb).symm⟩
    · rw [if_neg ht] at hb
      exact h.gzip t b hb

theorem entries_plain (h : Entries s rendered d) (hr : rendered tempFile html)
    (ht : isCacheTemp tempFile = true)
    (hw : d.mkdirs.write tempFile (getBytes html) = some d') : Entries s rendered d' where
  plain t b hc hb := by
    rw [file_write hw, file_mkdirs] at hb
    by_cases hne : t = tempFile
    · subst hne
      rw [if_pos rfl] at hb
      exact ⟨html, hr, (Option.some.inj hb).symm⟩
    · rw [if_neg hne] at hb
      exact h.plain t b hc hb
  gzip t b hb := by
    rw [file_write hw, file_mkdirs, if_neg (ext_ne_temp ht t).symm] at hb
    exact h.gzip t b hb

theorem entries_render (h : Entries s rendered d) (ht : rendered tempFile html)
    (hr : render s cfg d request tempFile html = some (d', r)) : Entries s rendered d' := by
  by_cases hc : Cached cfg tempFile
  · by_cases hg : cfg.USE_GZIP = true ∧ isGZipSupported request = true
    · rw [render_gzip hc hg.1 hg.2] at hr
      cases hf : d.file (tempFile ++ EXT_GZIP) with
      | some b =>
        rw [renderFromCacheGzipFile_hit hf] at hr
        cases hr
        exact h
      | none =>
        rw [renderFromCacheGzipFile_fill hf] at hr
        obtain ⟨d'', hw, hr⟩ := Option.map_eq_some_iff.mp hr
        cases hr
        exact entries_gzip h ht hw
    · rw [render_plain hc hg] at hr
      cases hf : d.file tempFile with
      | some b =>
        rw [renderFromCacheFile_hit hf] at hr
        cases hr
        exact h
      | none =>
        rw [renderFromCacheFile_fill hf] at hr
        obtain ⟨d'', hw, hr⟩ := Option.map_eq_some_iff.mp hr
        cases hr
        exact entries_plain h ht hc.2 hw
  · rw [render_uncached hc] at hr
    obtain ⟨rfl, -⟩ := Prod.mk.inj (Option.some.inj hr)
    exact h

theorem Reachable.entries (h : Reachable s rendered d) : Entries s rendered d := by
  induction h with
  | absent => exact ⟨fun _ _ _ hb => (nomatch hb), fun _ _ hb => (nomatch hb)⟩
  | empty => exact ⟨fun _ _ _ hb => (nomatch hb), fun _ _ hb => (nomatch hb)⟩
  | render _ ht hr ih => exact entries_render ih ht hr

theorem independent_uncached (hc : ¬Cached cfg tempFile) :
    Independent s cfg d tempFile html := by
  intro request
  refine ⟨d, _, render_uncached hc, ?_⟩
  split
  · exact s.gunzip_gzip _
  · rfl

theorem independent_of_ready (hc : Cached cfg tempFile) (h : Ready s cfg d tempFile html) :
    Independent s cfg d tempFile html := by
  intro request
  by_cases hg : cfg.USE_GZIP = true ∧ isGZipSupported request = true
  · rw [render_gzip hc hg.1 hg.2]
    cases hf : d.file (tempFile ++ EXT_GZIP) with
    | some b =>
      obtain rfl := h.gzip hg.1 b hf
      exact ⟨d, _, renderFromCacheGzipFile_hit hf, s.gunzip_gzip _⟩
    | none =>
      obtain ⟨d', hw⟩ := write_of_isSome (h.present hg.1) (tempFile ++ EXT_GZIP)
        (s.gzip (getBytes html))
      rw [renderFromCacheGzipFile_fill hf, hw]
      exact ⟨d', _, rfl, s.gunzip_gzip _⟩
  · rw [render_plain hc hg]
    cases hf : d.file tempFile with
    | some b =>
      obtain rfl := h.plain b hf
      exact ⟨d, _, renderFromCacheFile_hit hf, rfl⟩
    | none =>
      obtain ⟨d', hw⟩ := write_of_isSome (d := d.mkdirs) rfl tempFile (getBytes html)
      rw [renderFromCacheFile_fill hf, hw]
      exact ⟨d', _, rfl, rfl⟩

theorem isGZipSupported_gzip : isGZipSupported ⟨some "gzip"⟩ = true := by decide +kernel

theorem ready_of_independent (hd : Reachable s rendered d) (hc : Cached cfg tempFile)
    (h : Independent s cfg d tempFile html) : Ready s cfg d tempFile html where
  plain b hb := by
    obtain ⟨d', r, hr, hdec⟩ := h ⟨none⟩
    rw [render_plain hc (fun hg => absurd hg.2 (by decide)), renderFromCacheFile_hit hb] at hr
    cases hr
    exact Option.some.inj hdec
  gzip hg b hb := by
    obtain ⟨text, -, rfl⟩ := hd.entries.gzip tempFile b hb
    obtain ⟨d', r, hr, hdec⟩ := h ⟨some "gzip"⟩
    rw [render_gzip hc hg isGZipSupported_gzip, renderFromCacheGzipFile_hit hb] at hr
    cases hr
    have htext : some (getBytes text) = some (getBytes html) := by
      rw [← hdec]
      exact (s.gunzip_gzip _).symm
    rw [Option.some.inj htext]
  present hg := by
    by_contra hnone
    obtain rfl : d = none := by simpa using hnone
    obtain ⟨d', r, hr, -⟩ := h ⟨some "gzip"⟩
    rw [render_gzip hc hg isGZipSupported_gzip, renderFromCacheGzipFile_fill rfl, write_none] at hr
    cases hr

/-- Both kinds of client get the rendering exactly when the template does not go through the
cache or the directory is ready for it. -/
theorem independent_iff (hd : Reachable s rendered d) (tempFile : String) (html : JString) :
    Independent s cfg d tempFile html ↔ (Cached cfg tempFile → Ready s cfg d tempFile html) := by
  by_cases hc : Cached cfg tempFile
  · exact ⟨fun h _ => ready_of_independent hd hc h, fun h => independent_of_ready hc (h hc)⟩
  · exact iff_of_true (independent_uncached hc) fun h => absurd h hc

theorem independent_iff_absent :
    Independent standIn ⟨true, true⟩ none "404.html" [52] ↔
      (Cached ⟨true, true⟩ "404.html" → Ready standIn ⟨true, true⟩ none "404.html" [52]) :=
  independent_iff (.absent : Reachable standIn (fun _ _ => True) none) "404.html" [52]

/-- Without a cache directory a client that accepts gzip gets no error page. -/
theorem gzip_without_directory : ¬∀ d, Reachable standIn (fun _ _ => True) d →
    Independent standIn ⟨true, true⟩ d "404.html" [52] := by
  intro h
  obtain ⟨d', r, hr, -⟩ := h none .absent ⟨some "gzip"⟩
  rw [render_gzip ⟨rfl, rfl⟩ rfl isGZipSupported_gzip, renderFromCacheGzipFile_fill rfl,
    write_none] at hr
  cases hr

/-- When the engine gives a template the same text each time, the missing directory is all
that can be in the way. -/
theorem ready_iff_present {result : String → JString} (hd : Reachable s rendered d)
    (hresult : ∀ t html, rendered t html → html = result t) (hc : Cached cfg tempFile) :
    Ready s cfg d tempFile (result tempFile) ↔ (cfg.USE_GZIP = true → d.isSome = true) := by
  refine ⟨Ready.present, fun hp => ⟨?_, ?_, hp⟩⟩
  · intro b hb
    obtain ⟨html, hr, rfl⟩ := hd.entries.plain tempFile b hc.2 hb
    rw [hresult tempFile html hr]
  · intro _ b hb
    obtain ⟨html, hr, rfl⟩ := hd.entries.gzip tempFile b hb
    rw [hresult tempFile html hr]

/-- Where the directory exists, the responses are those of the views over the whole file
system. -/
theorem render_response {files : String → Option Bytes} {fs : FileCache.Files} {data : Option δ}
    (hfiles : ∀ name, fs ⟨FileCache.FILE_CACHE_DIR s, name⟩ = files name)
    (hprocess : s.process fs tempFile data = getBytes html) :
    (render s cfg (some files) request tempFile html).map Prod.snd =
      (FileCache.TempView.render s cfg fs request tempFile data).map Prod.snd := by
  unfold render FileCache.TempView.render
  rw [hprocess]
  by_cases hc : cfg.USE_FILE_CACHE = true ∧ isCacheTemp tempFile = true
  · by_cases hg : cfg.USE_GZIP = true ∧ isGZipSupported request = true
    · have hfile : _ = CacheDir.file (some files) (tempFile ++ EXT_GZIP) := hfiles _
      rw [if_pos hg, if_pos hg, if_pos hc, if_pos hc]
      cases hf : CacheDir.file (some files) (tempFile ++ EXT_GZIP) with
      | some b =>
        rw [hf] at hfile
        rw [renderFromCacheGzipFile_hit hf]
        simp [FileCache.TempView.renderFromCacheGzipFile, Response.gzipFile, hfile]
      | none =>
        rw [hf] at hfile
        rw [renderFromCacheGzipFile_fill hf]
        simp [FileCache.TempView.renderFromCacheGzipFile, Response.gzipFile, hfile, hprocess,
          CacheDir.write]
    · have hfile : _ = CacheDir.file (some files) tempFile := hfiles _
      rw [if_neg hg, if_neg hg, if_pos hc, if_pos hc]
      cases hf : CacheDir.file (some files) tempFile with
      | some b =>
        rw [hf] at hfile
        rw [renderFromCacheFile_hit hf]
        simp [FileCache.TempView.renderFromCacheFile, Response.file, hfile]
      | none =>
        rw [hf] at hfile
        rw [renderFromCacheFile_fill hf]
        simp [FileCache.TempView.renderFromCacheFile, Response.file, hfile, hprocess,
          CacheDir.write, CacheDir.mkdirs]
  · rw [if_neg hc, if_neg hc, if_neg hc, if_neg hc]
    split <;> rfl

end TemplateTransport
