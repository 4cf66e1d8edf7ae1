import AndroidDebug.FileBrowser
import AndroidDebug.PercentEncoding
import Mathlib.Data.List.TakeWhile

/-! Which file a link opens: the target is the percent-encoded path, with a query or without,
and HttpFBHandler decodes all of it before it cuts the query off. -/
namespace BrowsedFile

open JavaText JavaFile FileBrowser UrlDecoder PercentEncoding

/-- Letters, digits, `-_.~` and the slash. -/
def isUnreserved (c : ℕ) : Bool :=
  isAlphanumeric c || decide (c = 0x2D ∨ c = 0x5F ∨ c = 0x2E ∨ c = 0x7E ∨ c = 0x2F)

def encodePath (p : JString) : JString := encodeWith isUnreserved (scalars p)

/-- Every percent sign is followed by two hexadecimal digits. -/
inductive WellEscaped : JString → Prop where
  | nil : WellEscaped []
  | escape {high low : UInt16} {h l : ℕ} {rest : JString} : hexValue high = some h →
      hexValue low = some l → WellEscaped rest → WellEscaped (percent :: high :: low :: rest)
  | plain {u : UInt16} {rest : JString} : u ≠ percent → WellEscaped rest → WellEscaped (u :: rest)

/-- The target that a link to `p` asks for. -/
def requestTarget (p : JString) (query : Option JString) : JString :=
  encodePath p ++ (query.map fun q => question :: q).getD []

variable (d : Device) (webRoot : JString)

def renderFile (target : JString) : Option JString :=
  match find d target with
  | some (_, .file true _) => some target
  | _ => none

/-- The path that handle gives to renderFile. -/
def selects (uri : JString) : Option JString := do
  let target ← getTarget d uri true
  if isIndex target then none
  else if ¬SERV_ROOT_DIR d <+: target ∧ ¬webRoot <+: target then none
  else
    let target ← if (find d target).isSome then some target else getTarget d uri false
    renderFile d target

variable {d webRoot} {p q uri : JString}

theorem decodeFrom_wellEscaped (malformed : List UInt8 → JString) {s : JString}
    (h : WellEscaped s) (bytes : List UInt8) :
    ∃ text, decodeFrom malformed bytes s = some text := by
  induction h generalizing bytes with
  | nil => exact ⟨_, rfl⟩
  | escape hh hl _ ih =>
    rw [decodeFrom, if_pos rfl, hh, hl]
    exact ih _
  | plain hu _ ih =>
    obtain ⟨text, htext⟩ := ih []
    rw [decodeFrom_kept malformed bytes hu, htext]
    exact ⟨_, rfl⟩

/-- What follows a text that ends with no open escape is decoded by itself. -/
theorem decodeFrom_append (malformed : List UInt8 → JString) {bytes : List UInt8} {s a : JString}
    (h : decodeFrom malformed bytes s = some a) {u : UInt16} (hu : u ≠ percent) (t : JString) :
    decodeFrom malformed bytes (s ++ u :: t) = (decodeFrom malformed [] t).map fun b =>
      a ++ (if u = plus then space else u) :: b := by
  fun_induction decodeFrom malformed bytes s generalizing a with
  | case1 bytes =>
    rw [← Option.some.inj h, List.nil_append, decodeFrom_kept malformed bytes hu]
  | case2 bytes high low rest ih =>
    obtain ⟨x, hx, h⟩ := Option.bind_eq_some_iff.mp h
    obtain ⟨y, hy, h⟩ := Option.bind_eq_some_iff.mp h
    have hrest := ih x y h
    simp only [List.cons_append]
    rw [decodeFrom, if_pos rfl, hx, hy]
    exact hrest
  | case3 => cases h
  | case4 bytes v rest hv ih =>
    obtain ⟨text, htext, h⟩ := Option.bind_eq_some_iff.mp h
    rw [List.cons_append, decodeFrom_kept malformed bytes hv, ih htext, ← Option.some.inj h,
      Option.map_map]
    congr 1
    funext b
    simp

theorem isUnreserved_ascii {c : ℕ} (h : isUnreserved c = true) :
    c < 0x80 ∧ c ≠ percent.toNat ∧ c ≠ plus.toNat ∧ c ≠ question.toNat := by
  simp only [isUnreserved, isAlphanumeric, Bool.or_eq_true, decide_eq_true_eq] at h
  have hpercent : percent.toNat = 0x25 := rfl
  have hplus : plus.toNat = 0x2B := rfl
  have hquestion : question.toNat = 0x3F := rfl
  omega

theorem decode_encodePath (malformed : List UInt8 → JString) (hp : WellFormed p) :
    decode malformed (encodePath p) = some p := by
  have hread := @decodeFrom_encodeWith malformed isUnreserved (scalars p) []
    (fun c _ hc => ⟨(isUnreserved_ascii hc).1, (isUnreserved_ascii hc).2.1⟩)
    (scalars_isScalar p) (by simp)
  have hback : ∀ c ∈ scalars p, readBack isUnreserved c = unitsOfScalar c := by
    intro c _
    apply if_neg
    intro hplus
    simp only [Bool.and_eq_true, beq_iff_eq] at hplus
    exact (isUnreserved_ascii hplus.1).2.2.1 hplus.2
  refine hread.trans (congrArg some ?_)
  rw [List.flatMap_congr hback]
  exact hp

theorem hexDigit_ne_question : ∀ n < 16, hexDigit n ≠ question := by decide

theorem question_notMem_encodePath (p : JString) : question ∉ encodePath p := by
  intro hmem
  obtain ⟨c, -, hc⟩ := List.mem_flatMap.mp hmem
  split at hc
  · rename_i hkept
    have hlt := isUnreserved_ascii hkept
    apply hlt.2.2.2
    rw [List.mem_singleton.mp hc, toNat_ofNat hlt.1]
  · obtain ⟨b, -, hb⟩ := List.mem_flatMap.mp hc
    have hlt := b.toNat_lt
    simp only [escapeByte, List.mem_cons, List.not_mem_nil, or_false] at hb
    rcases hb with hb | hb | hb
    · exact absurd hb (by decide)
    · exact hexDigit_ne_question _ (by omega) hb.symm
    · exact hexDigit_ne_question _ (by omega) hb.symm

theorem cut_append (s t : JString) : cut (s ++ question :: t) = cut s := by
  induction s with
  | nil => rfl
  | cons u s ih =>
    unfold cut at ih ⊢
    by_cases hu : u = question
    · simp [hu]
    · simpa [hu] using ih

theorem cut_eq_self_iff {s : JString} : cut s = s ↔ question ∉ s := by
  unfold cut
  rw [List.takeWhile_eq_self_iff]
  constructor
  · intro h hmem
    simpa using h question hmem
  · intro h u hu
    simpa using fun heq : u = question => h (heq ▸ hu)

theorem getTarget_requestTarget (hp : WellFormed p) {query : Option JString}
    (hq : ∀ q ∈ query, WellEscaped q) :
    getTarget d (requestTarget p query) true = some (cut p) ∧
      getTarget d (requestTarget p query) false = some (encodePath p) := by
  have hraw := cut_eq_self_iff.mpr (question_notMem_encodePath p)
  have hdecode := decode_encodePath d.malformed hp
  unfold getTarget requestTarget
  cases query with
  | none => simp [hdecode, hraw]
  | some q =>
    obtain ⟨text, htext⟩ := decodeFrom_wellEscaped d.malformed (hq q rfl) []
    have hwhole : decode d.malformed (encodePath p ++ question :: q) =
        some (p ++ question :: text) := by
      have happend := decodeFrom_append d.malformed hdecode (show question ≠ percent by decide) q
      rw [htext] at happend
      exact happend
    simp [hwhole, cut_append, hraw]

theorem renderFile_iff {target t : JString} :
    renderFile d target = some t ↔ t = target ∧ NamesFile d target := by
  unfold renderFile NamesFile
  split
  · rename_i l content hfind
    simp [hfind, eq_comm]
  · rename_i hother
    constructor
    · intro h
      cases h
    · rintro ⟨-, l, content, hfind⟩
      exact absurd hfind (hother l content)

theorem selects_iff {target t : JString} (htarget : getTarget d uri true = some target) :
    selects d webRoot uri = some t ↔ Admitted d webRoot target ∧ NamesFile d t ∧
      (t = target ∨ find d target = none ∧ t = cut uri) := by
  have hraw : getTarget d uri false = some (cut uri) := rfl
  unfold selects Admitted
  rw [htarget, hraw, Option.bind_eq_bind, Option.bind_some]
  by_cases hindex : isIndex target = true
  · simp [hindex]
  by_cases hroots : SERV_ROOT_DIR d <+: target ∨ webRoot <+: target
  · have hpass : ¬(¬SERV_ROOT_DIR d <+: target ∧ ¬webRoot <+: target) := by tauto
    have hadmitted : isIndex target = false ∧ (SERV_ROOT_DIR d <+: target ∨ webRoot <+: target) :=
      ⟨by simpa using hindex, hroots⟩
    rw [if_neg hindex, if_neg hpass, and_iff_right hadmitted]
    cases hfind : find d target with
    | none =>
      have hnot : ¬NamesFile d target := by
        rintro ⟨l, content, h⟩
        rw [hfind] at h
        cases h
      rw [Option.isSome_none, if_neg Bool.false_ne_true, Option.bind_some, renderFile_iff]
      constructor
      · rintro ⟨rfl, h⟩
        exact ⟨h, .inr ⟨rfl, rfl⟩⟩
      · rintro ⟨h, rfl | ⟨-, rfl⟩⟩
        · exact absurd h hnot
        · exact ⟨rfl, h⟩
    | some r =>
      rw [Option.isSome_some, if_pos rfl, Option.bind_some, renderFile_iff]
      constructor
      · rintro ⟨rfl, h⟩
        exact ⟨h, .inl rfl⟩
      · rintro ⟨h, rfl | ⟨hnone, -⟩⟩
        · exact ⟨rfl, h⟩
        · cases hnone
  · have hstop : ¬SERV_ROOT_DIR d <+: target ∧ ¬webRoot <+: target := not_or.mp hroots
    simp [hindex, hstop]

/-- A link opens the file it names exactly when the path has no question mark in it, is not
the page's own and is spelled below one of the roots. -/
theorem selects_requestTarget_iff (hp : WellFormed p) (hfile : NamesFile d p)
    {query : Option JString} (hq : ∀ q ∈ query, WellEscaped q) :
    selects d webRoot (requestTarget p query) = some p ↔
      question ∉ p ∧ Admitted d webRoot p := by
  obtain ⟨hdecoded, hraw⟩ := getTarget_requestTarget (d := d) hp hq
  have hundecoded : cut (requestTarget p query) = encodePath p := Option.some.inj hraw
  rw [selects_iff hdecoded, hundecoded]
  constructor
  · rintro ⟨hadmitted, -, hcut | ⟨-, hencoded⟩⟩
    · rw [← hcut] at hadmitted
      exact ⟨cut_eq_self_iff.mp hcut.symm, hadmitted⟩
    · have hno : question ∉ p := by
        rw [hencoded]
        exact question_notMem_encodePath p
      rw [cut_eq_self_iff.mpr hno] at hadmitted
      exact ⟨hno, hadmitted⟩
  · rintro ⟨hno, hadmitted⟩
    have hcut := cut_eq_self_iff.mpr hno
    rw [hcut]
    exact ⟨hadmitted, hfile, .inl rfl⟩

/-- The response is the content of the file selected. -/
theorem handle_file_iff_selects {l : FilePaths.Location Bytes} {content : Bytes} :
    handle d webRoot uri = .file l content ↔
      ∃ t, selects d webRoot uri = some t ∧ find d t = some (l, .file true content) := by
  rw [handle_file_iff]
  constructor
  · rintro ⟨target, htarget, hadmitted, hfind | ⟨hnone, hfind⟩⟩
    · exact ⟨target, (selects_iff htarget).mpr ⟨hadmitted, ⟨l, content, hfind⟩, .inl rfl⟩, hfind⟩
    · exact ⟨cut uri, (selects_iff htarget).mpr ⟨hadmitted, ⟨l, content, hfind⟩,
        .inr ⟨hnone, rfl⟩⟩, hfind⟩
  · rintro ⟨t, hselects, hfind⟩
    obtain ⟨target, htarget, -⟩ := Option.bind_eq_some_iff.mp hselects
    obtain ⟨hadmitted, -, rfl | ⟨hnone, rfl⟩⟩ := (selects_iff htarget).mp hselects
    · exact ⟨t, htarget, hadmitted, .inl hfind⟩
    · exact ⟨target, htarget, hadmitted, .inr ⟨hnone, hfind⟩⟩

/-- A file whose name has a blank, a percent sign and a letter outside of ASCII. -/
def percents : Device where
  files l :=
    if l = names ["sdcard", "50% é"] then some (.file true [3])
    else if l = names [] ∨ l = names ["sdcard"] then some (.directory true true)
    else none
  refuses _ := false
  externalStorage := ofString "/sdcard"
  malformed _ := []

theorem selects_requestTarget_percents :
    selects percents (ofString "/sdcard")
          (requestTarget (ofString "/sdcard/50% é") (some (ofString "v%20w"))) =
        some (ofString "/sdcard/50% é") ↔
      question ∉ ofString "/sdcard/50% é" ∧
        Admitted percents (ofString "/sdcard") (ofString "/sdcard/50% é") :=
  selects_requestTarget_iff (by decide +kernel)
    ⟨names ["sdcard", "50% é"], [3], by decide +kernel⟩
    (by
      rintro q hq
      obtain rfl := Option.some.inj hq
      exact .plain (by decide) (.escape rfl rfl (.plain (by decide) .nil)))

/-- Two files whose names are the same up to the question mark. -/
def questions : Device where
  files l :=
    if l = names ["sdcard", "a?b"] then some (.file true [1])
    else if l = names ["sdcard", "a"] then some (.file true [2])
    else if l = names [] ∨ l = names ["sdcard"] then some (.directory true true)
    else none
  refuses _ := false
  externalStorage := ofString "/sdcard"
  malformed _ := []

/-- The link to one file opens the other. -/
theorem other_file_selected : ¬∀ p, WellFormed p → NamesFile questions p →
    ofString "/sdcard" <+: p →
    selects questions (ofString "/sdcard") (requestTarget p none) = some p := by
  intro h
  have hselects := h (ofString "/sdcard/a?b") (by decide +kernel)
    ⟨names ["sdcard", "a?b"], [1], by decide +kernel⟩ (by decide +kernel)
  exact absurd hselects (by decide +kernel)

end BrowsedFile
