import AndroidDebug.PercentEncoding
import AndroidDebug.ParameterParser

/-! The paths that the page posts to have a file deleted or a database opened. -/
namespace PathRequests

open JavaText UrlDecoder PercentEncoding ParameterParser

/-- Letters, digits and `-_.!~*'()`. -/
def isUnreserved (c : ℕ) : Bool :=
  isAlphanumeric c || decide (c = 0x2D ∨ c = 0x5F ∨ c = 0x2E ∨ c = 0x21 ∨ c = 0x7E ∨ c = 0x2A ∨
    c = 0x27 ∨ c = 0x28 ∨ c = 0x29)

/-- A lone surrogate makes it throw. -/
def encodeURIComponent (s : JString) : Option JString :=
  if WellFormed s then some (encodeWith isUnreserved (scalars s)) else none

/-- `replace(/%20/g, "+")` -/
def plusForSpace : JString → JString
  | u :: v :: w :: rest =>
    if u = percent ∧ v = 0x32 ∧ w = 0x30 then plus :: plusForSpace rest
    else u :: plusForSpace (v :: w :: rest)
  | s => s

/-- `$.param` of one field. -/
def param (key value : JString) : Option JString := do
  let k ← encodeURIComponent key
  let v ← encodeURIComponent value
  return plusForSpace (k ++ equals :: v)

def postPath (path : JString) : Option JString := do
  let value ← encodeURIComponent path
  param (ofString "path") value

def deleteFile (path : JString) : Option JString := postPath path

def editDatabase (path : JString) : Option JString := postPath path

inductive Action where
  | deleteFile (path : JString)
  | addDBResponse (path : JString)
  deriving DecidableEq, Repr

inductive Answer where
  | serviceUnavailable
  | forbidden
  | badRequest
  | raised
  | acts (a : Action)
  deriving DecidableEq, Repr

/-- `malformed` is the decoder's text for bytes that are no UTF-8. -/
structure Setting where
  ALLOW_DELETE : Bool
  malformed : List UInt8 → JString
  runtime : Runtime

structure HttpRequest where
  isPostMethod : Bool
  content : JString

variable (s : Setting)

def HttpPostParser.parse (request : HttpRequest) : List (JString × Option JString) :=
  ParameterParser.parse s.runtime ampersand request.content

/-- Both handlers decode the path twice. -/
def handlePath (action : JString → Action) (request : HttpRequest) : Answer :=
  if ¬s.ALLOW_DELETE then .serviceUnavailable
  else if ¬request.isPostMethod then .forbidden
  else
    match getValue (HttpPostParser.parse s request) (ofString "path") with
    | none => .badRequest
    | some path =>
      match (decode s.malformed path).bind (decode s.malformed) with
      | none => .raised
      | some path => .acts (action path)

def HttpDelHandler.handle (request : HttpRequest) : Answer := handlePath s .deleteFile request

def HttpEditHandler.handle (request : HttpRequest) : Answer := handlePath s .addDBResponse request

/-! What the page sends. -/

variable {s}

theorem isUnreserved_ascii {c : ℕ} (h : isUnreserved c = true) :
    c < 0x80 ∧ c ≠ percent.toNat ∧ c ≠ plus.toNat ∧ c ≠ space.toNat := by
  simp only [isUnreserved, isAlphanumeric, Bool.or_eq_true, decide_eq_true_eq] at h
  have hpercent : percent.toNat = 0x25 := rfl
  have hplus : plus.toNat = 0x2B := rfl
  have hspace : space.toNat = 0x20 := rfl
  omega

/-- An encoded text consists of such units. -/
def Encoded (s : JString) : Prop := ∀ u ∈ s, isUnreserved u.toNat = true ∨ u = percent

theorem hexDigit_unreserved : ∀ n < 16, isUnreserved (hexDigit n).toNat = true := by decide

theorem encoded_escapeBytes (bs : List UInt8) : Encoded (escapeBytes bs) := by
  intro u hu
  obtain ⟨b, -, hu⟩ := List.mem_flatMap.mp hu
  have hb := b.toNat_lt
  simp only [escapeByte, List.mem_cons, List.not_mem_nil, or_false] at hu
  rcases hu with rfl | rfl | rfl
  · exact Or.inr rfl
  · exact Or.inl (hexDigit_unreserved _ (by omega))
  · exact Or.inl (hexDigit_unreserved _ (by omega))

theorem encoded_encodeWith (cs : List ℕ) : Encoded (encodeWith isUnreserved cs) := by
  intro u hu
  obtain ⟨c, -, hu⟩ := List.mem_flatMap.mp hu
  split at hu
  · rename_i hkept
    obtain rfl := List.mem_singleton.mp hu
    left
    rwa [toNat_ofNat (isUnreserved_ascii hkept).1]
  · exact encoded_escapeBytes _ u hu

theorem plusForSpace_cons {u : UInt16} (hu : u ≠ percent) (rest : JString) :
    plusForSpace (u :: rest) = u :: plusForSpace rest := by
  match rest with
  | [] => rfl
  | [_] => rfl
  | v :: w :: rest => rw [plusForSpace, if_neg fun h => hu h.1]

theorem hexDigit_ne_percent {n : ℕ} (h : n < 16) : hexDigit n ≠ percent := by
  intro heq
  have hkept := hexDigit_unreserved n h
  rw [heq] at hkept
  exact absurd hkept (by decide)

theorem hexDigit_injective : ∀ n < 16, ∀ m < 16, hexDigit n = hexDigit m → n = m := by decide

/-- Only the escape of a space is replaced. -/
theorem plusForSpace_escapeByte {b : UInt8} (hb : b ≠ 0x20) (rest : JString) :
    plusForSpace (escapeByte b ++ rest) = escapeByte b ++ plusForSpace rest := by
  have hlt := b.toNat_lt
  have hhigh : b.toNat / 16 < 16 := by omega
  have hlow : b.toNat % 16 < 16 := by omega
  have hother : ¬(percent = percent ∧ hexDigit (b.toNat / 16) = 0x32 ∧
      hexDigit (b.toNat % 16) = 0x30) := by
    rintro ⟨-, hh, hl⟩
    have htwo := hexDigit_injective _ hhigh 2 (by decide) hh
    have hzero := hexDigit_injective _ hlow 0 (by decide) hl
    apply hb
    rw [← UInt8.toNat_inj]
    show b.toNat = 32
    omega
  simp only [escapeByte, List.cons_append, List.nil_append]
  rw [plusForSpace, if_neg hother, plusForSpace_cons (hexDigit_ne_percent hhigh),
    plusForSpace_cons (hexDigit_ne_percent hlow)]

theorem plusForSpace_escapeBytes {bs : List UInt8} (h : ∀ b ∈ bs, b ≠ 0x20) (rest : JString) :
    plusForSpace (escapeBytes bs ++ rest) = escapeBytes bs ++ plusForSpace rest := by
  induction bs with
  | nil => rfl
  | cons b bs ih =>
    rw [escapeBytes, List.flatMap_cons, ← escapeBytes, List.append_assoc,
      plusForSpace_escapeByte (h b List.mem_cons_self),
      ih fun d hd => h d (List.mem_cons_of_mem b hd), List.append_assoc]

theorem encodeScalar_ne_space {c : ℕ} (hc : IsScalar c) (hne : c ≠ space.toNat) :
    ∀ b ∈ encodeScalar c, b ≠ 0x20 := by
  rintro b hb rfl
  have hspace : space.toNat = 0x20 := rfl
  have hnat : ∀ k, (0x20 : UInt8) = UInt8.ofNat k → k % 256 = 0x20 := by
    intro k hk
    rw [← UInt8.toNat_ofNat', ← hk]
    rfl
  unfold IsScalar at hc
  unfold encodeScalar at hb
  split_ifs at hb <;> simp only [List.mem_cons, List.not_mem_nil, or_false] at hb
  · have := hnat _ hb
    omega
  · rcases hb with hb | hb <;> have := hnat _ hb <;> omega
  · rcases hb with hb | hb | hb <;> have := hnat _ hb <;> omega
  · rcases hb with hb | hb | hb | hb <;> have := hnat _ hb <;> omega

theorem plusForSpace_encodeWith {cs : List ℕ} (hcs : ∀ c ∈ cs, IsScalar c)
    (hspace : ∀ c ∈ cs, c ≠ space.toNat) :
    plusForSpace (encodeWith isUnreserved cs) = encodeWith isUnreserved cs := by
  induction cs with
  | nil => rfl
  | cons c cs ih =>
    have hrest := ih (fun d hd => hcs d (List.mem_cons_of_mem c hd))
      (fun d hd => hspace d (List.mem_cons_of_mem c hd))
    rw [encodeWith, List.flatMap_cons, ← encodeWith]
    split
    · rename_i hkept
      obtain ⟨hlt, hne, -⟩ := isUnreserved_ascii hkept
      have hunit : UInt16.ofNat c ≠ percent := by
        intro heq
        apply hne
        rw [← heq, toNat_ofNat hlt]
      rw [List.singleton_append, plusForSpace_cons hunit, hrest]
    · rw [plusForSpace_escapeBytes (encodeScalar_ne_space (hcs c List.mem_cons_self)
        (hspace c List.mem_cons_self)), hrest]

theorem scalars_ascii {t : JString} (h : ∀ u ∈ t, u.toNat < 0x80) :
    scalars t = t.map UInt16.toNat := by
  induction t with
  | nil => rfl
  | cons u t ih =>
    have hu := h u List.mem_cons_self
    have hhigh : ¬IsHighSurrogate u := by
      unfold IsHighSurrogate
      omega
    have hlone : ¬(IsHighSurrogate u ∨ IsLowSurrogate u) := by
      unfold IsHighSurrogate IsLowSurrogate
      omega
    rw [scalars_cons hhigh, scalarOfUnit, if_neg hlone,
      ih fun v hv => h v (List.mem_cons_of_mem u hv), List.map_cons]

theorem units_ascii {t : JString} (h : ∀ u ∈ t, u.toNat < 0x80) :
    units (t.map UInt16.toNat) = t := by
  induction t with
  | nil => rfl
  | cons u t ih =>
    have hu := h u List.mem_cons_self
    rw [List.map_cons, units, List.flatMap_cons, ← units,
      ih fun v hv => h v (List.mem_cons_of_mem u hv), unitsOfScalar, if_pos (by omega),
      UInt16.ofNat_toNat, List.singleton_append]

theorem Encoded.ascii {t : JString} (h : Encoded t) : ∀ u ∈ t, u.toNat < 0x80 := by
  intro u hu
  rcases h u hu with hkept | rfl
  · exact (isUnreserved_ascii hkept).1
  · decide

theorem Encoded.wellFormed {t : JString} (h : Encoded t) : WellFormed t := by
  rw [WellFormed, scalars_ascii h.ascii, units_ascii h.ascii]

theorem Encoded.inert {t : JString} (h : Encoded t) : Inert ampersand t := by
  intro u hu
  rcases h u hu with hkept | rfl
  · have hvalue := hkept
    simp only [isUnreserved, isAlphanumeric, Bool.or_eq_true, decide_eq_true_eq] at hvalue
    refine ⟨?_, ?_, ?_, ?_⟩
    · rintro rfl
      exact absurd hkept (by decide)
    · rintro rfl
      exact absurd hkept (by decide)
    · rintro rfl
      exact absurd hkept (by decide)
    · simp only [isWhitespace, decide_eq_false_iff_not]
      omega
  · decide

theorem decode_encoded (malformed : List UInt8 → JString) {t : JString} (h : WellFormed t) :
    UrlDecoder.decode malformed (encodeWith isUnreserved (scalars t)) = some t := by
  have hread := @decodeFrom_encodeWith malformed isUnreserved (scalars t) []
    (fun c _ hc => ⟨(isUnreserved_ascii hc).1, (isUnreserved_ascii hc).2.1⟩)
    (scalars_isScalar t) (by simp)
  refine hread.trans (congrArg some ?_)
  have hback : ∀ c ∈ scalars t, readBack isUnreserved c = unitsOfScalar c := by
    intro c _
    apply if_neg
    intro hplus
    simp only [Bool.and_eq_true, beq_iff_eq] at hplus
    exact (isUnreserved_ascii hplus.1).2.2.1 hplus.2
  rw [List.flatMap_congr hback]
  exact h

theorem encodeWith_eq_nil_iff (cs : List ℕ) : encodeWith isUnreserved cs = [] ↔ cs = [] := by
  cases cs with
  | nil => simp [encodeWith]
  | cons c cs =>
    have hpos := encodeScalar_length_pos c
    obtain ⟨b, bs, hb⟩ := List.exists_cons_of_length_pos hpos
    rw [encodeWith, List.flatMap_cons]
    split <;> simp [escapeBytes, escapeByte, hb]

theorem scalars_eq_nil_iff {t : JString} (h : WellFormed t) : scalars t = [] ↔ t = [] := by
  constructor
  · intro hnil
    rw [← h, hnil]
    rfl
  · rintro rfl
    rfl

/-- The body that the page posts: the path is encoded twice, and no space is left to replace. -/
theorem postPath_eq {p : JString} (h : WellFormed p) :
    postPath p = some (ofString "path" ++ equals ::
      encodeWith isUnreserved (scalars (encodeWith isUnreserved (scalars p)))) := by
  have hencoded := encoded_encodeWith (scalars p)
  have hkey : encodeURIComponent (ofString "path") = some (ofString "path") := by decide
  have hspace : ∀ c ∈ scalars (encodeWith isUnreserved (scalars p)), c ≠ space.toNat := by
    rw [scalars_ascii hencoded.ascii]
    intro c hc
    obtain ⟨u, hu, rfl⟩ := List.mem_map.mp hc
    rcases hencoded u hu with hkept | rfl
    · exact (isUnreserved_ascii hkept).2.2.2
    · decide
  have hname : ∀ t, plusForSpace (ofString "path" ++ equals :: t) =
      ofString "path" ++ equals :: plusForSpace t := by
    intro t
    show plusForSpace (0x70 :: 0x61 :: 0x74 :: 0x68 :: equals :: t) = _
    repeat rw [plusForSpace_cons (by decide)]
    rfl
  simp only [postPath, param, encodeURIComponent] at hkey ⊢
  simp [h, hencoded.wellFormed, hkey, hname,
    plusForSpace_encodeWith (scalars_isScalar _) hspace]

theorem handlePath_posted (s : Setting) (action : JString → Action) {p : JString}
    (h : WellFormed p) : (postPath p).map (fun content => handlePath s action ⟨true, content⟩) =
      some (if ¬s.ALLOW_DELETE then .serviceUnavailable
        else if p = [] then .badRequest else .acts (action p)) := by
  have hencoded := encoded_encodeWith (scalars p)
  have htwice := encoded_encodeWith (scalars (encodeWith isUnreserved (scalars p)))
  have hname : Inert ampersand (ofString "path") := by decide
  have hlower : toLowerCase s.runtime (ofString "path") = ofString "path" := by
    rw [toLowerCase, if_pos (by decide)]
    decide
  rw [postPath_eq h, Option.map_some, handlePath, HttpPostParser.parse,
    parse_single hname (by decide) htwice.inert, hlower]
  have hget : ∀ x, getValue [(ofString "path", x)] (ofString "path") = x := by simp [getValue]
  rw [hget]
  by_cases hp : p = []
  · subst hp
    rfl
  · have hne : encodeWith isUnreserved (scalars (encodeWith isUnreserved (scalars p))) ≠ [] := by
      rw [Ne, encodeWith_eq_nil_iff, scalars_eq_nil_iff hencoded.wellFormed,
        encodeWith_eq_nil_iff, scalars_eq_nil_iff h]
      exact hp
    simp [hne, hp, decode_encoded s.malformed hencoded.wellFormed, decode_encoded s.malformed h]

/-- Both handlers act on the very path that was clicked, unless it is empty. -/
theorem posted_path_unchanged (s : Setting) {p : JString} (h : WellFormed p) :
    (deleteFile p).map (fun content => HttpDelHandler.handle s ⟨true, content⟩) =
        some (if ¬s.ALLOW_DELETE then .serviceUnavailable
          else if p = [] then .badRequest else .acts (.deleteFile p)) ∧
      (editDatabase p).map (fun content => HttpEditHandler.handle s ⟨true, content⟩) =
        some (if ¬s.ALLOW_DELETE then .serviceUnavailable
          else if p = [] then .badRequest else .acts (.addDBResponse p)) :=
  ⟨handlePath_posted s .deleteFile h, handlePath_posted s .addDBResponse h⟩

def phone : Setting := ⟨true, fun _ => [0xFFFD], ⟨id, id⟩⟩

def oddPath : JString := ofString "/sdcard/50%+a&b= \"ü\" 中.db"

theorem posted_path_unchanged_odd :
    (deleteFile oddPath).map (fun content => HttpDelHandler.handle phone ⟨true, content⟩) =
        some (.acts (.deleteFile oddPath)) ∧
      (editDatabase oddPath).map (fun content => HttpEditHandler.handle phone ⟨true, content⟩) =
        some (.acts (.addDBResponse oddPath)) := by
  have hne : oddPath ≠ [] := by decide +kernel
  have h := posted_path_unchanged phone (show WellFormed oddPath by decide +kernel)
  simpa [phone, hne] using h

/-- An empty value is null to the splitter, and the handler turns the request down. -/
theorem empty_path_refused : ¬∀ p, WellFormed p →
    (deleteFile p).map (fun content => HttpDelHandler.handle phone ⟨true, content⟩) =
      some (.acts (.deleteFile p)) := by
  intro h
  have hrefused := handlePath_posted phone .deleteFile (show WellFormed [] from rfl)
  exact absurd (hrefused.symm.trans (h [] rfl)) (by decide)

end PathRequests
