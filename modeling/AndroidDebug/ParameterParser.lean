import AndroidDebug.JavaText
import Mathlib.Data.List.Infix

/-! The splitter of commons-fileupload that reads queries and posted forms. -/
namespace ParameterParser

open JavaText

def quotationMark : UInt16 := 0x22
def ampersand : UInt16 := 0x26
def equals : UInt16 := 0x3D
def backslash : UInt16 := 0x5C

/-- `Character.isWhitespace` -/
def isWhitespace (u : UInt16) : Bool :=
  let c := u.toNat
  decide (9 ≤ c ∧ c ≤ 13 ∨ 0x1C ≤ c ∧ c ≤ 0x20 ∨ c = 0x1680 ∨ 0x2000 ≤ c ∧ c ≤ 0x200A ∧ c ≠ 0x2007 ∨
    c = 0x2028 ∨ c = 0x2029 ∨ c = 0x205F ∨ c = 0x3000)

/-- What the runtime does with names outside ASCII, and MimeUtility with marked words. -/
structure Runtime where
  toLowerCase : JString → JString
  decodeWords : JString → JString

variable (rt : Runtime)

def lowerUnit (u : UInt16) : UInt16 := if 0x41 ≤ u.toNat ∧ u.toNat ≤ 0x5A then u + 0x20 else u

def toLowerCase (s : JString) : JString :=
  if s.all fun u => u.toNat < 0x80 then s.map lowerUnit else rt.toLowerCase s

def ENCODED_TOKEN_MARKER : JString := ofString "=?"

/-- `MimeUtility.decodeText`; the value is kept where its charset is unknown. -/
def decodeText (s : JString) : JString :=
  if ENCODED_TOKEN_MARKER <:+: s then rt.decodeWords s else s

def trimLeft (s : JString) : JString := s.dropWhile isWhitespace

def trim (s : JString) : JString := (trimLeft (trimLeft s).reverse).reverse

/-- An empty token is null. -/
def getToken (quoted : Bool) (s : JString) : Option JString :=
  let t := trim s
  let t :=
    if quoted ∧ 2 ≤ t.length ∧ t.head? = some quotationMark ∧ t.getLast? = some quotationMark then
      t.tail.dropLast
    else t
  if t = [] then none else some t

def parseToken (terminators s : JString) : Option JString × JString :=
  (getToken false (s.takeWhile (· ∉ terminators)), s.dropWhile (· ∉ terminators))

/-- A terminator between quotation marks does not count; a backslash hides one mark. -/
def quotedSpan (terminators : JString) : Bool → Bool → JString → JString × JString
  | _, _, [] => ([], [])
  | quoted, charEscaped, u :: rest =>
    if quoted = false ∧ u ∈ terminators then ([], u :: rest)
    else
      let span := quotedSpan terminators
        (if charEscaped = false ∧ u = quotationMark then !quoted else quoted)
        (!charEscaped && u == backslash) rest
      (u :: span.1, span.2)

def parseQuotedToken (terminators s : JString) : Option JString × JString :=
  let span := quotedSpan terminators false false s
  (getToken true span.1, span.2)

def skip (u : UInt16) : JString → JString
  | [] => []
  | v :: rest => if v = u then rest else v :: rest

/-- One name with its value, if it has one, and what follows the separator. -/
def parseParameter (separator : UInt16) (s : JString) :
    (Option JString × Option JString) × JString :=
  let (paramName, rest) := parseToken [equals, separator] s
  match rest with
  | [] => ((paramName, none), [])
  | u :: rest =>
    if u = equals then
      let (paramValue, rest) := parseQuotedToken [separator] rest
      ((paramName, paramValue.map (decodeText rt)), skip separator rest)
    else ((paramName, none), skip separator (u :: rest))

theorem length_quotedSpan (terminators : JString) (quoted charEscaped : Bool) (s : JString) :
    (quotedSpan terminators quoted charEscaped s).2.length ≤ s.length := by
  induction s generalizing quoted charEscaped with
  | nil => simp [quotedSpan]
  | cons u s ih =>
    rw [quotedSpan]
    split
    · exact le_refl _
    · exact Nat.le_trans (ih _ _) (Nat.le_succ _)

theorem length_skip (u : UInt16) (s : JString) : (skip u s).length ≤ s.length := by
  cases s with
  | nil => exact le_refl _
  | cons v s =>
    rw [skip]
    split
    · exact Nat.le_succ _
    · exact le_refl _

theorem parseParameter_shortens (separator : UInt16) {s : JString} (h : s ≠ []) :
    (parseParameter rt separator s).2.length < s.length := by
  have hpos := List.length_pos_of_ne_nil h
  have hdrop : (s.dropWhile (· ∉ [equals, separator])).length ≤ s.length :=
    (List.dropWhile_suffix _).length_le
  simp only [parseParameter, parseToken]
  cases hrest : s.dropWhile (· ∉ [equals, separator]) with
  | nil => exact hpos
  | cons u rest =>
    rw [hrest, List.length_cons] at hdrop
    dsimp only
    split
    · have hspan := length_quotedSpan [separator] false false rest
      have hskip := length_skip separator (parseQuotedToken [separator] rest).2
      simp only [parseQuotedToken] at hskip ⊢
      omega
    · rename_i hne
      have hhead := List.head?_dropWhile_not (· ∉ [equals, separator]) s
      rw [hrest] at hhead
      have hu : u = separator := by simpa [hne] using hhead
      simp only [skip, hu, if_true]
      omega

/-- The parameters in the order in which they are put into the map. -/
def parse (separator : UInt16) (s : JString) : List (JString × Option JString) :=
  if h : s = [] then []
  else
    have := parseParameter_shortens rt separator h
    let parameter := parseParameter rt separator s
    (parameter.1.1.map fun name => (toLowerCase rt name, parameter.1.2)).toList ++
      parse separator parameter.2
termination_by s.length

/-- The last value put under the name; null counts as a value. -/
def getValue (params : List (JString × Option JString)) (name : JString) : Option JString :=
  ((params.reverse.find? fun p => p.1 = name).map Prod.snd).join

/-- Nothing in the text means anything to the splitter. -/
def Inert (separator : UInt16) (s : JString) : Prop :=
  ∀ u ∈ s, u ≠ equals ∧ u ≠ separator ∧ u ≠ quotationMark ∧ isWhitespace u = false

instance (separator : UInt16) (s : JString) : Decidable (Inert separator s) :=
  decidable_of_iff (s.all fun u => u ≠ equals ∧ u ≠ separator ∧ u ≠ quotationMark ∧
    isWhitespace u = false) (by simp [Inert])

variable {rt} {separator : UInt16} {s : JString}

theorem trimLeft_inert {s : JString} (h : ∀ u ∈ s, isWhitespace u = false) : trimLeft s = s := by
  cases s with
  | nil => rfl
  | cons u s => rw [trimLeft, List.dropWhile_cons_of_neg (by simp [h u List.mem_cons_self])]

theorem trim_inert (h : Inert separator s) : trim s = s := by
  have hreverse : ∀ u ∈ s.reverse, isWhitespace u = false :=
    fun u hu => (h u (List.mem_reverse.mp hu)).2.2.2
  rw [trim, trimLeft_inert fun u hu => (h u hu).2.2.2, trimLeft_inert hreverse,
    List.reverse_reverse]

theorem getToken_inert (h : Inert separator s) (quoted : Bool) :
    getToken quoted s = if s = [] then none else some s := by
  have hhead : s.head? ≠ some quotationMark :=
    fun heq => (h quotationMark (List.mem_of_mem_head? heq)).2.2.1 rfl
  simp [getToken, trim_inert h, hhead]

theorem quotedSpan_inert (h : Inert separator s) (charEscaped : Bool) :
    quotedSpan [separator] false charEscaped s = (s, []) := by
  induction s generalizing charEscaped with
  | nil => rfl
  | cons u s ih =>
    obtain ⟨-, hu, hquote, -⟩ := h u List.mem_cons_self
    have hrest : Inert separator s := fun v hv => h v (List.mem_cons_of_mem u hv)
    rw [quotedSpan]
    simp [hu, hquote, ih hrest]

theorem decodeText_inert (h : Inert separator s) : decodeText rt s = s := by
  apply if_neg
  intro hmarker
  have hmem : equals ∈ s := hmarker.subset (by decide)
  exact (h equals hmem).1 rfl

/-- A single parameter is read as it stands, but an empty value is null. -/
theorem parse_single {name value : JString} (hname : Inert separator name) (hne : name ≠ [])
    (hvalue : Inert separator value) :
    parse rt separator (name ++ equals :: value) =
      [(toLowerCase rt name, if value = [] then none else some value)] := by
  have hkept : ∀ u ∈ name, decide (u ∉ [equals, separator]) = true := by
    intro u hu
    simp [(hname u hu).1, (hname u hu).2.1]
  have htake : (name ++ equals :: value).takeWhile (· ∉ [equals, separator]) = name := by
    rw [List.takeWhile_append_of_pos hkept, List.takeWhile_cons_of_neg (by simp), List.append_nil]
  have hdrop : (name ++ equals :: value).dropWhile (· ∉ [equals, separator]) =
      equals :: value := by
    rw [List.dropWhile_append_of_pos hkept, List.dropWhile_cons_of_neg (by simp)]
  have hparameter : parseParameter rt separator (name ++ equals :: value) =
      ((some name, if value = [] then none else some value), []) := by
    simp only [parseParameter, parseToken, htake, hdrop, getToken_inert hname, hne, if_false,
      if_true, parseQuotedToken, quotedSpan_inert hvalue, getToken_inert hvalue, skip]
    split <;> simp [decodeText_inert hvalue]
  rw [parse, dif_neg (by simp)]
  simp only [hparameter]
  rw [parse, dif_pos rfl]
  rfl

end ParameterParser
