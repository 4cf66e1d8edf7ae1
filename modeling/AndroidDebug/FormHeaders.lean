import AndroidDebug.FileUploadBase
import AndroidDebug.PartBoundaries

/-! Header sections and parameters as a browser writes them, and how they are read. -/

namespace JavaText

variable {s t : JString}

theorem scalars_units_append {cs : List ℕ} (h : ∀ c ∈ cs, IsScalar c) (rest : JString) :
    scalars (units cs ++ rest) = cs ++ scalars rest := by
  induction cs with
  | nil => rfl
  | cons c cs ih =>
    have htail : ∀ c ∈ cs, IsScalar c := fun x hx => h x (List.mem_cons_of_mem c hx)
    rw [units, List.flatMap_cons, List.append_assoc, scalars_unitsOfScalar (h c List.mem_cons_self)]
    exact congrArg (c :: ·) (ih htail)

theorem scalars_append (h : WellFormed s) (t : JString) :
    scalars (s ++ t) = scalars s ++ scalars t := by
  conv_lhs => rw [← h]
  exact scalars_units_append (scalars_isScalar s) t

theorem getBytes_append (h : WellFormed s) (t : JString) :
    getBytes (s ++ t) = getBytes s ++ getBytes t := by
  rw [getBytes, scalars_append h]
  exact List.flatMap_append

theorem WellFormed.append (h : WellFormed s) (k : WellFormed t) : WellFormed (s ++ t) := by
  rw [WellFormed, scalars_append h, units, List.flatMap_append]
  exact congrArg₂ _ h k

theorem wellFormed_ofString (s : String) : WellFormed (ofString s) := by
  have hscalar : ∀ c ∈ s.toList.map Char.toNat, IsScalar c := by
    intro c hc
    obtain ⟨char, -, rfl⟩ := List.mem_map.mp hc
    exact isScalar_char char
  rw [WellFormed, ofString, scalars_units hscalar]

/-- A byte below 0x80 stands for itself. -/
theorem eq_of_mem_encodeScalar {c : ℕ} {b : UInt8} (hc : IsScalar c) (hb : b.toNat < 0x80)
    (h : b ∈ encodeScalar c) : c = b.toNat := by
  have hsmall : c < 0x110000 := by rcases hc with h | h <;> omega
  rw [encodeScalar] at h
  split_ifs at h <;> simp only [List.mem_cons, List.not_mem_nil, or_false] at h
  · rw [h, UInt8.toNat_ofNat_of_lt' (by rw [UInt8.size]; omega)]
  · rcases h with rfl | rfl <;>
      (rw [UInt8.toNat_ofNat_of_lt' (by rw [UInt8.size]; omega)] at hb; omega)
  · rcases h with rfl | rfl | rfl <;>
      (rw [UInt8.toNat_ofNat_of_lt' (by rw [UInt8.size]; omega)] at hb; omega)
  · rcases h with rfl | rfl | rfl | rfl <;>
      (rw [UInt8.toNat_ofNat_of_lt' (by rw [UInt8.size]; omega)] at hb; omega)

theorem mem_of_mem_scalars {c : ℕ} (hc : c < 0x10000) (hmark : c ≠ 63) (h : c ∈ scalars s) :
    UInt16.ofNat c ∈ s := by
  have hunit : ∀ u : UInt16, c = scalarOfUnit u → UInt16.ofNat c = u := by
    intro u hu
    rw [scalarOfUnit] at hu
    split_ifs at hu
    · exact absurd hu hmark
    · rw [hu, UInt16.ofNat_toNat]
  fun_induction scalars s with
  | case1 => cases h
  | case2 u => rw [hunit u (List.mem_singleton.mp h)]; exact List.mem_cons_self
  | case3 u v rest hpair ih =>
    rcases List.mem_cons.mp h with h | h
    · omega
    · exact List.mem_cons_of_mem u (List.mem_cons_of_mem v (ih h))
  | case4 u v rest hpair ih =>
    rcases List.mem_cons.mp h with h | h
    · rw [hunit u h]
      exact List.mem_cons_self
    · exact List.mem_cons_of_mem u (ih h)

/-- A control character comes only from itself. -/
theorem mem_of_mem_getBytes {b : UInt8} (hb : b.toNat < 0x20) (h : b ∈ getBytes s) :
    UInt16.ofNat b.toNat ∈ s := by
  obtain ⟨c, hc, hmem⟩ := List.mem_flatMap.mp h
  have heq := eq_of_mem_encodeScalar (scalars_isScalar s c hc) (by omega) hmem
  rw [← heq]
  exact mem_of_mem_scalars (by omega) (by omega) hc

end JavaText

namespace ParameterParser

open JavaText

variable {rt : Runtime} {separator : UInt16} {name value tail pad : JString}

/-- Between quotation marks the text is read as it stands. -/
structure Quotable (s : JString) : Prop where
  noMark : quotationMark ∉ s
  last : s.getLast? ≠ some backslash
  plain : ¬ENCODED_TOKEN_MARKER <:+: s

/-- Nothing follows, or the separator. -/
def Ends (separator : UInt16) (tail : JString) : Prop := ∀ u ∈ tail.head?, u = separator

theorem ends_nil : Ends separator [] := by
  intro u hu
  cases hu

theorem ends_cons (rest : JString) : Ends separator (separator :: rest) := by
  intro u hu
  cases hu
  rfl

theorem quotedSpan_ends (h : Ends separator tail) :
    quotedSpan [separator] false false tail = ([], tail) := by
  cases tail with
  | nil => rfl
  | cons u tail => rw [quotedSpan, if_pos ⟨rfl, List.mem_singleton.mpr (h u rfl)⟩]

theorem quotedSpan_open (terminators : JString) {s : JString} (charEscaped : Bool)
    (hmark : quotationMark ∉ s) (hlast : s.getLast? ≠ some backslash)
    (hnil : s = [] → charEscaped = false) (rest : JString) :
    quotedSpan terminators true charEscaped (s ++ quotationMark :: rest) =
      (s ++ quotationMark :: (quotedSpan terminators false false rest).1,
        (quotedSpan terminators false false rest).2) := by
  induction s generalizing charEscaped with
  | nil => simp [quotedSpan, hnil rfl, quotationMark, backslash]
  | cons u s ih =>
    have hu : u ≠ quotationMark := fun h => hmark (h ▸ List.mem_cons_self)
    have hs : quotationMark ∉ s := fun h => hmark (List.mem_cons_of_mem u h)
    have hspan := ih (!charEscaped && u == backslash) hs
      (fun h => hlast (by rw [List.getLast?_cons, h]; rfl))
      (by
        rintro rfl
        have : u ≠ backslash := fun h => hlast (by rw [h]; rfl)
        simp [this])
    simp [quotedSpan, hu, hspan]

theorem trimLeft_cons {u : UInt16} {s : JString} (h : isWhitespace u = false) :
    trimLeft (u :: s) = u :: s := by
  rw [trimLeft, List.dropWhile_cons_of_neg (by simp [h])]

theorem trimLeft_pad {s : JString} (h : ∀ u ∈ pad, isWhitespace u = true) :
    trimLeft (pad ++ s) = trimLeft s := List.dropWhile_append_of_pos h

theorem getToken_quoted (value : JString) :
    getToken true (quotationMark :: (value ++ [quotationMark])) =
      if value = [] then none else some value := by
  have htrim : trim (quotationMark :: (value ++ [quotationMark])) =
      quotationMark :: (value ++ [quotationMark]) := by
    have hreverse : (quotationMark :: (value ++ [quotationMark])).reverse =
        quotationMark :: (value.reverse ++ [quotationMark]) := by simp
    rw [trim, trimLeft_cons (by decide), hreverse, trimLeft_cons (by decide), ← hreverse,
      List.reverse_reverse]
  have hlast : (quotationMark :: (value ++ [quotationMark])).getLast? = some quotationMark := by
    rw [← List.cons_append, List.getLast?_concat]
  rw [getToken, htrim]
  simp [hlast]

theorem parseToken_name (hpad : ∀ u ∈ pad, isWhitespace u = true ∧ u ≠ equals ∧ u ≠ separator)
    (hname : Inert separator name) (hne : name ≠ []) {u : UInt16} (hu : u ∈ [equals, separator])
    (rest : JString) :
    parseToken [equals, separator] (pad ++ (name ++ u :: rest)) = (some name, u :: rest) := by
  have hkept : ∀ v ∈ pad ++ name, decide (v ∉ [equals, separator]) = true := by
    intro v hv
    rcases List.mem_append.mp hv with hv | hv
    · simp [(hpad v hv).2.1, (hpad v hv).2.2]
    · simp [(hname v hv).1, (hname v hv).2.1]
  have htoken : getToken false (pad ++ name) = some name := by
    have htrim : trim (pad ++ name) = name := by
      rw [trim, trimLeft_pad fun u hu => (hpad u hu).1]
      exact trim_inert hname
    rw [getToken, htrim]
    simp [hne]
  rw [parseToken, ← List.append_assoc, List.takeWhile_append_of_pos hkept,
    List.dropWhile_append_of_pos hkept, List.takeWhile_cons_of_neg (by simp [hu]),
    List.dropWhile_cons_of_neg (by simp [hu]), List.append_nil, htoken]

theorem parse_nil : parse rt separator [] = [] := by rw [parse, dif_pos rfl]

/-- A name that stands alone in front of others. -/
theorem parse_flag (hname : Inert separator name) (hne : name ≠ []) (hequals : separator ≠ equals)
    (rest : JString) :
    parse rt separator (name ++ separator :: rest) =
      (toLowerCase rt name, none) :: parse rt separator rest := by
  have htoken : parseToken [equals, separator] (name ++ separator :: rest) =
      (some name, separator :: rest) :=
    parseToken_name (show ∀ u ∈ [], _ from nofun) hname hne
      (List.mem_cons_of_mem equals List.mem_cons_self) rest
  rw [parse, dif_neg (by simp)]
  simp [parseParameter, htoken, hequals, skip]

theorem parse_valued (hpad : ∀ u ∈ pad, isWhitespace u = true ∧ u ≠ equals ∧ u ≠ separator)
    (hname : Inert separator name) (hne : name ≠ []) {text : JString} {token : Option JString}
    (htoken : parseQuotedToken [separator] text = (token, tail))
    (hplain : token.map (decodeText rt) = token) :
    parse rt separator (pad ++ (name ++ equals :: text)) =
      (toLowerCase rt name, token) :: parse rt separator (skip separator tail) := by
  have hparsed := parseToken_name hpad hname hne List.mem_cons_self text
  rw [parse, dif_neg (by simp)]
  simp [parseParameter, hparsed, htoken, hplain]

/-- A quoted value, after which another parameter may follow. -/
theorem parse_quoted (hpad : ∀ u ∈ pad, isWhitespace u = true ∧ u ≠ equals ∧ u ≠ separator)
    (hname : Inert separator name) (hne : name ≠ []) (hvalue : Quotable value)
    (htail : Ends separator tail) (hmark : separator ≠ quotationMark) :
    parse rt separator
        (pad ++ (name ++ equals :: quotationMark :: (value ++ quotationMark :: tail))) =
      (toLowerCase rt name, if value = [] then none else some value) ::
        parse rt separator (skip separator tail) := by
  apply parse_valued hpad hname hne
  · have hspan : quotedSpan [separator] false false
        (quotationMark :: (value ++ quotationMark :: tail)) =
        (quotationMark :: (value ++ [quotationMark]), tail) := by
      have hopen := quotedSpan_open [separator] false hvalue.noMark hvalue.last (fun _ => rfl) tail
      have hescape : (quotationMark == backslash) = false := rfl
      rw [quotedSpan, if_neg (by simp [hmark.symm])]
      simp [hescape, hopen, quotedSpan_ends htail]
    rw [parseQuotedToken, hspan, getToken_quoted]
  · split_ifs
    · rfl
    · rw [Option.map_some, decodeText, if_neg hvalue.plain]

/-- The last value, without quotation marks. -/
theorem parse_plain (hpad : ∀ u ∈ pad, isWhitespace u = true ∧ u ≠ equals ∧ u ≠ separator)
    (hname : Inert separator name) (hne : name ≠ []) (hvalue : Inert separator value) :
    parse rt separator (pad ++ (name ++ equals :: value)) =
      [(toLowerCase rt name, if value = [] then none else some value)] := by
  have htoken : parseQuotedToken [separator] value =
      (if value = [] then none else some value, []) := by
    rw [parseQuotedToken, quotedSpan_inert hvalue, getToken_inert hvalue]
  rw [parse_valued hpad hname hne htoken, skip, parse_nil]
  split_ifs
  · rfl
  · rw [Option.map_some, decodeText_inert hvalue]

end ParameterParser

namespace FileUploadBase

open JavaText MultipartStream
open ParameterParser hiding skip

def EOL : JString := [cr, lf]

/-- The header section of a part, with the empty line that ends it. -/
def headerText (headers : List (JString × JString)) : JString :=
  headers.flatMap (fun h => h.1 ++ (colon :: blank :: h.2 ++ EOL)) ++ EOL

def Trimmed (s : JString) : Prop :=
  (∀ u ∈ s.head?, blank < u) ∧ ∀ u ∈ s.getLast?, blank < u

instance (s : JString) : Decidable (Trimmed s) :=
  decidable_of_iff ((s.head?.all fun u => blank < u) ∧ s.getLast?.all fun u => blank < u)
    (by simp [Trimmed, Option.all_eq_true])

/-- A header that is one line and keeps its name and its value. -/
structure OneLine (h : JString × JString) : Prop where
  name_ne : h.1 ≠ []
  name_trimmed : Trimmed h.1
  name_colon : colon ∉ h.1
  value_trimmed : Trimmed h.2
  name_cr : cr ∉ h.1
  value_cr : cr ∉ h.2
  name_wellFormed : WellFormed h.1
  value_wellFormed : WellFormed h.2

variable {rt : Runtime} {s : JString} {h : JString × JString}

theorem dropWhile_le_blank (hs : ∀ u ∈ s.head?, blank < u) :
    s.dropWhile (fun u => decide (u ≤ blank)) = s := by
  cases s with
  | nil => rfl
  | cons u s =>
    rw [List.dropWhile_cons_of_neg]
    simpa using hs u rfl

theorem trimmed_eq (hs : Trimmed s) : trimmed s = s := by
  have hlast : ∀ u ∈ s.reverse.head?, blank < u := by
    rw [List.head?_reverse]
    exact hs.2
  rw [trimmed, dropWhile_le_blank hs.1, dropWhile_le_blank hlast, List.reverse_reverse]

theorem trimmed_blank (hs : Trimmed s) : trimmed (blank :: s) = s := by
  have hskip : trimmed (blank :: s) = trimmed s := by
    rw [trimmed, List.dropWhile_cons_of_pos (by decide)]
    rfl
  rw [hskip, trimmed_eq hs]

/-! Lines. -/

theorem parseEndOfLine_line {line : JString} (hline : cr ∉ line) (rest : JString) :
    parseEndOfLine (line ++ (EOL ++ rest)) = some (line, rest) := by
  induction line with
  | nil => simp [EOL, parseEndOfLine]
  | cons u line ih =>
    have hu : u ≠ cr := fun heq => hline (heq ▸ List.mem_cons_self)
    have htail := ih fun hmem => hline (List.mem_cons_of_mem u hmem)
    cases hrest : line ++ (EOL ++ rest) with
    | nil => simp [EOL] at hrest
    | cons v text =>
      rw [hrest] at htail
      rw [List.cons_append, hrest, parseEndOfLine, if_neg (by simp [hu]), htail]
      rfl

/-- The next line begins another header, or is the empty one. -/
theorem continuation_line (header : JString) {text : JString}
    (htext : ∀ u ∈ text.head?, isBlank u = false) :
    continuation header text = some (header, text) := by
  have hdrop : text.dropWhile isBlank = text := by
    cases text with
    | nil => rfl
    | cons u text => rw [List.dropWhile_cons_of_neg (by simp [htext u rfl])]
  rw [continuation, if_pos (by rw [hdrop])]

theorem headerText_cons (h : JString × JString) (headers : List (JString × JString)) :
    headerText (h :: headers) = h.1 ++ colon :: blank :: h.2 ++ (EOL ++ headerText headers) := by
  simp [headerText]

theorem head_headerText (headers : List (JString × JString))
    (hlines : ∀ h ∈ headers, OneLine h) : ∀ u ∈ (headerText headers).head?, isBlank u = false := by
  intro u hu
  cases headers with
  | nil =>
    cases hu
    decide
  | cons h headers =>
    have hh := hlines h List.mem_cons_self
    cases hname : h.1 with
    | nil => exact absurd hname hh.name_ne
    | cons v name =>
      rw [headerText_cons, hname] at hu
      cases hu
      have hblank : blank < u := hh.name_trimmed.1 u (by rw [hname]; rfl)
      have hne : u ≠ tab := by
        rintro rfl
        exact absurd hblank (by decide)
      simp [isBlank, (UInt16.ne_of_lt hblank).symm, hne]

theorem cr_not_mem_line (hh : OneLine h) : cr ∉ h.1 ++ colon :: blank :: h.2 := by
  have hcolon : cr ≠ colon := by decide
  have hblank : cr ≠ blank := by decide
  simp [hh.name_cr, hh.value_cr, hcolon, hblank]

theorem parseHeaderLine_line (hh : OneLine h) (headers : FileItemHeaders) :
    parseHeaderLine rt headers (h.1 ++ colon :: blank :: h.2) = addHeader rt headers h.1 h.2 := by
  have hname : ∀ u ∈ h.1, decide (u ≠ colon) = true := by
    intro u hu
    rw [decide_eq_true_eq]
    rintro rfl
    exact hh.name_colon hu
  rw [parseHeaderLine, if_pos (by simp), List.takeWhile_append_of_pos hname,
    List.dropWhile_append_of_pos hname, List.takeWhile_cons_of_neg (by simp),
    List.dropWhile_cons_of_neg (by simp), List.append_nil]
  simp only [List.drop_succ_cons, List.drop_zero, trimmed_eq hh.name_trimmed,
    trimmed_blank hh.value_trimmed]

/-- By induction on the headers, one line for each. -/
theorem parsedHeaders_text {headers : List (JString × JString)}
    (hlines : ∀ h ∈ headers, OneLine h) (found : FileItemHeaders) :
    parsedHeaders rt found (headerText headers) =
      some (headers.foldl (fun found h => addHeader rt found h.1 h.2) found) := by
  induction headers generalizing found with
  | nil =>
    have hend : parseEndOfLine (headerText []) = some ([], []) :=
      parseEndOfLine_line (show cr ∉ [] from nofun) []
    rw [parsedHeaders]
    split
    · rename_i hnone
      cases hend.symm.trans hnone
    · rename_i line rest hsome
      cases hend.symm.trans hsome
      rw [if_pos rfl]
      rfl
  | cons h headers ih =>
    have hh := hlines h List.mem_cons_self
    have htail : ∀ h ∈ headers, OneLine h := fun g hg => hlines g (List.mem_cons_of_mem h hg)
    have hcr := cr_not_mem_line hh
    have hfirst : parseEndOfLine (headerText (h :: headers)) =
        some (h.1 ++ colon :: blank :: h.2, headerText headers) := by
      rw [headerText_cons]
      exact parseEndOfLine_line hcr _
    have hnext := continuation_line (h.1 ++ colon :: blank :: h.2) (head_headerText headers htail)
    rw [parsedHeaders]
    split
    · rename_i hnone
      cases hfirst.symm.trans hnone
    · rename_i line rest hsome
      cases hfirst.symm.trans hsome
      rw [if_neg (by simp)]
      split
      · rename_i hnone
        cases hnext.symm.trans hnone
      · rename_i header after hsome
        cases hnext.symm.trans hsome
        rw [parseHeaderLine_line hh, ih htail]
        rfl

/-! Bytes. -/

theorem headerPart_map {i size : ℕ} {part rest after : Bytes} {b : UInt8}
    (hi : i < HEADER_SEPARATOR.length) (hsize : size + 1 ≤ HEADER_PART_SIZE_MAX)
    (hnext : headerPart (if HEADER_SEPARATOR[i]? = some b then i + 1 else 0) (size + 1) rest =
      .ok (part, after)) :
    headerPart i size (b :: rest) = .ok (b :: part, after) := by
  rw [headerPart, if_neg (by omega), if_neg (by omega), hnext]
  rfl

/-- Bytes without a carriage return take the search back to its start. -/
theorem headerPart_span {span part rest after : Bytes} (hspan : CR ∉ span) {size : ℕ}
    (hsize : size + span.length ≤ HEADER_PART_SIZE_MAX)
    (hnext : headerPart 0 (size + span.length) rest = .ok (part, after)) :
    headerPart 0 size (span ++ rest) = .ok (span ++ part, after) := by
  induction span generalizing size with
  | nil => exact hnext
  | cons b span ih =>
    have hb : some CR ≠ some b := fun heq => hspan (Option.some.inj heq ▸ List.mem_cons_self)
    have hrest := @ih (fun hmem => hspan (List.mem_cons_of_mem b hmem)) (size + 1)
    rw [List.length_cons] at hsize hnext
    apply headerPart_map (by decide) (by omega)
    rw [if_neg (show ¬HEADER_SEPARATOR[0]? = some b from hb)]
    refine hrest (by omega) ?_
    rwa [Nat.add_comm span.length 1, ← Nat.add_assoc] at hnext

/-- The line break in front of `span` does not matter, since `span` is not empty. -/
theorem headerPart_start {i size : ℕ} {span rest : Bytes} (hi : i = 0 ∨ i = 2) (hne : span ≠ [])
    (hspan : CR ∉ span) :
    headerPart i size (span ++ rest) = headerPart 0 size (span ++ rest) := by
  cases span with
  | nil => exact absurd rfl hne
  | cons b span =>
    have hb : some CR ≠ some b := fun heq => hspan (Option.some.inj heq ▸ List.mem_cons_self)
    rcases hi with rfl | rfl
    · rfl
    · simp only [List.cons_append, headerPart,
        if_neg (show ¬HEADER_SEPARATOR[2]? = some b from hb),
        if_neg (show ¬HEADER_SEPARATOR[0]? = some b from hb),
        if_neg (show ¬HEADER_SEPARATOR.length ≤ 2 by decide),
        if_neg (show ¬HEADER_SEPARATOR.length ≤ 0 by decide)]

theorem getBytes_EOL : getBytes EOL = [CR, LF] := by decide

theorem wellFormed_EOL : WellFormed EOL := by decide

theorem wellFormed_line (hh : OneLine h) : WellFormed (h.1 ++ colon :: blank :: h.2) :=
  hh.name_wellFormed.append
    ((show WellFormed [colon, blank] by decide).append hh.value_wellFormed)

theorem wellFormed_headerText {headers : List (JString × JString)}
    (hlines : ∀ h ∈ headers, OneLine h) : WellFormed (headerText headers) := by
  induction headers with
  | nil => exact wellFormed_EOL
  | cons h headers ih =>
    rw [headerText_cons]
    exact (wellFormed_line (hlines h List.mem_cons_self)).append
      (wellFormed_EOL.append (ih fun g hg => hlines g (List.mem_cons_of_mem h hg)))

theorem getBytes_headerText_cons (hh : OneLine h) (headers : List (JString × JString)) :
    getBytes (headerText (h :: headers)) =
      getBytes (h.1 ++ colon :: blank :: h.2) ++ CR :: LF :: getBytes (headerText headers) := by
  rw [headerText_cons, getBytes_append (wellFormed_line hh), getBytes_append wellFormed_EOL,
    getBytes_EOL]
  rfl

theorem cr_not_mem_bytes (hh : OneLine h) : CR ∉ getBytes (h.1 ++ colon :: blank :: h.2) := by
  intro hmem
  exact cr_not_mem_line hh (mem_of_mem_getBytes (by decide) hmem)

/-- By induction on the headers; between two of them the search has found a line break. -/
theorem headerPart_text {headers : List (JString × JString)} (hlines : ∀ h ∈ headers, OneLine h)
    {i size : ℕ} (hi : i = 2 ∨ i = 0 ∧ headers ≠ [])
    (hsize : size + (getBytes (headerText headers)).length ≤ HEADER_PART_SIZE_MAX) (rest : Bytes) :
    headerPart i size (getBytes (headerText headers) ++ rest) =
      .ok (getBytes (headerText headers), rest) := by
  induction headers generalizing i size with
  | nil =>
    obtain rfl := hi.resolve_right fun hi => hi.2 rfl
    rw [show getBytes (headerText []) = [CR, LF] from getBytes_EOL] at hsize ⊢
    rw [List.length_cons, List.length_cons, List.length_nil] at hsize
    refine headerPart_map (by decide) (by omega) ?_
    rw [if_pos (by rfl)]
    refine headerPart_map (by decide) (by omega) ?_
    rw [if_pos (by rfl)]
    exact headerPart_complete (by decide) _ _
  | cons h headers ih =>
    have hh := hlines h List.mem_cons_self
    have htail : ∀ h ∈ headers, OneLine h := fun g hg => hlines g (List.mem_cons_of_mem h hg)
    have hne : getBytes (h.1 ++ colon :: blank :: h.2) ≠ [] := by
      rw [getBytes_append hh.name_wellFormed]
      exact fun hnil => nomatch (List.append_eq_nil_iff.mp hnil).2
    rw [getBytes_headerText_cons hh] at hsize ⊢
    simp only [List.length_append, List.length_cons] at hsize
    rw [List.append_assoc, headerPart_start (hi.symm.imp And.left id) hne (cr_not_mem_bytes hh)]
    refine headerPart_span (cr_not_mem_bytes hh) (by omega) ?_
    refine headerPart_map (by decide) (by omega) ?_
    rw [if_pos (by rfl)]
    refine headerPart_map (by decide) (by omega) ?_
    rw [if_pos (by rfl)]
    exact ih htail (.inl rfl) (by omega)

/-! The content type of a form. -/

def formContentType (token : JString) : JString :=
  ofString "multipart/form-data" ++ semicolon ::
    ([blank] ++ (ofString "boundary" ++ equals :: token))

def IsAscii (s : JString) : Prop := s.all fun u => u.toNat < 0x80

instance (s : JString) : Decidable (IsAscii s) := inferInstanceAs (Decidable (_ = true))

/-- The headers are decoded as UTF-8, and letters outside ASCII do not change how the others are
made small. -/
structure Runtime.Documented (rt : Runtime) : Prop where
  decodes : ∀ s, WellFormed s → rt.decodeHeaders (getBytes s) = s
  keeps : ∀ a b, IsAscii a → a.map lowerUnit <+: rt.toLowerCase (a ++ b)

/-- A runtime that makes only ASCII letters small. -/
def asciiRuntime : Runtime := ⟨⟨List.map lowerUnit, id⟩, newString fun _ => []⟩

theorem documented_asciiRuntime : asciiRuntime.Documented where
  decodes _ hs := newString_getBytes (fun _ => []) hs
  keeps a b _ := by
    show a.map lowerUnit <+: (a ++ b).map lowerUnit
    rw [List.map_append]
    exact List.prefix_append _ _

theorem lower_ascii {s : JString} (h : IsAscii s) : lower rt s = s.map lowerUnit := if_pos h

theorem lower_prefix (hrt : rt.Documented) {a : JString} (h : IsAscii a) (b : JString) :
    a.map lowerUnit <+: lower rt (a ++ b) := by
  rw [lower, ParameterParser.toLowerCase]
  split_ifs
  · rw [List.map_append]
    exact List.prefix_append _ _
  · exact hrt.keeps a b h

theorem blank_pad : ∀ u ∈ [blank], isWhitespace u = true ∧ u ≠ equals ∧ u ≠ semicolon := by
  intro u hu
  cases List.mem_singleton.mp hu
  decide

theorem multipart_form (hrt : rt.Documented) (token : JString) :
    MULTIPART <+: lower rt (formContentType token) := by
  have hsplit : formContentType token = MULTIPART ++ (ofString "form-data" ++ semicolon ::
      ([blank] ++ (ofString "boundary" ++ equals :: token))) := by
    rw [formContentType, ← List.append_assoc]
    rfl
  rw [hsplit]
  exact lower_prefix hrt (show IsAscii MULTIPART by decide) _

theorem getBoundary_form (rt : Runtime) {token : JString} (htoken : Inert semicolon token)
    (hne : token ≠ []) : getBoundary rt (some (formContentType token)) = some (latin1 token) := by
  have hseparator : separatorOf [semicolon, comma] (formContentType token) = semicolon := by
    have hfirst : (ofString "multipart/form-data").find? (· ∈ [semicolon, comma]) = none := by
      decide
    rw [separatorOf, formContentType, List.find?_append, hfirst,
      List.find?_cons_of_pos (by decide)]
    rfl
  have hparse : parse rt.toRuntime semicolon (formContentType token) =
      [(lower rt (ofString "multipart/form-data"), none),
        (lower rt (ofString "boundary"), some token)] := by
    rw [formContentType, parse_flag (by decide) (by decide) (by decide),
      parse_plain blank_pad (by decide) (by decide) htoken, if_neg hne]
    rfl
  have hvalue : getValue (parse rt.toRuntime semicolon (formContentType token))
      (ofString "boundary") = some token := by
    rw [hparse, lower_ascii (by decide), lower_ascii (by decide)]
    rfl
  simp only [getBoundary, Option.bind_eq_bind, Option.bind_some, hseparator, hvalue]
  rfl

end FileUploadBase
