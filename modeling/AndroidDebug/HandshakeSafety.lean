import AndroidDebug.WebSocketHandshake

/-! The handshake over any bytes that its one read can leave in the buffer: which requests keep
_readline, shakehands and base64_encode inside their arrays. The string functions may read
no further than their arrays either. -/
namespace HandshakeSafety

open CheckedFold CMemory WebSocketHandshake

def keyName : List UInt8 := literal "Sec-WebSocket-Key"

/-- The first line and what follows its line break, if there is one. -/
def firstLine : List UInt8 → List UInt8 × Option (List UInt8)
  | [] => ([], none)
  | [c] => ([c], none)
  | c :: d :: t =>
    if c = CR ∧ d = LF then ([], some t)
    else (c :: (firstLine (d :: t)).1, (firstLine (d :: t)).2)

/-- The request is read up to a key line or an empty line, and nothing on the way is too long:
a line has to leave room for a zero, the key line for the GUID too, and the digest must not
begin with a zero byte. -/
inductive Handled (sha1 : List UInt8 → Vector UInt8 20) : List UInt8 → Prop where
  | key {text : List UInt8} : keyName <:+: (firstLine text).1 → (firstLine text).1.length ≤ 219 →
      (sha1 (((firstLine text).1 ++ GUID).drop 19)).toList.head? ≠ some 0 → Handled sha1 text
  | blank {text t : List UInt8} : ¬keyName <:+: (firstLine text).1 →
      (firstLine text).1.length ≤ 255 → (firstLine text).2 = some t → [CR, LF] <+: t →
      Handled sha1 text
  | next {text t : List UInt8} : ¬keyName <:+: (firstLine text).1 →
      (firstLine text).1.length ≤ 255 → (firstLine text).2 = some t → Handled sha1 t →
      Handled sha1 text

def received (content : List UInt8) : Buffer := content ++ zeros (BUFFER_SIZE - content.length)

def requestText (content : List UInt8) : List UInt8 := content.takeWhile (· ≠ 0)

/-- Every access is inside its array, and the loop ends. -/
def StaysInside (sha1 : List UInt8 → Vector UInt8 20) (sec_accept : Vector UInt8 32)
    (content : List UInt8) : Prop :=
  ∃ writes, shakehands sha1 sec_accept.toList (received content) = .ok writes

section Lines

variable {b linebuf pad : Buffer} {text t : List UInt8} {level out : ℕ}

theorem length_firstLine (h : (firstLine text).2 = some t) :
    text.length = (firstLine text).1.length + 2 + t.length := by
  fun_induction firstLine text with
  | case1 => cases h
  | case2 c => cases h
  | case3 c d t' hbreak =>
    obtain rfl := Option.some.inj h
    simp
    omega
  | case4 c d t' hbreak ih =>
    have hrest := ih h
    simp only [List.length_cons] at hrest ⊢
    omega

theorem drop_firstLine (h : (firstLine text).2 = some t) :
    text.drop ((firstLine text).1.length + 2) = t := by
  fun_induction firstLine text with
  | case1 => cases h
  | case2 c => cases h
  | case3 c d t' hbreak =>
    obtain rfl := Option.some.inj h
    rfl
  | case4 c d t' hbreak ih => exact ih h

theorem firstLine_starts (text : List UInt8) : (firstLine text).1 <+: text := by
  fun_induction firstLine text with
  | case1 => exact List.prefix_refl []
  | case2 c => exact List.prefix_refl [c]
  | case3 c d t hbreak => exact List.nil_prefix
  | case4 c d t hbreak ih => exact List.cons_prefix_cons.mpr ⟨rfl, ih⟩

theorem lineBreakAt_text (hb : b.drop level = text ++ 0 :: pad) :
    lineBreakAt b level = .ok (decide ([CR, LF] <+: text)) := by
  match text with
  | [] =>
    have hc := load_of_drop hb
    have hne : (0 : UInt8) ≠ CR := by decide
    simp [lineBreakAt, hc, ok_bind, pure, Except.pure, hne]
  | [c] =>
    have hc := load_of_drop hb
    have hd := load_succ_of_drop hb
    have hne : (0 : UInt8) ≠ LF := by decide
    by_cases h : c = CR <;>
      simp [lineBreakAt, hc, hd, ok_bind, pure, Except.pure, h, hne, List.cons_prefix_cons]
  | c :: d :: t =>
    have hc := load_of_drop hb
    have hd := load_succ_of_drop hb
    by_cases h : c = CR
    · simp [lineBreakAt, hc, hd, ok_bind, pure, Except.pure, h, List.cons_prefix_cons, eq_comm]
    · simp [lineBreakAt, hc, ok_bind, pure, Except.pure, h, List.cons_prefix_cons, Ne.symm h]

def nextLevel (level : ℕ) (text : List UInt8) : ℤ :=
  match (firstLine text).2 with
  | some _ => ((level + (firstLine text).1.length + 2 : ℕ) : ℤ)
  | none => -1

theorem nextLevel_cons {c d : UInt8} (h : ¬(c = CR ∧ d = LF)) :
    nextLevel level (c :: d :: t) = nextLevel (level + 1) (d :: t) := by
  have hline : firstLine (c :: d :: t) =
      (c :: (firstLine (d :: t)).1, (firstLine (d :: t)).2) := by
    rw [firstLine, if_neg h]
  unfold nextLevel
  rw [hline]
  cases (firstLine (d :: t)).2 with
  | none => rfl
  | some u =>
    simp only [List.length_cons]
    omega

theorem memcpy_refused {dst : Buffer} {off : ℕ} {s : List UInt8} (h : dst.length < off + s.length) :
    memcpy dst (off : ℤ) s = .error .outOfBounds := by
  unfold memcpy
  rw [if_pos (.inr (by rwa [Int.toNat_natCast]))]

theorem memcpy_cons (dst : Buffer) (off : ℕ) (c : UInt8) (s : List UInt8) :
    memcpy dst (off : ℤ) (c :: s) =
      if off < dst.length then memcpy (dst.set off c) ((off + 1 : ℕ) : ℤ) s
      else .error .outOfBounds := by
  by_cases hoff : off < dst.length
  · rw [if_pos hoff]
    by_cases hfits : off + (c :: s).length ≤ dst.length
    · exact (memcpy_set hfits).symm
    · rw [List.length_cons] at hfits
      rw [memcpy_refused (by rw [List.length_cons]; omega),
        memcpy_refused (by rw [List.length_set]; omega)]
  · rw [if_neg hoff, memcpy_refused (by rw [List.length_cons]; omega)]

theorem drop_next {c : UInt8} {u : List UInt8} (hb : b.drop level = c :: u) :
    b.drop (level + 1) = u := by
  rw [← List.drop_drop, hb]
  rfl

/-- A byte that starts no line break is copied, if there is room for it. -/
theorem scan_cons {c : UInt8} {u : List UInt8} (linebuf : List UInt8) (out : ℕ)
    (hb : b.drop level = c :: u ++ 0 :: pad)
    (hnot : ¬[CR, LF] <+: c :: u) : scan b (u.length + 1) level linebuf out =
      if out < linebuf.length then
        scan b u.length ((level + 1 : ℕ) : ℤ) (linebuf.set out c) (out + 1)
      else .error .outOfBounds := by
  rw [scan, lineBreakAt_text hb, ok_bind, decide_eq_false hnot]
  simp only [Bool.false_eq_true, if_false]
  rw [load_of_drop hb, ok_bind]
  by_cases hout : out < linebuf.length
  · rw [if_pos hout, store_fits hout, ok_bind]
    rfl
  · rw [if_neg hout, store, memcpy_refused (by rw [List.length_singleton]; omega)]
    rfl

/-- The scan copies the first line, and stops where the line buffer ends before it does. -/
theorem scan_text (hb : b.drop level = text ++ 0 :: pad) (hout : out ≤ linebuf.length) :
    scan b text.length level linebuf out =
      (memcpy linebuf (out : ℤ) (firstLine text).1).map fun d => (nextLevel level text, d) := by
  have hnil : ∀ {linebuf : Buffer} {out : ℕ}, out ≤ linebuf.length →
      memcpy linebuf (out : ℤ) [] = .ok linebuf := by
    intro linebuf out hout
    rw [memcpy_fits (by simpa using hout)]
    simp
  fun_induction firstLine text generalizing level out linebuf with
  | case1 =>
    rw [hnil hout]
    rfl
  | case2 c =>
    have hnone : ¬[CR, LF] <+: [c] := fun h => by simpa using h.length_le
    have hscan := scan_cons linebuf out hb hnone
    rw [List.length_singleton, memcpy_cons]
    rw [List.length_nil] at hscan
    rw [hscan]
    by_cases hlt : out < linebuf.length
    · rw [if_pos hlt, if_pos hlt, hnil (by rw [List.length_set]; omega)]
      rfl
    · rw [if_neg hlt, if_neg hlt]
      rfl
  | case3 c d t hbreak =>
    obtain ⟨rfl, rfl⟩ := hbreak
    have hstop : [CR, LF] <+: CR :: LF :: t := ⟨t, rfl⟩
    rw [List.length_cons, scan, lineBreakAt_text hb, ok_bind, decide_eq_true hstop, hnil hout]
    simp [nextLevel, firstLine, Except.map, pure, Except.pure]
  | case4 c d t hbreak ih =>
    have hgoes : ¬[CR, LF] <+: c :: d :: t := by
      intro h
      obtain ⟨hc, h⟩ := List.cons_prefix_cons.mp h
      exact hbreak ⟨hc.symm, (List.cons_prefix_cons.mp h).1.symm⟩
    have hscan := scan_cons linebuf out hb hgoes
    rw [List.length_cons, hscan, memcpy_cons]
    by_cases hlt : out < linebuf.length
    · have hlen : out + 1 ≤ (linebuf.set out c).length := by
        rw [List.length_set]
        exact hlt
      rw [if_pos hlt, if_pos hlt, ih (drop_next hb) hlen, nextLevel_cons hbreak]
    · rw [if_neg hlt, if_neg hlt]
      rfl

/-- What a turn of the loop reads into the cleared line buffer. -/
theorem readline_text (hb : text.drop level = t) (hlevel : level ≤ text.length) (hzero : 0 ∉ text) :
    readline (text ++ 0 :: pad) level (zeros 256) =
      if (firstLine t).1.length ≤ 256 then
        .ok (nextLevel level t, (firstLine t).1 ++ zeros (256 - (firstLine t).1.length))
      else .error .outOfBounds := by
  have hlen : ((text.length : ℤ) - (level : ℤ)).toNat = t.length := by
    rw [← hb, List.length_drop]
    omega
  have hdrop : (text ++ 0 :: pad).drop level = t ++ 0 :: pad := by
    rw [List.drop_append_of_le_length hlevel, hb]
  have hscan : scan (text ++ 0 :: pad) t.length level (zeros 256) 0 =
      (memcpy (zeros 256) ((0 : ℕ) : ℤ) (firstLine t).1).map fun d => (nextLevel level t, d) :=
    scan_text hdrop (Nat.zero_le _)
  rw [readline, strlen_of_not_mem hzero, ok_bind, hlen, hscan]
  by_cases hfits : (firstLine t).1.length ≤ 256
  · have hroom : 0 + (firstLine t).1.length ≤ (zeros 256).length := by
      rw [length_zeros]
      omega
    rw [if_pos hfits, memcpy_fits hroom, List.take_zero, List.nil_append, drop_zeros, Nat.zero_add]
    rfl
  · rw [if_neg hfits, memcpy_refused (by rw [length_zeros]; omega)]
    rfl

end Lines

section Turns

variable {sha1 : List UInt8 → Vector UInt8 20} {sec_accept pad : Buffer} {text t : List UInt8}
  {level fuel : ℕ}

theorem answerKey_refused {line : List UInt8} {n : ℕ} (hline : 0 ∉ line) (hroom : n < 36) :
    answerKey sha1 sec_accept (line ++ 0 :: zeros n) = .error .outOfBounds := by
  have hcat : strcat (line ++ 0 :: zeros n) GUID = .error .outOfBounds := by
    rw [strcat, cstring_of_not_mem hline, ok_bind]
    apply memcpy_refused
    simp only [List.length_append, List.length_cons, length_zeros, length_GUID, List.length_nil]
    omega
  rw [answerKey, hcat]
  rfl

theorem drop_nextLine {u : List UInt8} (hb : text.drop level = t) (hlevel : level ≤ text.length)
    (h : (firstLine t).2 = some u) :
    text.drop (level + (firstLine t).1.length + 2) = u ∧
      level + (firstLine t).1.length + 2 ≤ text.length := by
  have hlength := congrArg List.length hb
  rw [List.length_drop, length_firstLine h] at hlength
  rw [Nat.add_assoc, ← List.drop_drop, hb]
  exact ⟨drop_firstLine h, by omega⟩

theorem shakeLoop_turn (haccept : sec_accept.length = 32) (hzero : 0 ∉ text)
    (hb : text.drop level = t) (hlevel : level ≤ text.length) :
    shakeLoop sha1 sec_accept (text ++ 0 :: pad) (fuel + 1) level =
      if 255 < (firstLine t).1.length then .error .outOfBounds
      else if keyName <:+: (firstLine t).1 then
        if 219 < (firstLine t).1.length then .error .outOfBounds
        else answered (sha1 (((firstLine t).1 ++ GUID).drop 19)).toList
      else
        match (firstLine t).2 with
        | none => .error .outOfBounds
        | some u =>
          if [CR, LF] <+: u then .ok []
          else shakeLoop sha1 sec_accept (text ++ 0 :: pad) fuel
            ((level + (firstLine t).1.length + 2 : ℕ) : ℤ) := by
  have hline : 0 ∉ (firstLine t).1 := by
    intro h
    have hmem := (firstLine_starts t).subset h
    rw [← hb] at hmem
    exact hzero (List.mem_of_mem_drop hmem)
  rw [shakeLoop, readline_text hb hlevel hzero]
  by_cases hlong : 256 < (firstLine t).1.length
  · rw [if_neg (by omega), if_pos (by omega)]
    rfl
  rw [if_pos (by omega), ok_bind]
  by_cases hfull : 255 < (firstLine t).1.length
  · have hstr : strstr ((firstLine t).1 ++ zeros (256 - (firstLine t).1.length))
        (literal "Sec-WebSocket-Key") = .error .outOfBounds := by
      have hnone : 256 - (firstLine t).1.length = 0 := by omega
      rw [hnone, strstr, cstring, if_neg (by simpa [zeros] using hline)]
      rfl
    rw [if_pos hfull]
    dsimp only
    rw [hstr]
    rfl
  have hroom : 256 - (firstLine t).1.length = (255 - (firstLine t).1.length) + 1 := by omega
  rw [if_neg hfull, hroom, zeros_succ]
  dsimp only
  have hname : literal "Sec-WebSocket-Key" = keyName := rfl
  rw [strstr_append hline, ok_bind, hname]
  by_cases hkey : keyName <:+: (firstLine t).1
  · rw [if_pos hkey, if_pos (decide_eq_true hkey)]
    by_cases hlate : 219 < (firstLine t).1.length
    · rw [if_pos hlate, answerKey_refused hline (by omega)]
      rfl
    · rw [if_neg hlate, answerKey_line sha1 haccept hline (by omega), answered]
      split <;> rfl
  · rw [if_neg hkey, if_neg (by rwa [decide_eq_true_eq])]
    unfold nextLevel
    cases hrest : (firstLine t).2 with
    | none => rfl
    | some u =>
      obtain ⟨hdrop, hle⟩ := drop_nextLine hb hlevel hrest
      have hnext : (text ++ 0 :: pad).drop (level + (firstLine t).1.length + 2) =
          u ++ 0 :: pad := by
        rw [List.drop_append_of_le_length hle, hdrop]
      dsimp only
      rw [lineBreakAt_text hnext, ok_bind]
      by_cases hblank : [CR, LF] <+: u
      · rw [if_pos hblank, decide_eq_true hblank]
        rfl
      · rw [if_neg hblank, decide_eq_false hblank]
        exact if_pos ⟨by simp, by omega⟩

theorem handled_iff (sha1 : List UInt8 → Vector UInt8 20) (t : List UInt8) :
    Handled sha1 t ↔
      (keyName <:+: (firstLine t).1 ∧ (firstLine t).1.length ≤ 219 ∧
        (sha1 (((firstLine t).1 ++ GUID).drop 19)).toList.head? ≠ some 0) ∨
      ¬keyName <:+: (firstLine t).1 ∧ (firstLine t).1.length ≤ 255 ∧
        ∃ u, (firstLine t).2 = some u ∧ ([CR, LF] <+: u ∨ Handled sha1 u) := by
  constructor
  · intro h
    cases h with
    | key hkey hshort hdigest => exact .inl ⟨hkey, hshort, hdigest⟩
    | blank hother hshort hnext hblank => exact .inr ⟨hother, hshort, _, hnext, .inl hblank⟩
    | next hother hshort hnext hrest => exact .inr ⟨hother, hshort, _, hnext, .inr hrest⟩
  · rintro (⟨hkey, hshort, hdigest⟩ | ⟨hother, hshort, u, hnext, hblank | hrest⟩)
    · exact .key hkey hshort hdigest
    · exact .blank hother hshort hnext hblank
    · exact .next hother hshort hnext hrest

theorem seen_eq_nil_iff (digest : Vector UInt8 20) :
    seen digest.toList = [] ↔ digest.toList.head? = some 0 := by
  obtain ⟨c, cs, hcons⟩ := List.exists_cons_of_length_pos
    (l := digest.toList) (by rw [Vector.length_toList]; decide)
  rw [hcons, seen, List.takeWhile_cons]
  by_cases hc : c = 0 <;> simp [hc]

theorem answered_ok_iff (digest : Vector UInt8 20) :
    (∃ writes, answered digest.toList = .ok writes) ↔ digest.toList.head? ≠ some 0 := by
  rw [Ne, ← seen_eq_nil_iff, answered]
  split <;> simp [*]

/-- A run stays inside when the text that is left is handled, and it ends in any case. -/
theorem shakeLoop_ok_iff (haccept : sec_accept.length = 32) (hzero : 0 ∉ text)
    (hb : text.drop level = t) (hlevel : level ≤ text.length) (hfuel : t.length < fuel) :
    ((∃ writes, shakeLoop sha1 sec_accept (text ++ 0 :: pad) fuel level = .ok writes) ↔
        Handled sha1 t) ∧
      shakeLoop sha1 sec_accept (text ++ 0 :: pad) fuel level ≠ .error .noReturn := by
  induction fuel generalizing level t with
  | zero => omega
  | succ fuel ih =>
    rw [shakeLoop_turn haccept hzero hb hlevel, handled_iff]
    by_cases hlong : 255 < (firstLine t).1.length
    · rw [if_pos hlong]
      refine ⟨iff_of_false (by simp) ?_, by simp⟩
      rintro (⟨-, hshort, -⟩ | ⟨-, hshort, -⟩) <;> omega
    rw [if_neg hlong]
    by_cases hkey : keyName <:+: (firstLine t).1
    · rw [if_pos hkey]
      by_cases hlate : 219 < (firstLine t).1.length
      · rw [if_pos hlate]
        refine ⟨iff_of_false (by simp) ?_, by simp⟩
        rintro (⟨-, hshort, -⟩ | ⟨hother, -, -⟩)
        · omega
        · exact hother hkey
      · rw [if_neg hlate, answered_ok_iff]
        refine ⟨⟨fun hd => .inl ⟨hkey, by omega, hd⟩, ?_⟩, ?_⟩
        · rintro (⟨-, -, hdigest⟩ | ⟨hother, -, -⟩)
          · exact hdigest
          · exact absurd hkey hother
        · unfold answered
          split <;> simp
    rw [if_neg hkey]
    cases hrest : (firstLine t).2 with
    | none =>
      refine ⟨iff_of_false (by simp) ?_, by simp⟩
      rintro (⟨h, -, -⟩ | ⟨-, -, u, hnone, -⟩)
      · exact hkey h
      · cases hnone
    | some u =>
      have hlength := length_firstLine hrest
      obtain ⟨hdrop, hle⟩ := drop_nextLine hb hlevel hrest
      obtain ⟨hiff, hends⟩ := ih hdrop hle (by omega)
      have hhandled : (keyName <:+: (firstLine t).1 ∧ (firstLine t).1.length ≤ 219 ∧
          (sha1 (((firstLine t).1 ++ GUID).drop 19)).toList.head? ≠ some 0) ∨
          (¬keyName <:+: (firstLine t).1 ∧ (firstLine t).1.length ≤ 255 ∧
            ∃ v, some u = some v ∧ ([CR, LF] <+: v ∨ Handled sha1 v)) ↔
          [CR, LF] <+: u ∨ Handled sha1 u := by
        constructor
        · rintro (⟨h, -, -⟩ | ⟨-, -, v, hv, h⟩)
          · exact absurd h hkey
          · rwa [Option.some.inj hv]
        · exact fun h => .inr ⟨hkey, by omega, u, rfl, h⟩
      rw [hhandled]
      dsimp only
      by_cases hblank : [CR, LF] <+: u
      · rw [if_pos hblank]
        exact ⟨iff_of_true ⟨[], rfl⟩ (.inl hblank), by simp⟩
      · rw [if_neg hblank, hiff, or_iff_right hblank]
        exact ⟨Iff.rfl, hends⟩

end Turns

variable (sha1 : List UInt8 → Vector UInt8 20) (sec_accept : Vector UInt8 32) (content : List UInt8)

theorem mem_received_iff : 0 ∈ received content ↔ content.length < BUFFER_SIZE ∨ 0 ∈ content := by
  have hzeros : 0 ∈ zeros (BUFFER_SIZE - content.length) ↔ content.length < BUFFER_SIZE := by
    rw [zeros, List.mem_replicate, and_iff_left rfl]
    omega
  rw [received, List.mem_append, hzeros, or_comm]

theorem zero_notMem_requestText : 0 ∉ requestText content := by
  intro h
  simpa using List.mem_takeWhile_imp h

/-- A buffer with a zero byte is its text, the zero and whatever is behind it. -/
theorem exists_received (h : content.length < BUFFER_SIZE ∨ 0 ∈ content) :
    ∃ pad, received content = requestText content ++ 0 :: pad := by
  by_cases hzero : 0 ∈ content
  · have hne : content.dropWhile (· ≠ 0) ≠ [] := by
      intro hnil
      have hall := List.dropWhile_eq_nil_iff.mp hnil 0 hzero
      simp at hall
    obtain ⟨c, cs, hcons⟩ := List.exists_cons_of_ne_nil hne
    have hc : c = 0 := by
      have hhead := List.head_dropWhile_not (fun c : UInt8 => decide (c ≠ 0)) hne
      rw [decide_eq_false_iff_not, not_not] at hhead
      rw [← hhead]
      simp only [hcons, List.head_cons]
    refine ⟨cs ++ zeros (BUFFER_SIZE - content.length), ?_⟩
    have hsplit : content = requestText content ++ 0 :: cs := by
      rw [← hc, ← hcons]
      exact List.takeWhile_append_dropWhile.symm
    rw [received, ← List.cons_append, ← List.append_assoc, ← hsplit]
  · have hlt := h.resolve_right hzero
    have hone : BUFFER_SIZE - content.length = (BUFFER_SIZE - content.length - 1) + 1 := by omega
    refine ⟨zeros (BUFFER_SIZE - content.length - 1), ?_⟩
    rw [received, requestText, takeWhile_eq_self hzero]
    conv_lhs => rw [hone, zeros_succ]

theorem shakehands_unterminated (h : 0 ∉ received content) :
    shakehands sha1 sec_accept.toList (received content) = .error .outOfBounds := by
  have hlen : strlen (received content) = .error .outOfBounds := by
    rw [strlen, cstring, if_neg h]
    rfl
  rw [shakehands, shakeLoop, readline, hlen]
  rfl

theorem shakehands_spec (h : content.length < BUFFER_SIZE ∨ 0 ∈ content) :
    (StaysInside sha1 sec_accept content ↔ Handled sha1 (requestText content)) ∧
      shakehands sha1 sec_accept.toList (received content) ≠ .error .noReturn := by
  obtain ⟨pad, hpad⟩ := exists_received content h
  have hfuel : (requestText content).length < (received content).length + 1 := by
    rw [hpad, List.length_append]
    omega
  rw [StaysInside, shakehands, hpad] at *
  exact shakeLoop_ok_iff sec_accept.length_toList (zero_notMem_requestText content) rfl
    (Nat.zero_le _) hfuel

/-- The loop ends, or an access before its end is out of bounds. -/
theorem shakehands_ends :
    shakehands sha1 sec_accept.toList (received content) ≠ .error .noReturn := by
  by_cases h : content.length < BUFFER_SIZE ∨ 0 ∈ content
  · exact (shakehands_spec sha1 sec_accept content h).2
  · rw [shakehands_unterminated sha1 sec_accept content (by rwa [mem_received_iff])]
    simp

/-- The parser stays inside its arrays exactly when the bytes read have a zero behind them and
are a request that it can handle. -/
theorem staysInside_iff :
    StaysInside sha1 sec_accept content ↔
      (content.length < BUFFER_SIZE ∨ 0 ∈ content) ∧ Handled sha1 (requestText content) := by
  by_cases hzero : content.length < BUFFER_SIZE ∨ 0 ∈ content
  · rw [(shakehands_spec sha1 sec_accept content hzero).1, and_iff_right hzero]
  · refine iff_of_false ?_ fun hh => hzero hh.1
    rintro ⟨writes, hw⟩
    rw [shakehands_unterminated sha1 sec_accept content (by rwa [mem_received_iff])] at hw
    cases hw

/-- The request of a client that goes away at once: the loop looks at `buffer[-1]`. -/
theorem empty_request_escapes : ¬∀ content : List UInt8, content.length ≤ BUFFER_SIZE →
    StaysInside (fun _ => digestOfTwos) (Vector.replicate 32 0) content := by
  intro h
  obtain ⟨writes, hw⟩ := h [] (Nat.zero_le _)
  have hout : shakehands (fun _ => digestOfTwos) (Vector.replicate 32 0).toList (received []) =
      .error .outOfBounds := by decide +kernel
  rw [hout] at hw
  cases hw

end HandshakeSafety
