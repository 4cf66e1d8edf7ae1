import AndroidDebug.JavaText
import Mathlib.Data.List.TakeWhile

/-! The tokens of an SQL text, as SQLite reads it. Only words matter here: everything that is
not a name or a keyword is some other token. A hexadecimal number ends with its last digit, as
before SQLite 3.46. -/
namespace SqlTokens

open JavaText

def apostrophe : UInt16 := 0x27
def minus : UInt16 := 0x2D
def asterisk : UInt16 := 0x2A
def newline : UInt16 := 0x0A
def closingBracket : UInt16 := 0x5D
def dot : UInt16 := 0x2E
def colon : UInt16 := 0x3A
def openingParenthesis : UInt16 := 0x28
def closingParenthesis : UInt16 := 0x29

def isDigit (u : UInt16) : Bool := decide (0x30 ≤ u.toNat ∧ u.toNat ≤ 0x39)

def isHexDigit (u : UInt16) : Bool :=
  isDigit u || decide (0x41 ≤ u.toNat ∧ u.toNat ≤ 0x46 ∨ 0x61 ≤ u.toNat ∧ u.toNat ≤ 0x66)

def isSpace (u : UInt16) : Bool := decide (u.toNat = 0x20 ∨ 9 ≤ u.toNat ∧ u.toNat ≤ 13)

/-- A letter, an underscore or anything outside ASCII. -/
def isIdStart (u : UInt16) : Bool :=
  decide (0x41 ≤ u.toNat ∧ u.toNat ≤ 0x5A ∨ 0x61 ≤ u.toNat ∧ u.toNat ≤ 0x7A ∨ u.toNat = 0x5F ∨
    0x80 ≤ u.toNat)

/-- Digits and the dollar sign may follow. -/
def isIdChar (u : UInt16) : Bool := isIdStart u || isDigit u || u == 0x24

inductive Kind where
  | word
  | other
  deriving DecidableEq, Repr

structure Token where
  kind : Kind
  text : JString
  deriving DecidableEq, Repr

/-- A text up to and with the first unit `q`; two quotes in a row end one literal and begin
another. -/
def upTo (q : UInt16) (s : JString) : JString := s.takeWhile (· ≠ q) ++ (s.dropWhile (· ≠ q)).take 1

def upToCommentEnd : JString → JString
  | [] => []
  | u :: rest =>
    if u = asterisk ∧ rest.head? = some slash then [asterisk, slash]
    else u :: upToCommentEnd rest

/-- What `f` reads at the front of a text, and what `g` reads after that. -/
def followed (f g : JString → JString) (s : JString) : JString := f s ++ g (s.drop (f s).length)

def fraction (s : JString) : JString :=
  if s.head? = some dot then dot :: s.tail.takeWhile isDigit else []

def exponent : JString → JString
  | e :: sign :: rest =>
    if (e = 0x65 ∨ e = 0x45) ∧
        (isDigit sign ∨ (sign = 0x2B ∨ sign = minus) ∧ rest.head?.any isDigit) then
      e :: sign :: rest.takeWhile isDigit
    else []
  | _ => []

/-- Letters that follow belong to the number, which is then an illegal one. -/
def decimal : JString → JString :=
  followed (List.takeWhile isDigit) (followed fraction (followed exponent
    (List.takeWhile isIdChar)))

def number : JString → JString
  | zero :: x :: rest =>
    if zero = 0x30 ∧ (x = 0x78 ∨ x = 0x58) ∧ rest.head?.any isHexDigit then
      zero :: x :: rest.takeWhile isHexDigit
    else decimal (zero :: x :: rest)
  | s => decimal s

/-- After `$`, `@`, `#` or a colon: a name, in which two colons in a row may stand, and what is in
parentheses behind it. The flag tells whether there is a name yet. -/
def variableName : Bool → JString → JString
  | _, [] => []
  | named, u :: rest =>
    if isIdChar u then u :: variableName true rest
    else if u = openingParenthesis ∧ named then
      u :: followed (List.takeWhile fun v => !isSpace v && v ≠ closingParenthesis)
        (fun s => if s.head? = some closingParenthesis then [closingParenthesis] else []) rest
    else
      match rest with
      | v :: rest => if u = colon ∧ v = colon then u :: v :: variableName named rest else []
      | [] => []

/-- The kind of the token that begins with `u`, and its text after `u`. -/
def firstToken (u : UInt16) (rest : JString) : Kind × JString :=
  if u = apostrophe ∨ u = 0x22 ∨ u = 0x60 then (.other, upTo u rest)
  else if u = 0x5B then (.other, upTo closingBracket rest)
  else if u = minus ∧ rest.head? = some minus then (.other, rest.takeWhile (· ≠ newline))
  else if u = slash ∧ rest.head? = some asterisk then
    (.other, asterisk :: upToCommentEnd rest.tail)
  else if (u = 0x78 ∨ u = 0x58) ∧ rest.head? = some apostrophe then
    (.other, apostrophe :: upTo apostrophe rest.tail)
  else if isIdStart u then (.word, rest.takeWhile isIdChar)
  else if isDigit u ∨ u = dot ∧ rest.head?.any isDigit then (.other, (number (u :: rest)).tail)
  else if u = 0x3F then (.other, rest.takeWhile isDigit)
  else if u = 0x24 ∨ u = 0x40 ∨ u = 0x23 ∨ u = colon then (.other, variableName false rest)
  else (.other, [])

/-- `n` bounds the number of tokens. -/
def tokensWithin : ℕ → JString → List Token
  | 0, _ => []
  | _, [] => []
  | n + 1, u :: rest =>
    let first := firstToken u rest
    ⟨first.1, u :: first.2⟩ :: tokensWithin n (rest.drop first.2.length)

def tokens (s : JString) : List Token := tokensWithin s.length s

theorem upTo_within (q : UInt16) (s : JString) : upTo q s <+: s := by
  refine ⟨(s.dropWhile (· ≠ q)).drop 1, ?_⟩
  rw [upTo, List.append_assoc, List.take_append_drop, List.takeWhile_append_dropWhile]

theorem upTo_of_notMem {q : UInt16} {s : JString} (h : q ∉ s) : upTo q s = s := by
  have hall : ∀ u ∈ s, decide (u ≠ q) = true := fun u hu => by
    rw [decide_eq_true_eq]
    rintro rfl
    exact h hu
  rw [upTo, List.takeWhile_eq_self_iff.mpr hall, List.dropWhile_eq_nil_iff.mpr hall]
  exact List.append_nil s

theorem upTo_append {q : UInt16} {a : JString} (h : q ∉ a) (b : JString) :
    upTo q (a ++ q :: b) = a ++ [q] := by
  have hall : ∀ u ∈ a, decide (u ≠ q) = true := fun u hu => by
    rw [decide_eq_true_eq]
    rintro rfl
    exact h hu
  rw [upTo, List.takeWhile_append_of_pos hall, List.dropWhile_append_of_pos hall]
  simp

theorem upToCommentEnd_within (s : JString) : upToCommentEnd s <+: s := by
  induction s with
  | nil => exact List.prefix_refl _
  | cons u s ih =>
    rw [upToCommentEnd]
    split
    · rename_i h
      obtain ⟨v, rest, rfl⟩ : ∃ v rest, s = v :: rest := by
        cases s with
        | nil => simp at h
        | cons v rest => exact ⟨v, rest, rfl⟩
      obtain ⟨rfl, hv⟩ := h
      obtain rfl : v = slash := by simpa using hv
      exact ⟨rest, rfl⟩
    · exact List.cons_prefix_cons.mpr ⟨rfl, ih⟩

theorem cons_tail_within {v : UInt16} {rest text : JString} (hv : rest.head? = some v)
    (h : text <+: rest.tail) : v :: text <+: rest := by
  obtain ⟨rest', rfl⟩ := List.head?_eq_some_iff.mp hv
  exact List.cons_prefix_cons.mpr ⟨rfl, h⟩

theorem tail_within {u : UInt16} {text rest : JString} (h : text <+: u :: rest) :
    text.tail <+: rest := by
  cases text with
  | nil => exact List.nil_prefix
  | cons v text => exact (List.cons_prefix_cons.mp h).2

theorem followed_within {f g : JString → JString} (hf : ∀ s, f s <+: s) (hg : ∀ s, g s <+: s)
    (s : JString) : followed f g s <+: s := by
  have h := List.prefix_append_right_inj (f s) |>.mpr (hg (s.drop (f s).length))
  rwa [List.prefix_iff_eq_append.mp (hf s)] at h

theorem fraction_within (s : JString) : fraction s <+: s := by
  rw [fraction]
  split
  · exact cons_tail_within ‹_› (List.takeWhile_prefix _)
  · exact List.nil_prefix

theorem exponent_within (s : JString) : exponent s <+: s := by
  unfold exponent
  split
  · split
    · exact List.cons_prefix_cons.mpr
        ⟨rfl, List.cons_prefix_cons.mpr ⟨rfl, List.takeWhile_prefix _⟩⟩
    · exact List.nil_prefix
  · exact List.nil_prefix

theorem decimal_within (s : JString) : decimal s <+: s :=
  followed_within (fun _ => List.takeWhile_prefix _) (followed_within fraction_within
    (followed_within exponent_within fun _ => List.takeWhile_prefix _)) s

theorem number_within (s : JString) : number s <+: s := by
  unfold number
  split
  · split
    · exact List.cons_prefix_cons.mpr
        ⟨rfl, List.cons_prefix_cons.mpr ⟨rfl, List.takeWhile_prefix _⟩⟩
    · exact decimal_within _
  · exact decimal_within _

theorem variableName_within (named : Bool) (s : JString) : variableName named s <+: s := by
  fun_induction variableName named s with
  | case1 => exact List.nil_prefix
  | case2 named u rest hu ih => exact List.cons_prefix_cons.mpr ⟨rfl, ih⟩
  | case3 named u rest hu hopen =>
    refine List.cons_prefix_cons.mpr ⟨rfl, followed_within (fun _ => List.takeWhile_prefix _)
      (fun s => ?_) rest⟩
    split
    · exact cons_tail_within ‹_› List.nil_prefix
    · exact List.nil_prefix
  | case4 named u v rest hu hopen hcolons ih =>
    exact List.cons_prefix_cons.mpr ⟨rfl, List.cons_prefix_cons.mpr ⟨rfl, ih⟩⟩
  | case5 => exact List.nil_prefix
  | case6 => exact List.nil_prefix

theorem firstToken_within (u : UInt16) (rest : JString) : (firstToken u rest).2 <+: rest := by
  unfold firstToken
  split_ifs with h1 h2 h3 h4 h5 h6 h7 h8 h9
  · exact upTo_within _ _
  · exact upTo_within _ _
  · exact List.takeWhile_prefix _
  · exact cons_tail_within h4.2 (upToCommentEnd_within _)
  · exact cons_tail_within h5.2 (upTo_within _ _)
  · exact List.takeWhile_prefix _
  · exact tail_within (number_within (u :: rest))
  · exact List.takeWhile_prefix _
  · exact variableName_within _ _
  · exact List.nil_prefix

theorem firstToken_append (u : UInt16) (rest : JString) :
    (firstToken u rest).2 ++ rest.drop (firstToken u rest).2.length = rest :=
  List.prefix_iff_eq_append.mp (firstToken_within u rest)

/-- More room than the text is long makes no difference. -/
theorem tokensWithin_eq {k : ℕ} {s : JString} (h : s.length ≤ k) : tokensWithin k s = tokens s := by
  induction k using Nat.strongRecOn generalizing s with
  | _ k ih =>
    rcases Nat.eq_or_lt_of_le h with rfl | hlt
    · rfl
    · cases s with
      | nil => cases k <;> rfl
      | cons u rest =>
        obtain ⟨k, rfl⟩ : ∃ j, k = j + 1 := ⟨k - 1, by omega⟩
        have hrest : (rest.drop (firstToken u rest).2.length).length ≤ rest.length := by
          rw [List.length_drop]
          omega
        rw [List.length_cons] at hlt h
        rw [tokens, List.length_cons, tokensWithin, tokensWithin, ih k (by omega) (by omega),
          ih rest.length (by omega) hrest]

theorem tokens_cons (u : UInt16) (rest : JString) :
    tokens (u :: rest) = ⟨(firstToken u rest).1, u :: (firstToken u rest).2⟩ ::
      tokens (rest.drop (firstToken u rest).2.length) := by
  have hrest : (rest.drop (firstToken u rest).2.length).length ≤ rest.length := by
    rw [List.length_drop]
    omega
  rw [tokens, List.length_cons, tokensWithin, tokensWithin_eq hrest]

theorem flatMap_tokensWithin {n : ℕ} {s : JString} (h : s.length ≤ n) :
    (tokensWithin n s).flatMap Token.text = s := by
  induction n generalizing s with
  | zero =>
    obtain rfl := List.eq_nil_of_length_eq_zero (Nat.le_zero.mp h)
    rfl
  | succ n ih =>
    cases s with
    | nil => rfl
    | cons u rest =>
      have hlength : (rest.drop (firstToken u rest).2.length).length ≤ n := by
        rw [List.length_cons] at h
        rw [List.length_drop]
        omega
      simp only [tokensWithin, List.flatMap_cons, ih hlength, List.cons_append, firstToken_append]

theorem flatMap_tokens (s : JString) : (tokens s).flatMap Token.text = s :=
  flatMap_tokensWithin (le_refl _)

example : tokens (ofString "1.e3+$x(log)") =
    [⟨.other, ofString "1.e3"⟩, ⟨.other, ofString "+"⟩, ⟨.other, ofString "$x(log)"⟩] := by
  decide +kernel

theorem firstToken_word {u : UInt16} {rest : JString} (h : (firstToken u rest).1 = .word) :
    isIdStart u = true ∧ (firstToken u rest).2 = rest.takeWhile isIdChar := by
  unfold firstToken at h ⊢
  split_ifs at h ⊢ with h1 h2 h3 h4 h5 h6
  exact ⟨h6, rfl⟩

/-- What a word of a token list consists of, and what comes after it. -/
structure IsWord (w after : JString) : Prop where
  start : ∃ u rest, w = u :: rest ∧ isIdStart u = true
  chars : ∀ u ∈ w, isIdChar u = true
  ends : ∀ u ∈ after.head?, isIdChar u = false

theorem isWord_of_tokensWithin {n : ℕ} {s w : JString} (h : s.length ≤ n)
    {toks₁ toks₂ : List Token} (heq : tokensWithin n s = toks₁ ++ ⟨.word, w⟩ :: toks₂) :
    IsWord w (toks₂.flatMap Token.text) := by
  induction n generalizing s toks₁ with
  | zero => simp [tokensWithin] at heq
  | succ n ih =>
    cases s with
    | nil => simp [tokensWithin] at heq
    | cons u rest =>
      have hlength : (rest.drop (firstToken u rest).2.length).length ≤ n := by
        rw [List.length_cons] at h
        rw [List.length_drop]
        omega
      rw [tokensWithin] at heq
      cases toks₁ with
      | nil =>
        obtain ⟨hfirst, hlater⟩ := List.cons.inj heq
        obtain ⟨hkind, hw⟩ := Token.mk.inj hfirst
        obtain ⟨hstart, htext⟩ := firstToken_word hkind
        rw [← hlater, flatMap_tokensWithin hlength, ← hw, htext]
        refine ⟨⟨u, _, rfl, hstart⟩, ?_, ?_⟩
        · intro v hv
          rcases List.mem_cons.mp hv with rfl | hv
          · simp [isIdChar, hstart]
          · exact List.mem_takeWhile_imp hv
        · have hdrop : rest.drop (rest.takeWhile isIdChar).length = rest.dropWhile isIdChar := by
            have hjoin := List.prefix_iff_eq_append.mp (@List.takeWhile_prefix _ rest isIdChar)
            have hwhole := (@List.takeWhile_append_dropWhile _ isIdChar rest).symm
            exact List.append_cancel_left (hjoin.trans hwhole)
          rw [hdrop]
          intro v hv
          have hhead := List.head?_dropWhile_not isIdChar rest
          rw [hv] at hhead
          exact hhead
      | cons tok toks₁ =>
        exact ih hlength (List.cons.inj heq).2

end SqlTokens
