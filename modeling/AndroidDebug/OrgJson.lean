import AndroidDebug.JavaText

/-! The lenient parser of org.json, up to the strings of an array. The printed form of doubles
and of nested values is left open. -/
namespace OrgJson

open JavaText

def unit (c : Char) : UInt16 := UInt16.ofNat c.toNat

inductive Token where
  | mark (u : UInt16)
  | quoted (s : JString)
  | literal (w : JString)
  | bad
  deriving DecidableEq, Repr

/-- What the scanner is in the middle of; texts that are being read are reversed. -/
inductive Mode where
  | between
  | literal (read : JString)
  | quoted (quote : UInt16) (read : JString)
  | escape (quote : UInt16) (read : JString)
  | hex (quote : UInt16) (read : JString) (digits : List ℕ)
  | slash
  | line
  | block (star : Bool)
  | arrow
  deriving DecidableEq, Repr

def blanks : List UInt16 := [unit '\t', unit ' ', unit '\n', unit '\r']

def quotes : List UInt16 := [unit '"', unit '\'']

/-- A literal ends before any of these. -/
def ends : List UInt16 :=
  [unit '\x7b', unit '\x7d', unit '[', unit ']', unit '/', unit '\\', unit ':', unit ',',
    unit '=', unit ';', unit '#', unit ' ', unit '\t', 0x0C, unit '\r', unit '\n']

/-- The token that a unit between tokens stands for, and what it begins. -/
def start (u : UInt16) : List Token × Mode :=
  if u ∈ blanks then ([], .between)
  else if u = unit '/' then ([], .slash)
  else if u = unit '#' then ([], .line)
  else if u ∈ quotes then ([], .quoted u [])
  else if u = unit ':' ∨ u = unit '=' then ([.mark u], .arrow)
  else if u = unit '\\' ∨ u = 0x0C then ([.bad], .between)
  else if u ∈ ends then ([.mark u], .between)
  else ([], .literal [u])

def digitIn (radix u : ℕ) : Option ℕ :=
  let letter := [0x41, 0x61, 0xFF21, 0xFF41].find? fun z => decide (z ≤ u ∧ u < z + 26)
  ((digit u).or (letter.map fun z => u - z + 10)).filter (· < radix)

def escaped (u : UInt16) : UInt16 :=
  if u = unit 't' then 0x09
  else if u = unit 'b' then 0x08
  else if u = unit 'n' then 0x0A
  else if u = unit 'r' then 0x0D
  else if u = unit 'f' then 0x0C
  else u

def scan : Mode → JString → List Token
  | .literal w, [] => [.literal w.reverse]
  | .quoted _ _, [] | .escape _ _, [] | .hex _ _ _, [] | .slash, [] | .block _, [] => [.bad]
  | .between, [] | .line, [] | .arrow, [] => []
  | .between, u :: rest => (start u).1 ++ scan (start u).2 rest
  | .literal w, u :: rest =>
    if u ∈ ends then .literal w.reverse :: ((start u).1 ++ scan (start u).2 rest)
    else scan (.literal (u :: w)) rest
  | .quoted quote read, u :: rest =>
    if u = quote then .quoted read.reverse :: scan .between rest
    else if u = unit '\\' then scan (.escape quote read) rest
    else scan (.quoted quote (u :: read)) rest
  | .escape quote read, u :: rest =>
    if u = unit 'u' then scan (.hex quote read []) rest
    else scan (.quoted quote (escaped u :: read)) rest
  | .hex quote read digits, u :: rest =>
    match digitIn 16 u.toNat, digits with
    | none, _ => [.bad]
    | some d, [a, b, c] =>
      scan (.quoted quote (UInt16.ofNat (((a * 16 + b) * 16 + c) * 16 + d) :: read)) rest
    | some d, digits => scan (.hex quote read (digits ++ [d])) rest
  | .slash, u :: rest =>
    if u = unit '*' then scan (.block false) rest
    else if u = unit '/' then scan .line rest
    else [.bad]
  | .line, u :: rest =>
    if u = unit '\r' ∨ u = unit '\n' then scan .between rest else scan .line rest
  | .block star, u :: rest =>
    if star ∧ u = unit '/' then scan .between rest
    else scan (.block (u = unit '*')) rest
  | .arrow, u :: rest =>
    if u = unit '>' then scan .between rest else (start u).1 ++ scan (start u).2 rest

/-- `absent` is the gap between two separators; `null` is the literal. -/
inductive Value where
  | absent
  | null
  | boolean (b : Bool)
  | integer (n : ℤ)
  | double (literal : JString)
  | string (s : JString)
  | array (items : List Value)
  | object (entries : List (JString × Value))

/-- `Double.valueOf` and the text of its result, whether it is a finite number, and the text of
nested values, where there is one. -/
structure Printer where
  doubleText : JString → Option JString
  isFinite : JString → Bool
  nestedText : Value → Option JString

def naturalIn (radix : ℕ) : ℕ → List ℕ → Option ℕ
  | acc, [] => some acc
  | acc, u :: us => do
    let d ← digitIn radix u
    naturalIn radix (acc * radix + d) us

/-- `Long.parseLong` with a radix. -/
def parseLongIn (radix : ℕ) (us : List ℕ) : Option ℤ :=
  match us with
  | [] => none
  | u :: rest =>
    if (u = 0x2D ∨ u = 0x2B) ∧ rest = [] then none
    else if u = 0x2D then do
      let n ← naturalIn radix 0 rest
      inRange (-2 ^ 63) (2 ^ 63 - 1) (-(n : ℤ))
    else do
      let n ← naturalIn radix 0 (if u = 0x2B then rest else us)
      inRange (-2 ^ 63) (2 ^ 63 - 1) n

def integral (w : JString) : Option ℤ :=
  let us := w.map UInt16.toNat
  if unit '.' ∈ w then none
  else if us.take 2 = [0x30, 0x78] ∨ us.take 2 = [0x30, 0x58] then parseLongIn 16 (us.drop 2)
  else if us.take 1 = [0x30] ∧ us.length > 1 then parseLongIn 8 (us.drop 1)
  else parseLongIn 10 us

variable (p : Printer)

def readLiteral (w : JString) : Value :=
  if equalsIgnoreCase (ofString "null") w then .null
  else if equalsIgnoreCase (ofString "true") w then .boolean true
  else if equalsIgnoreCase (ofString "false") w then .boolean false
  else
    match integral w with
    | some n => .integer n
    | none => if (p.doubleText w).isSome then .double w else .string w

/-- Where the parser stands in an array or object that is not finished. -/
inductive Place where
  | item (done : List Value) (trailing : Bool)
  | next (done : List Value)
  | first
  | name (done : List (JString × Value))
  | colon (done : List (JString × Value)) (name : JString)
  | value (done : List (JString × Value)) (name : JString)
  | comma (done : List (JString × Value))

/-- A later entry replaces an earlier one of the same name in its place. -/
def putEntry (entries : List (JString × Value)) (name : JString) (v : Value) :
    List (JString × Value) :=
  if name ∈ entries.map Prod.fst then
    entries.map fun e => if e.1 = name then (name, v) else e
  else entries ++ [(name, v)]

def isStorable : Value → Bool
  | .double w => p.isFinite w
  | _ => true

/-- A value is complete: it is the result, or the value around it goes on. -/
def give (v : Value) : List Place → Option (Value ⊕ List Place)
  | [] => some (.inl v)
  | .item done _ :: around => some (.inr (.next (done ++ [v]) :: around))
  | .first :: around => named v [] around
  | .name done :: around => named v done around
  | .value done name :: around =>
    if isStorable p v then some (.inr (.comma (putEntry done name v) :: around)) else none
  | _ => none
where
  named (v : Value) (done : List (JString × Value)) (around : List Place) :=
    match v with
    | .string s => some (.inr (.colon done s :: around))
    | _ => none

def step (stack : List Place) : Token → Option (Value ⊕ List Place)
  | .quoted s => give p (.string s) stack
  | .literal w => give p (readLiteral p w) stack
  | .bad => none
  | .mark u =>
    if u = unit '[' then some (.inr (.item [] false :: stack))
    else if u = unit '\x7b' then some (.inr (.first :: stack))
    else if u = unit ']' then
      match stack with
      | .item done trailing :: around =>
        give p (.array (if trailing then done ++ [.absent] else done)) around
      | .next done :: around => give p (.array done) around
      | _ => none
    else if u = unit '\x7d' then
      match stack with
      | .first :: around => give p (.object []) around
      | .comma done :: around => give p (.object done) around
      | _ => none
    else if u = unit ',' ∨ u = unit ';' then
      match stack with
      | .item done _ :: around => some (.inr (.item (done ++ [.absent]) true :: around))
      | .next done :: around => some (.inr (.item done true :: around))
      | .comma done :: around => some (.inr (.name done :: around))
      | _ => none
    else
      match stack with
      | .colon done name :: around => some (.inr (.value done name :: around))
      | _ => none

/-- `none` is a JSONException. What follows the value is not read. -/
def run : List Place → List Token → Option Value
  | _, [] => none
  | stack, t :: ts =>
    match step p stack t with
    | none => none
    | some (.inl v) => some v
    | some (.inr stack) => run stack ts

/-- The text that getString gives for an item. -/
def text : Value → Option JString
  | .absent => none
  | .null => some (ofString "null")
  | .boolean b => some (ofString (if b then "true" else "false"))
  | .integer n => some (ofString (toString n))
  | .double w => p.doubleText w
  | .string s => some s
  | v => p.nestedText v

/-- The strings of `new JSONArray(s)`, read one by one with getString. -/
def strings (s : JString) : Option (List JString) :=
  match run p [] (scan .between s) with
  | some (.array items) => items.mapM (text p)
  | _ => none

/-! Arrays of plain words. -/

/-- A text that needs no quotes, and that getString gives back as it is. -/
structure IsWord (w : JString) : Prop where
  nonempty : w ≠ []
  unmarked : ∀ u ∈ w, u ∉ ends
  unquoted : ∀ u ∈ w.head?, u ∉ quotes
  itself : text p (readLiteral p w) = some w

def listed : List JString → JString
  | [] => []
  | [s] => s
  | s :: t :: rest => s ++ unit ',' :: unit ' ' :: listed (t :: rest)

variable {p}

theorem start_word {u : UInt16} (hends : u ∉ ends) (hquotes : u ∉ quotes) :
    start u = ([], .literal [u]) := by
  have hblanks : u ∉ blanks := fun h => hends (by
    revert h
    simp only [blanks, ends, List.mem_cons, List.not_mem_nil]
    tauto)
  have hne : ∀ v ∈ ends, u ≠ v := fun v hv huv => hends (huv ▸ hv)
  rw [start, if_neg hblanks, if_neg (hne _ (by decide)), if_neg (hne _ (by decide)),
    if_neg hquotes, if_neg (not_or.mpr ⟨hne _ (by decide), hne _ (by decide)⟩),
    if_neg (not_or.mpr ⟨hne _ (by decide), hne _ (by decide)⟩), if_neg hends]

theorem scan_literal {w : JString} (hw : ∀ u ∈ w, u ∉ ends) {v : UInt16} (hv : v ∈ ends)
    (read rest : JString) :
    scan (.literal read) (w ++ v :: rest) =
      .literal (read.reverse ++ w) :: ((start v).1 ++ scan (start v).2 rest) := by
  induction w generalizing read with
  | nil => rw [List.nil_append, scan, if_pos hv, List.append_nil]
  | cons u w ih =>
    have hu : u ∉ ends := hw u (List.mem_cons_self ..)
    rw [List.cons_append, scan, if_neg hu, ih fun x hx => hw x (List.mem_cons_of_mem u hx)]
    simp

theorem IsWord.scan_eq {w : JString} (h : IsWord p w) {v : UInt16} (hv : v ∈ ends)
    (rest : JString) :
    scan .between (w ++ v :: rest) = .literal w :: ((start v).1 ++ scan (start v).2 rest) := by
  obtain ⟨u, w, rfl⟩ := List.exists_cons_of_ne_nil h.nonempty
  rw [List.cons_append, scan, start_word (h.unmarked u (List.mem_cons_self ..))
    (h.unquoted u rfl), List.nil_append,
    scan_literal (fun x hx => h.unmarked x (List.mem_cons_of_mem u hx)) hv]
  rfl

theorem run_words {w : JString} {ws : List JString} (h : ∀ x ∈ w :: ws, IsWord p x)
    (done : List Value) (trailing : Bool) :
    run p [.item done trailing] (scan .between (listed (w :: ws) ++ [unit ']'])) =
      some (.array (done ++ (w :: ws).map (readLiteral p))) := by
  induction ws generalizing w done trailing with
  | nil =>
    rw [listed, (h w (List.mem_cons_self ..)).scan_eq (by decide)]
    rfl
  | cons v ws ih =>
    have hrest : ∀ x ∈ v :: ws, IsWord p x := fun x hx => h x (List.mem_cons_of_mem w hx)
    rw [listed, List.append_assoc, List.cons_append, List.cons_append,
      (h w (List.mem_cons_self ..)).scan_eq (by decide)]
    show run p [.item (done ++ [readLiteral p w]) true]
      (scan .between (listed (v :: ws) ++ [unit ']'])) = _
    rw [ih hrest, List.append_assoc]
    rfl

theorem mapM_text {ws : List JString} (h : ∀ w ∈ ws, IsWord p w) :
    (ws.map (readLiteral p)).mapM (text p) = some ws := by
  induction ws with
  | nil => rfl
  | cons w ws ih =>
    rw [List.map_cons, List.mapM_cons, (h w (List.mem_cons_self ..)).itself,
      ih fun x hx => h x (List.mem_cons_of_mem w hx)]
    rfl

/-- An array of words is read as these words. -/
theorem strings_words {ws : List JString} (h : ∀ w ∈ ws, IsWord p w) :
    strings p (unit '[' :: (listed ws ++ [unit ']'])) = some ws := by
  have hopen : run p [] (scan .between (unit '[' :: (listed ws ++ [unit ']']))) =
      run p [.item [] false] (scan .between (listed ws ++ [unit ']'])) := rfl
  rw [strings, hopen]
  cases ws with
  | nil => rfl
  | cons w ws =>
    rw [run_words h]
    exact mapM_text h

end OrgJson
