import AndroidDebug.DatabaseHelper
import Mathlib.Algebra.Group.Nat.Defs

/-! The dialogs in which a row of a table is edited or deleted on the page: the HTML they write for
it, and what is sent for the inputs that the browser makes of that. -/
namespace RowForm

open JavaText DatabaseHelper

section Cells

/-- The double that JSON.parse makes of an integer, ties to even. -/
def nearestDouble (n : ℕ) : ℕ :=
  if n < 2 ^ 53 then n
  else
    let unit := 2 ^ (n.log2 - 52)
    let low := n / unit
    let rest := n % unit
    (if unit < 2 * rest ∨ unit = 2 * rest ∧ low % 2 = 1 then low + 1 else low) * unit

/-- The integer that `Number.toString` writes: as many zeros at its end as the double allows. -/
def shortest (d : ℕ) : ℕ :=
  let candidates k :=
    let low := d / 10 ^ k * 10 ^ k
    let high := low + 10 ^ k
    if high - d < d - low then [high, low] else [low, high]
  (((List.range 20).reverse.flatMap candidates).find? fun m => nearestDouble m = d).getD d

def numberText (text : String) : String :=
  match longValueOf text with
  | none => text
  | some n =>
    if n.toInt.natAbs < 2 ^ 53 then text
    else (if n.toInt < 0 then "-" else "") ++ toString (shortest (nearestDouble n.toInt.natAbs))

example : numberText "123456789012345678" = "123456789012345680" := by decide +kernel

/-- An input of the dialog's form, with what `val()` gives for it. -/
structure Input where
  type : Option String
  dataType : Option String
  value : String
  checked : Bool
  deriving DecidableEq, Repr

/-- The browser and SQLite: the text of a double from its JSON text; the inputs that the HTML of a
dialog becomes, and what one of a type holds after a text is typed into it; which statements
compile, with each unquoted name in them read as that column; and which rows the table's
constraints allow, besides that of its key. -/
structure Surroundings extends Platform where
  realText : String → String
  inputs : List Char → List Input
  enter : Option String → String → String
  compiles : Statement → Bool
  allows : List Row → Bool

variable (w : Surroundings)

def cellText (cell : ColumnData) : String :=
  match cell.value with
  | none => NULL
  | some value =>
    if cell.dataType = DataType.INTEGER then numberText value
    else if cell.dataType = DataType.REAL then w.realText value
    else value

def inputType (dataType : String) : String :=
  if dataType ∈ [DataType.INTEGER, DataType.REAL, DataType.LONG, DataType.FLOAT] then "number"
  else if dataType = DataType.BOOLEAN then "checkbox"
  else "text"

end Cells

section Replace

def ascii (text : String) : List Char := text.toUTF8.data.toList.map fun b => Char.ofNat b.toNat

def apostrophe : Char := Char.ofNat 0x27
def graveAccent : Char := Char.ofNat 0x60

/-- What `String.replace` puts for a match: dollar signs in the replacement have a meaning. -/
def substitution (before matched after : List Char) : List Char → List Char
  | [] => []
  | [c] => [c]
  | c :: d :: rest =>
    if c = '$' ∧ d = '$' then '$' :: substitution before matched after rest
    else if c = '$' ∧ d = '&' then matched ++ substitution before matched after rest
    else if c = '$' ∧ d = graveAccent then before ++ substitution before matched after rest
    else if c = '$' ∧ d = apostrophe then after ++ substitution before matched after rest
    else c :: substitution before matched after (d :: rest)

/-- `passed` is the text before, from its end; `k` characters of the last match are still to be
passed over. -/
def replaceFrom (pattern replacement : List Char) : List Char → ℕ → List Char → List Char
  | _, _, [] => []
  | passed, k + 1, c :: rest => replaceFrom pattern replacement (c :: passed) k rest
  | passed, 0, c :: rest =>
    if pattern <+: c :: rest then
      substitution passed.reverse pattern ((c :: rest).drop pattern.length) replacement ++
        replaceFrom pattern replacement (c :: passed) (pattern.length - 1) rest
    else c :: replaceFrom pattern replacement (c :: passed) 0 rest

def replace (html : List Char) (pattern : String) (replacement : List Char) : List Char :=
  replaceFrom (ascii pattern) replacement [] 0 html

end Replace

section Dialogs

variable (w : Surroundings)

def inputSectionHTML : List Char :=
  ascii <| "<div class='form-group'><label for='__INPUT_NAME__' class='col-sm-4 control-label'>" ++
    "__INPUT_NAME__</label>__INPUT_HTML__</div>"

def inputHTML (dataType : String) : List Char :=
  if dataType = DataType.BOOLEAN then
    ascii <| "<div class='col-sm-7'><div class='checkbox'><label><label class='radio-inline'>" ++
      "<input data-type='__INPUT_DATA_TYPE__' __OPTION_1_CHECKED__ type='radio' " ++
      "name='__INPUT_NAME__' id='__INPUT_NAME__' value='1'>true</label>" ++
      "<label class='radio-inline'><input data-type='__INPUT_DATA_TYPE__' " ++
      "__OPTION_2_CHECKED__ type='radio' name='__INPUT_NAME__' id='__INPUT_NAME__' value='0'>" ++
      "false</label></div></div>"
  else
    ascii <| "<div class='col-sm-7'><input data-type='__INPUT_DATA_TYPE__' " ++
      "__INPUT_READ_ONLY_ATTRIBUTE__ type='__INPUT_TYPE__'  id='__INPUT_NAME__' " ++
      "name='__INPUT_NAME__' placeholder='__INPUT_NAME__' style='overflow:hidden'  " ++
      "class='form-control' value='__INPUT_VALUE__'></div>"

/-- The section of one column; each replacement also reads what those before it have put. -/
def editSection (info : TableInfo) (cell : ColumnData) : List Char :=
  let isTrue := cell.dataType = DataType.BOOLEAN ∧ cellText w cell = "true"
  [("__INPUT_HTML__", inputHTML cell.dataType),
    ("__INPUT_READ_ONLY_ATTRIBUTE__", if info.isPrimary then ascii "readonly" else []),
    ("__INPUT_TYPE__", (inputType cell.dataType).toList),
    ("__INPUT_DATA_TYPE__", cell.dataType.toList),
    ("__INPUT_VALUE__", (cellText w cell).toList),
    ("__INPUT_NAME__", (info.title.getD NULL).toList),
    ("__OPTION_1_CHECKED__", if isTrue then ascii "checked" else []),
    ("__OPTION_2_CHECKED__", if isTrue then [] else ascii "checked")].foldl
      (fun html r => replace html r.1 r.2) inputSectionHTML

def openEditModal (infos : List TableInfo) (cells : List ColumnData) : List Char :=
  ascii "<pre><form class='form-horizontal' name='altEditor-form' role='form'>" ++
    (List.zipWith (editSection w) infos cells).flatten ++ ascii "</form></pre>"

/-- The section of one column in the dialog that has a row deleted. -/
def deleteSection (info : TableInfo) (cell : ColumnData) : List Char :=
  let title := (info.title.getD NULL).toList
  let value := (cellText w cell).toList
  [ascii "<div class='form-group'><label for='", title, ascii "'>", title,
    ascii " : </label><input  type='hidden' data-type='", (inputType cell.dataType).toList,
    ascii "'  id='", title, ascii "' name='", title, ascii "' placeholder='", title,
    ascii "' style='overflow:hidden'  class='form-control' value='", value, ascii "' >", value,
    ascii "</input></div>"].flatten

def openDeleteModal (infos : List TableInfo) (cells : List ColumnData) : List Char :=
  ascii "<pre><form name='altEditor-form' role='form'>" ++
    (List.zipWith (deleteSection w) infos cells).flatten ++ ascii "</form></pre>"

def typed (texts : List (Option String)) (inputs : List Input) : List Input :=
  inputs.zipIdx.map fun (input, j) =>
    match texts[j]?.join with
    | some text => { input with value := w.enter input.type text }
    | none => input

/-- The value and the type of each input; of radio buttons, only the chosen one. -/
def editRowData (inputs : List Input) : List (String × Option String) :=
  inputs.filterMap fun input =>
    if input.type = some "radio" then
      if input.checked then some (toString (input.value == "1"), input.dataType) else none
    else some (input.value, input.dataType)

def deleteRowData (inputs : List Input) : List (String × Option String) :=
  inputs.map fun input => (input.value, input.dataType)

/-- What the listener sends: the inputs in the order of the columns. Where there are fewer of them
it fails, and nothing is sent. -/
def rowDataRequests (infos : List TableInfo) (data : List (String × Option String)) :
    Option (List RowDataRequest) :=
  if data.length < infos.length then none
  else some (List.zipWith (fun info field => ⟨info.title, info.isPrimary, field.2, some field.1⟩)
    infos data)

end Dialogs

section Statements

variable (w : Surroundings)

/-- No two rows share a key; one with a NULL in it is shared with none. -/
def KeysApart (s : Schema) (rows : List Row) : Prop :=
  (∃ c ∈ s.columns, c.pk ≠ 0) → rows.Pairwise fun ρ σ =>
    ∃ c ∈ s.columns, c.pk ≠ 0 ∧ (ρ c.name ≠ σ c.name ∨ ρ c.name = .null)

instance (s : Schema) (rows : List Row) : Decidable (KeysApart s rows) :=
  inferInstanceAs (Decidable (_ → _))

def DistinctKeys (s : Schema) (rows : List Row) : Prop :=
  (∀ ρ ∈ rows, ∀ c ∈ s.columns, c.pk ≠ 0 → ρ c.name ≠ .null) ∧
    ((∃ c ∈ s.columns, c.pk ≠ 0) →
      rows.Pairwise fun ρ σ => ∃ c ∈ s.columns, c.pk ≠ 0 ∧ ρ c.name ≠ σ c.name)

/-- SQLiteDatabase.update: a statement that does not compile, or that leaves rows the constraints
forbid, changes nothing. -/
def executeUpdate (s : Schema) (u : Update) (rows : List Row) : Except JavaException (List Row) :=
  let left := SqlUpdate.update (whereHolds w.toPlatform u.whereClause u.whereArgs)
    (fun c => u.contentValues.lookup c) rows
  if w.compiles (.update u) ∧ KeysApart s left ∧ w.allows left then .ok left else .error .sqlite

/-- SQLiteDatabase.delete: the rows that match go, or the statement does not compile. -/
def executeDelete (table : String) (whereClause : Option String) (whereArgs : List (Option String))
    (rows : List Row) : Except JavaException (List Row) :=
  if w.compiles (.delete table whereClause whereArgs) then
    .ok (SqlUpdate.delete (whereHolds w.toPlatform whereClause whereArgs) rows)
  else .error .sqlite

end Statements

section Browser

/-! Enough of a browser for the forms of plain texts. -/

structure Tag where
  name : List Char
  attributes : List (List Char × List Char)

def Tag.add (tag : Tag) (name value : List Char) : Tag :=
  if (tag.attributes.lookup name).isSome then tag
  else { tag with attributes := tag.attributes ++ [(name, value)] }

inductive Reading where
  | text
  | opened
  | closing
  | tag (name : List Char)
  | between (tag : Tag)
  | naming (tag : Tag) (name : List Char)
  | assigned (tag : Tag) (name : List Char)
  | value (tag : Tag) (name : List Char) (quote : Option Char) (text : List Char)

def isSpace (c : Char) : Bool := c.toNat ∈ [0x09, 0x0A, 0x0C, 0x0D, 0x20]

/-- A tag that is not closed is dropped. -/
def tags : Reading → List Char → List Tag
  | _, [] => []
  | .text, c :: rest => tags (if c = '<' then .opened else .text) rest
  | .opened, c :: rest =>
    tags (if c = '/' then .closing else if c.isAlpha then .tag [c] else .text) rest
  | .closing, c :: rest => tags (if c = '>' then .text else .closing) rest
  | .tag name, c :: rest =>
    if c = '>' then ⟨name, []⟩ :: tags .text rest
    else tags (if isSpace c then .between ⟨name, []⟩ else .tag (name ++ [c])) rest
  | .between tag, c :: rest =>
    if c = '>' then tag :: tags .text rest
    else tags (if isSpace c ∨ c = '/' then .between tag else .naming tag [c]) rest
  | .naming tag name, c :: rest =>
    if c = '>' then tag.add name [] :: tags .text rest
    else tags (if c = '=' then .assigned tag name
      else if isSpace c then .between (tag.add name []) else .naming tag (name ++ [c])) rest
  | .assigned tag name, c :: rest =>
    if c = '>' then tag.add name [] :: tags .text rest
    else tags (if isSpace c then .assigned tag name
      else if c = apostrophe ∨ c.toNat = 0x22 then .value tag name (some c) []
      else .value tag name none [c]) rest
  | .value tag name (some quote) text, c :: rest =>
    tags (if c = quote then .between (tag.add name text)
      else .value tag name (some quote) (text ++ [c])) rest
  | .value tag name none text, c :: rest =>
    if c = '>' then tag.add name text :: tags .text rest
    else tags (if isSpace c then .between (tag.add name text)
      else .value tag name none (text ++ [c])) rest

/-- Line breaks do not stay in a field, and an input for numbers holds nothing else. -/
def enter (type : Option String) (text : String) : String :=
  if type = some "number" then if (longValueOf text).isSome then text else ""
  else if type = some "hidden" then text
  else String.ofList (text.toList.filter fun c => c.toNat ≠ 0x0A ∧ c.toNat ≠ 0x0D)

def Tag.input (tag : Tag) : Option Input :=
  let held (name : String) := (tag.attributes.lookup (ascii name)).map String.ofList
  if tag.name = ascii "input" then
    some ⟨held "type", held "data-type",
      enter (held "type") ((held "value").getD ""), (held "checked").isSome⟩
  else none

/-- No doubles, and blobs without a text. -/
def plainPlatform : Platform where
  doubleToString _ := ""
  doubleValueOf _ := none
  blobText _ := none

def plain : Surroundings where
  toPlatform := plainPlatform
  realText text := text
  inputs html := (tags .text html).filterMap Tag.input
  enter := enter
  compiles _ := true
  allows _ := true

end Browser

end RowForm
