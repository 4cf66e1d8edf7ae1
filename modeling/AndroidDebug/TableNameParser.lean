import AndroidDebug.JavaText

/-! The parser that guesses the tables of an SQL text. An index past the last token is an
exception, here `none`. -/
namespace TableNameParser

open JavaText

/-- What the device decides: lower case in its locale, and the order of a HashSet. -/
structure Runtime where
  toLowerCase : JString → JString
  order : List JString → List JString

def hyphen : UInt16 := 0x2D
def carriageReturn : UInt16 := 0x0D
def lineFeed : UInt16 := 0x0A
def blank : UInt16 := 0x20

def KEYWORD_FROM : JString := ofString "from"
def TOKEN_DELETE : JString := ofString "delete"
def TOKEN_ASTERICK : JString := ofString "*"
def TOKEN_CREATE : JString := ofString "create"
def TOKEN_INDEX : JString := ofString "index"
def TOKEN_COMMA : JString := ofString ","
def TOKEN_SEMI_COLON : UInt16 := 0x3B

def concerned : List JString := ["table", "into", "join", "using", "update"].map ofString

def ignored : List JString := ["(", "set", "of", "dual"].map ofString

/-- A comment goes up to the end of its line; the flag tells whether one is being read. -/
def removeComments : Bool → JString → JString
  | _, [] => []
  | true, u :: rest =>
    if u = carriageReturn ∨ u = lineFeed then u :: removeComments false rest
    else removeComments true rest
  | false, u :: rest =>
    if u = hyphen ∧ rest.head? = some hyphen then removeComments true rest
    else u :: removeComments false rest

/-- `String.trim` -/
def trim (s : JString) : JString :=
  ((s.dropWhile (· ≤ blank)).reverse.dropWhile (· ≤ blank)).reverse

def newlinesToSpaces : JString → JString
  | [] => []
  | [u] => [if u = carriageReturn ∨ u = lineFeed then blank else u]
  | u :: v :: rest =>
    if u = carriageReturn ∧ v = lineFeed then blank :: newlinesToSpaces rest
    else (if u = carriageReturn ∨ u = lineFeed then blank else u) :: newlinesToSpaces (v :: rest)

/-- Commas and parentheses get spaces around them. -/
def spaced (u : UInt16) : JString :=
  if u = 0x2C ∨ u = 0x28 ∨ u = 0x29 then [blank, u, blank] else [u]

def normalized (sql : JString) : JString :=
  let text := (newlinesToSpaces (trim sql)).flatMap spaced
  if text.getLast? = some TOKEN_SEMI_COLON then text.dropLast else text

def indexOf (t s : JString) : Option ℕ :=
  (List.range (s.length + 1)).find? fun i => t <+: s.drop i

/-- An Oracle hint is cut out. -/
def clean (text : JString) : JString :=
  match indexOf (ofString "/*+") text, indexOf (ofString "*/") text with
  | some first, some last => trim (text.take first) ++ blank :: trim (text.drop (last + 2))
  | _, _ => text

def isSpace (u : UInt16) : Bool := u == blank || decide (9 ≤ u.toNat ∧ u.toNat ≤ 13)

/-- `split` at runs of spaces: only the first piece can be empty. -/
def split (s : JString) : List JString :=
  match s.splitOnP isSpace with
  | [] => []
  | first :: rest =>
    let words := rest.filter (· ≠ [])
    if s ≠ [] ∧ first = [] ∧ words = [] then [] else first :: words

variable (rt : Runtime)

/-- Each table with its name in lower case. -/
abbrev Tables := List (JString × JString)

def considerInclusion (token : JString) (tables : Tables) : Tables :=
  let lower := rt.toLowerCase token
  if ignored.contains lower ∨ (tables.map Prod.fst).contains lower then tables
  else tables ++ [(lower, token)]

def processNonAliasedMultiTables : List JString → Tables → Option Tables
  | [], _ => none
  | [currentToken], tables => some (considerInclusion rt currentToken tables)
  | currentToken :: nextToken :: rest, tables =>
    let tables := considerInclusion rt currentToken tables
    if nextToken = TOKEN_COMMA then processNonAliasedMultiTables rest tables else some tables

/-- What comes after the comma that follows a table and its alias. -/
def processAliasedTables : List JString → Tables → Tables
  | [], tables => tables
  | currentToken :: _ :: nextNextToken :: rest, tables =>
    let tables := considerInclusion rt currentToken tables
    if nextNextToken = TOKEN_COMMA then processAliasedTables rest tables else tables
  | currentToken :: _, tables => considerInclusion rt currentToken tables

def processAliasedMultiTables (tokens : List JString) (tables : Tables) : Tables :=
  match tokens with
  | nextNextToken :: rest =>
    if nextNextToken = TOKEN_COMMA then processAliasedTables rt rest tables else tables
  | [] => tables

def processFromToken (tokens : List JString) (tables : Tables) : Option Tables :=
  match tokens with
  | [] => none
  | [currentToken] => some (considerInclusion rt currentToken tables)
  | currentToken :: nextToken :: rest =>
    let tables := considerInclusion rt currentToken tables
    if nextToken = TOKEN_COMMA then processNonAliasedMultiTables rt rest tables
    else some (processAliasedMultiTables rt rest tables)

/-- The tokens after FROM are read again by the loop, those after another keyword are not. -/
def processTokens : List JString → Tables → Option Tables
  | [], tables => some tables
  | currentToken :: rest, tables =>
    if rt.toLowerCase currentToken = KEYWORD_FROM then
      (processFromToken rt rest tables).bind (processTokens rest)
    else if concerned.contains (rt.toLowerCase currentToken) then
      match rest with
      | [] => none
      | [nextToken] => some (considerInclusion rt nextToken tables)
      | nextToken :: _ :: rest => processTokens rest (considerInclusion rt nextToken tables)
    else processTokens rest tables

def isOracleSpecialDelete (tokens : List JString) : Bool :=
  match tokens with
  | first :: nextToken :: _ =>
    first = TOKEN_DELETE ∧ nextToken ≠ KEYWORD_FROM ∧ nextToken ≠ TOKEN_ASTERICK
  | _ => false

def isCreateIndex (tokens : List JString) : Bool :=
  match tokens with
  | first :: nextToken :: _ =>
    rt.toLowerCase first = TOKEN_CREATE ∧ 4 < tokens.length ∧ rt.toLowerCase nextToken = TOKEN_INDEX
  | _ => false

def tables (sql : JString) : Option Tables :=
  let tokens := split (clean (normalized (removeComments false sql)))
  if tokens = [] then none
  else if isOracleSpecialDelete tokens then
    (tokens[1]?).map fun tableName => considerInclusion rt tableName []
  else if isCreateIndex rt tokens then
    (tokens[4]?).map fun tableName => considerInclusion rt tableName []
  else processTokens rt tokens []

/-- The first of the set that is not empty. -/
def getTableName (selectQuery : JString) : Option (Option JString) :=
  (tables rt selectQuery).map fun found =>
    (rt.order (found.map Prod.snd)).find? fun tableName => tableName ≠ []

end TableNameParser
