import RepoPolicy.Sql.Construct
import RepoPolicy.Sql.Nesting
import RepoPolicy.Sql.References
import RepoPolicy.Text.Scan

set_option autoImplicit false

/-! # Finding tables by keywords

The tables of a normalized SQL text are the names that stand after `FROM`, `JOIN`, `INTO` and
`UPDATE`. A keyword inside the parentheses of a call, as in `EXTRACT(YEAR FROM ts)`, is not followed
by a table; inside a parenthesized `SELECT` it is. -/

namespace RepoPolicy.Sql

open RepoPolicy.Text RepoPolicy.Text.Scanner

/-! ## Words and names -/

/-- A character that an unquoted name may begin with. -/
def startsWord (c : Char) : Bool := c.isAlpha || c == '_'

/-- A character that may follow in an unquoted name. -/
def continuesWord (c : Char) : Bool := c.isAlphanum || c == '_' || c == '$'

/-- An unquoted word at the front of a text, and what follows it. -/
def readWord (text : List Char) : Option (List Char × List Char) :=
  match text with
  | c :: _ =>
    if startsWord c then some (text.takeWhile continuesWord, text.dropWhile continuesWord) else none
  | [] => none

/-- What stands before a closing delimiter, and what follows it. -/
def readUntil (close : Char) (text : List Char) : Option (List Char × List Char) :=
  match text.dropWhile (· != close) with
  | _ :: rest => some (text.takeWhile (· != close), rest)
  | [] => none

/-- One part of a name: unquoted, or in double quotes, backquotes or brackets. -/
def readPart (text : List Char) : Option (List Char × List Char) :=
  match text with
  | [] => none
  | c :: rest =>
    if c == '"' then readUntil '"' rest
    else if c.toNat == 96 then readUntil c rest
    else if c == '[' then readUntil ']' rest
    else readWord text

/-- A name with its qualifiers: parts with a dot between them. Every part takes at least one
character, so `fuel` is enough when it is the length of the text. -/
def readParts : Nat → List Char → Option (List (List Char) × List Char)
  | 0, _ => none
  | fuel + 1, text => do
    let (part, rest) ← readPart text
    match rest with
    | '.' :: rest =>
      let (parts, rest) ← readParts fuel rest
      return (part :: parts, rest)
    | _ => return ([part], rest)

/-- A name with its qualifiers at the front of a text, its parts joined by dots. -/
def readName (text : List Char) : Option (String × List Char) := do
  let (parts, rest) ← readParts text.length text
  return (".".intercalate (parts.map String.ofList), rest)

/-- Leave out a word, in any case, and the blanks after it. -/
def skipWord (word : String) (text : List Char) : List Char :=
  match readWord text with
  | some (found, rest) => if found.map Char.toLower == word.toList then trimStart rest else text
  | none => text

/-! ## What follows a keyword -/

/-- Words that may follow a table keyword and never name a table. -/
def nonTableWords : List String :=
  ["select", "set", "values", "lateral", "only", "where", "on", "using", "default"]

/-- Words that end a reference to a table and so are no alias. -/
def clauseWords : List String :=
  ["where", "join", "inner", "left", "right", "full", "cross", "natural", "outer", "on", "using",
    "group", "order", "limit", "offset", "having", "union", "except", "intersect", "returning",
    "for", "window", "set", "fetch", "values", "select", "into", "as"]

/-- The name as a table, unless it is a word that names none. -/
def asTable (name : String) : List String :=
  if nonTableWords.contains (lowercase name) then [] else [name]

/-- What follows the parenthesis that closes the first one of a text, when `depth` are open. -/
def afterClosing : Nat → List Char → Option (List Char)
  | _, [] => none
  | depth, c :: rest =>
    if c == '(' then afterClosing (depth + 1) rest
    else if c == ')' then if depth ≤ 1 then some rest else afterClosing (depth - 1) rest
    else afterClosing depth rest

def skipAlias (text : List Char) : List Char :=
  match readWord text with
  | none => text
  | some (word, rest) =>
    let lowered := lowercase (String.ofList word)
    if lowered == "as" then
      let afterAs := trimStart rest
      match readName afterAs with
      | some (_, rest) => trimStart rest
      | none => afterAs
    else if clauseWords.contains lowered then text
    else trimStart rest

/-- The tables of a list `a [AS] x, b y, ...`. Every item takes at least one character, so `fuel`
is enough when it is the length of the text. -/
def tableList : Nat → List Char → List String
  | 0, _ => []
  | fuel + 1, text =>
    match readName (skipWord "only" text) with
    | none => []
    | some (name, rest) =>
      let next (tables : List String) (rest : List Char) : List String :=
        match skipAlias rest with
        | ',' :: rest => tables ++ tableList fuel (trimStart rest)
        | _ => tables
      match trimStart rest with
      | '(' :: rest =>
        match afterClosing 1 rest with
        | some rest => next [] (trimStart rest)
        | none => []
      | rest => next (asTable name) rest

def singleTable (text : List Char) : List String :=
  match readName (skipWord "only" text) with
  | some (name, _) => asTable name
  | none => []

/-! ## Where tables stand -/

def fromKeyword : Scanner := andThen (keyword "from") blanks1

def singleTableKeyword : Scanner :=
  sequence [
    wordEdge,
    oneOf [
      andThen (letters "join") (optional (andThen blanks1 (letters "lateral"))),
      letters "into",
      letters "update"],
    blanks1]

/-- The text after the innermost parenthesis that is open, if there is one. `before` lies before
it with the nearest character first, `depth` closed parentheses have been passed, and `between` is
the text passed over. -/
def insideParenthesis : Nat → List Char → List Char → Option (List Char)
  | _, _, [] => none
  | depth, between, c :: before =>
    if c == ')' then insideParenthesis (depth + 1) (c :: between) before
    else if c == '(' then
      if depth = 0 then some between else insideParenthesis (depth - 1) (c :: between) before
    else insideParenthesis depth (c :: between) before

/-- Whether a keyword at this place is followed by a table: it is outside all parentheses, or
inside those of a `SELECT`. -/
def isTablePosition (place : Place) : Bool :=
  match insideParenthesis 0 place.after place.before with
  | none => true
  | some inside => "select".toList.isPrefixOf (lowerFrom [] (trimStart inside))

def scannedTables (normalized : List Char) : List String :=
  let from? := (occurrences fromKeyword normalized).filter (isTablePosition ·.start)
  let single := (occurrences singleTableKeyword normalized).filter (isTablePosition ·.start)
  from?.flatMap (fun found => tableList found.stop.after.length found.stop.after) ++
    single.flatMap fun found => singleTable found.stop.after

/-- Find the tables of a SQL text by its keywords. Parentheses may be nested as deeply as the limit
says. -/
def scanReferences (sql : String) (limit : Nat) : Except ExtractionError References :=
  let normalized := normalize sql
  if normalized.isEmpty then .error .empty
  else
    match openQuote sql with
    | some quote => .error (.unterminated quote)
    | none =>
      let deepest := deepestLevel normalized.toList
      if deepest > limit then .error (.parenthesesTooDeep deepest limit)
      else
        .ok {
          tables := NameSet.ofList (scannedTables normalized.toList)
          cteNames := NameSet.ofList (cteNames normalized) }

end RepoPolicy.Sql
