import RepoPolicy.Sql.KeywordScan
import RepoPolicy.Sql.Nesting
import RepoPolicy.Sql.NormalForm
import RepoPolicy.Text.Scan

set_option autoImplicit false

/-! # The columns that a SELECT projects

The select list of the outermost `SELECT` is read off the normalized text: it lies between the
first `SELECT` and the next `FROM` outside parentheses, and its items are what the commas outside
parentheses and double quotes separate. -/

namespace RepoPolicy.Sql

open RepoPolicy.Text RepoPolicy.Text.Scanner

/-- An item of a select list. -/
inductive ProjectedItem where
  /-- `*` or `t.*` -/
  | wildcard
  /-- A column or an expression with an alias: its name in lower case, without quotes. -/
  | column (name : String)
  /-- An expression that has no name. -/
  | complex (text : String)
  deriving DecidableEq, Repr

/-! ## The select list -/

def atTopLevel (place : Place) : Bool := (Nesting.atPlace place).depth == 0

/-- The occurrences of a piece that begin outside all parentheses. -/
def topLevel (piece : Scanner) (text : List Char) : List Occurrence :=
  (occurrences piece text).filter (atTopLevel ·.start)

def selectWord? (normalized : List Char) : Option Occurrence :=
  (topLevel (wholeWord "select") normalized).head?

/-- The `FROM` that ends the select list which starts at a place. -/
def fromWord? (normalized : List Char) (start : Place) : Option Occurrence :=
  (topLevel (wholeWord "from") normalized).find? fun found =>
    found.start.after.length < start.after.length

def selectModifier : Scanner :=
  oneOf [
    andThen (letters "all") blanks1,
    sequence [letters "distinct", blanks1, letters "on", blanks, exactly '(', many (· != ')'),
      exactly ')', blanks],
    andThen (letters "distinct") blanks1]

def dropModifier (list : List Char) : List Char :=
  match (selectModifier (Place.start list)).head? with
  | some stop => stop.after
  | none => list

def selectList? (normalized : List Char) : Option (List Char) := do
  let select ← selectWord? normalized
  let stop :=
    match fromWord? normalized select.stop with
    | some found => found.start
    | none => ⟨[], []⟩
  let list := dropModifier (trim (select.stop.upTo stop))
  if (trim list).isEmpty then none else some list

/-! ## Items -/

/-- The pieces of a text between the commas that are outside double quotes and parentheses.
`nesting` is the state at the front of the text and `piece` what the current piece holds so far, its
last character first. -/
def splitFrom (nesting : Nesting) (piece : List Char) : List Char → List (List Char)
  | [] => [piece.reverse]
  | c :: rest =>
    if c == ',' && !nesting.quoted && nesting.depth == 0 then
      piece.reverse :: splitFrom (nesting.read c) [] rest
    else splitFrom (nesting.read c) (c :: piece) rest

def splitItems (list : List Char) : List (List Char) := (splitFrom .outermost [] list).map trim

/-! ## Names of items -/

/-- A quoted name, with its quotes. It holds at least one character. -/
def quotedPart : Scanner := sequence [exactly '"', many1 (· != '"'), exactly '"']

/-- An unquoted name. -/
def plainPart : Scanner := andThen (char startsWord) (many continuesWord)

def namePart : Scanner := orElse quotedPart plainPart

def endOfText : Scanner := fun place => if place.after.isEmpty then [place] else []

/-- The last part of a reference to a column that makes up a whole text: names with dots between
them. Every part takes a character, so `fuel` is enough when it is the length of the text. -/
def columnReference : Nat → List Char → Option (List Char)
  | 0, _ => none
  | fuel + 1, text => do
    let start := Place.start text
    let stop ← (namePart start).head?
    match stop.after with
    | [] => some (start.upTo stop)
    | '.' :: rest => columnReference fuel rest
    | _ => none

/-- The last part of a text that is a reference to a column. -/
def columnReference? (text : List Char) : Option (List Char) := columnReference text.length text

/-- Whether a text is a star, with or without names in front of it. -/
def isWildcardWithin : Nat → List Char → Bool
  | 0, _ => false
  | fuel + 1, text =>
    text == ['*'] ||
      match (namePart (Place.start text)).head? with
      | some stop =>
        match stop.after with
        | '.' :: rest => isWildcardWithin fuel rest
        | _ => false
      | none => false

def isWildcard (item : List Char) : Bool := isWildcardWithin item.length item

/-- The name of a column, in lower case and without quotes. -/
def columnName (raw : List Char) : String := lowercase (String.ofList (strip (· == '"') raw))

def asWord : Scanner := sequence [blanks1, letters "as", blanks1]

/-- The alias after the last `AS` outside parentheses, if it is a single name. -/
def explicitAlias? (item : List Char) : Option (List Char) := do
  let found ← (topLevel asWord item).getLast?
  let given := trim found.stop.after
  if (columnReference? given).isSome && !given.contains '.' then some given else none

def expressionTailWords : List String :=
  ["end", "null", "true", "false", "asc", "desc", "and", "or", "not", "is", "else", "then"]

def operatorWords : List String :=
  ["not", "and", "or", "between", "is", "in", "like", "ilike", "similar", "case", "when", "then",
    "else", "end", "exists", "any", "all", "some", "collate", "overlaps"]

def operatorWord : Scanner := sequence [wordEdge, oneOf (operatorWords.map letters), wordEdge]

def trailingName : Scanner := sequence [char isBlank, namePart, endOfText]

def closesExpression (c : Char) : Bool :=
  c.isAlphanum || c == '_' || c == ')' || c == '"' || c == '\''

def implicitAlias? (item : List Char) : Option (List Char) := do
  let found ← (occurrences trailingName item).head?
  let given := found.start.after.drop 1
  let expression := trimEnd found.start.before.reverse
  let last ← expression.getLast?
  if closesExpression last && !expressionTailWords.contains (lowercase (String.ofList given)) &&
      (topLevel operatorWord expression).isEmpty then some given
  else none

def classifyItem (item : List Char) : ProjectedItem :=
  if isWildcard item then .wildcard
  else
    match columnReference? item with
    | some name => .column (columnName name)
    | none =>
      match explicitAlias? item with
      | some given => .column (columnName given)
      | none =>
        match implicitAlias? item with
        | some given => .column (columnName given)
        | none => .complex (String.ofList item)

/-- The items that the outermost `SELECT` of a SQL text projects, or nothing if it has no select
list. -/
def projection (sql : String) : Option (List ProjectedItem) :=
  (selectList? (normalForm sql.toList)).map fun list => (splitItems list).map classifyItem

end RepoPolicy.Sql
