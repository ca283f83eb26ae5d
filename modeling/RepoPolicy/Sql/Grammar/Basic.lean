import RepoPolicy.Sql.Token

set_option autoImplicit false

/-! # Reading a list of tokens

A `Parser α` takes an `α` off the front of a list of tokens or fails. `attempt` gives a parser that
may fail without harm, except that a text which is nested too deeply is refused at once. -/

namespace RepoPolicy.Sql.Grammar

/-- Read something from the front of a list of tokens. -/
abbrev Parser := StateT (List Token) (Except SyntaxError)

/-- The text is not what the grammar asks for. -/
def fail {α : Type} : Parser α := throw .unexpected

/-- The next token, which stays where it is. -/
def peek : Parser (Option Token) := return (← get).head?

/-- Run a parser, and go back to where it started if it fails. A text that is nested too deeply is
not given a second reading. -/
def attempt {α : Type} (parser : Parser α) : Parser (Option α) := fun tokens =>
  match parser.run tokens with
  | .ok (value, rest) => .ok (some value, rest)
  | .error .tooDeep => .error .tooDeep
  | .error _ => .ok (none, tokens)

/-- Take a keyword if it comes next. -/
def keyword? (keyword : String) : Parser Bool := do
  match ← get with
  | token :: rest =>
    if token.isKeyword keyword then
      set rest
      return true
    else return false
  | [] => return false

/-- Take several keywords if they come next, all of them. -/
def keywords? (keywords : List String) : Parser Bool := do
  let tokens ← get
  let found := tokens.take keywords.length
  if found.length == keywords.length &&
      (keywords.zip found).all fun (keyword, token) => token.isKeyword keyword then
    set (tokens.drop keywords.length)
    return true
  else return false

/-- Take one of several keywords if it comes next. -/
def oneOf? (keywords : List String) : Parser (Option String) := do
  match ← get with
  | .word _ spelling :: rest =>
    if keywords.contains spelling then
      set rest
      return some spelling
    else return none
  | _ => return none

/-- Whether one of several keywords comes next. -/
def peekOneOf (keywords : List String) : Parser Bool := do
  match ← peek with
  | some token => return token.isOneOf keywords
  | none => return false

def expectKeyword (keyword : String) : Parser Unit := do
  if !(← keyword? keyword) then fail

def expectOneOf (keywords : List String) : Parser String := do
  match ← oneOf? keywords with
  | some keyword => return keyword
  | none => fail

def peekSymbol (text : String) : Parser Bool := return (← peek) == some (.symbol text)

/-- Take a symbol if it comes next. -/
def symbol? (text : String) : Parser Bool := do
  match ← get with
  | token :: rest =>
    if token == .symbol text then
      set rest
      return true
    else return false
  | [] => return false

def expectSymbol (text : String) : Parser Unit := do
  if !(← symbol? text) then fail

def next : Parser Token := do
  match ← get with
  | token :: rest =>
    set rest
    return token
  | [] => fail

/-! ## Lists and names -/

def commaList {α : Type} (item : Parser α) : Nat → Parser (List α)
  | 0 => fail
  | fuel + 1 => do
    let first ← item
    if ← symbol? "," then return first :: (← commaList item fuel) else return [first]

def commaSeparated {α : Type} (item : Parser α) : Parser (List α) := do
  commaList item ((← get).length + 1)

def inParentheses {α : Type} (inside : Parser α) : Parser α := do
  expectSymbol "("
  let value ← inside
  expectSymbol ")"
  return value

/-- A name. A string in single quotes is taken for one. -/
def identifier : Parser String := do
  match ← next with
  | .word value _ => return value
  | .string value => return value
  | _ => fail

def dottedNames : Nat → Parser (List String)
  | 0 => fail
  | fuel + 1 => do
    let first ← identifier
    if ← symbol? "." then return first :: (← dottedNames fuel) else return [first]

/-- The name of a relation or a type, with its qualifiers. -/
def objectName : Parser (List String) := do dottedNames ((← get).length + 1)

def columnNames : Parser (List String) := inParentheses (commaSeparated identifier)

def stringLiteral : Parser Unit := do
  match ← next with
  | .string _ => return
  | .literal => return
  | _ => fail

def constant : Parser Unit := do
  match ← next with
  | .number => return
  | .string _ => return
  | .literal => return
  | .parameter => return
  | token => if token.isOneOf ["TRUE", "FALSE", "NULL"] then return else fail

/-! ## Aliases -/

/-- Keywords that go on with the statement and so are no alias of a column. -/
def reservedForColumnAlias : List String :=
  ["WITH", "EXPLAIN", "ANALYZE", "SELECT", "WHERE", "GROUP", "SORT", "HAVING", "ORDER", "TOP",
    "LATERAL", "VIEW", "LIMIT", "OFFSET", "FETCH", "UNION", "EXCEPT", "INTERSECT", "CLUSTER",
    "DISTRIBUTE", "RETURNING", "FROM", "INTO", "END"]

/-- Keywords that go on with the statement and so are no alias of a table. -/
def reservedForTableAlias : List String :=
  ["WITH", "EXPLAIN", "ANALYZE", "SELECT", "WHERE", "GROUP", "SORT", "HAVING", "ORDER", "PIVOT",
    "UNPIVOT", "TOP", "LATERAL", "VIEW", "LIMIT", "OFFSET", "FETCH", "UNION", "EXCEPT",
    "INTERSECT", "ON", "JOIN", "INNER", "CROSS", "FULL", "LEFT", "RIGHT", "NATURAL", "USING",
    "CLUSTER", "DISTRIBUTE", "GLOBAL", "ANTI", "SEMI", "RETURNING", "ASOF", "MATCH_CONDITION",
    "OUTER", "SET", "QUALIFY", "WINDOW", "END", "FOR", "PARTITION", "PREWHERE", "SETTINGS",
    "FORMAT", "START", "CONNECT", "MATCH_RECOGNIZE", "SAMPLE", "TABLESAMPLE", "FROM"]

/-- An alias, if there is one. After `AS` any word is one; without it a reserved keyword is not. -/
def alias? (reserved : List String) : Parser (Option String) := do
  let afterAs ← keyword? "AS"
  match ← get with
  | .word value spelling :: rest =>
    if afterAs || !reserved.contains spelling then
      set rest
      return some value
    else return none
  | .string value :: rest =>
    set rest
    return some value
  | _ => if afterAs then fail else return none

end RepoPolicy.Sql.Grammar
