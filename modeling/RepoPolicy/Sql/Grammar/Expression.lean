import RepoPolicy.Sql.Grammar.DataType
import RepoPolicy.Sql.Syntax

set_option autoImplicit false

/-! # The grammar of expressions

An expression is an operand followed by operators that bind more tightly than what stands around
it. Everything that may be nested (expressions, queries and joins inside others) is read through an
`Inner`, so that each level of nesting is one application of the rules in this folder to the rules
of the level below. -/

namespace RepoPolicy.Sql.Grammar

/-- The parsers of the level below. -/
structure Inner where
  /-- An expression whose operators bind more tightly than a precedence. -/
  binding : Nat → Parser Expr
  query : Parser Query
  /-- A source with its joins. -/
  source : Parser Source

def Inner.expr (inner : Inner) : Parser Expr := inner.binding 0

/-! ## Precedences -/

/-- How tightly the tokens that come next bind as an operator; 0 if they are none. -/
def operatorPrecedence : List Token → Nat
  | .word _ "OR" :: _ => 5
  | .word _ "AND" :: _ => 10
  | .word _ "XOR" :: _ => 24
  | .word _ "AT" :: .word _ "TIME" :: .word _ "ZONE" :: _ => 41
  | .word _ "NOT" :: .word _ following :: _ =>
    if ["IN", "BETWEEN"].contains following then 20
    else if ["LIKE", "ILIKE", "RLIKE", "REGEXP", "SIMILAR"].contains following then 19
    else 0
  | .word _ "IS" :: _ => 17
  | .word _ "DIV" :: _ => 40
  | .word _ spelling :: _ =>
    if ["IN", "BETWEEN", "OPERATOR"].contains spelling then 20
    else if ["LIKE", "ILIKE", "RLIKE", "REGEXP", "SIMILAR"].contains spelling then 19
    else 0
  | .symbol text :: _ =>
    if text == "." then 100
    else if ["::", "!", "[", "&&", "^@"].contains text then 50
    else if ["*", "/", "//", "%", "||"].contains text then 40
    else if ["+", "-"].contains text then 30
    else if text == "&" then 23
    else if ["^", "#", ">>", "<<"].contains text then 22
    else if text == "|" then 21
    else if ["=", "<", "<=", "<>", "!=", ">", ">=", "==", "~", "~*", "!~", "!~*", "~~", "~~*",
        "!~~", "!~~*", "<=>"].contains text then 20
    else if ["->", "->>", "<@", "@>", "@?", "@@", "#>", "#>>", "#-"].contains text then 16
    else 0
  | _ => 0

def binarySymbols : List String :=
  ["<=>", "=", "==", "<>", "!=", ">", ">=", "<", "<=", "+", "-", "*", "/", "%", "||", "|", "^", "&",
    "//", "<<", ">>", "->", "->>", "<@", "@>", "@?", "@@", "#>", "#>>", "#-", "&&", "^@", "~", "~*",
    "!~", "!~*", "~~", "~~*", "!~~", "!~~*"]

/-- The operators that may be followed by `ANY` or `ALL`. -/
def comparisonSymbols : List String :=
  ["=", "==", "<>", "!=", ">", ">=", "<", "<=", "~", "~*", "!~", "!~*", "~~", "~~*", "!~~", "!~~*"]

def signPrecedence : Nat := 40

def notPrecedence : Nat := 15

def betweenPrecedence : Nat := 20

def likePrecedence : Nat := 19

/-- More tightly than any operator, so that only an operand is read. -/
def operandPrecedence : Nat := 255

/-! ## Clauses that hold expressions -/

def orderItem (inner : Inner) : Parser Expr := do
  let value ← inner.expr
  let _ ← oneOf? ["ASC", "DESC"]
  if !(← keywords? ["NULLS", "FIRST"]) then
    let _ ← keywords? ["NULLS", "LAST"]
  return value

def orderBy? (inner : Inner) : Parser (List Expr) := do
  if ← keywords? ["ORDER", "BY"] then commaSeparated (orderItem inner) else return []

inductive Starred where
  | star
  | value (expr : Expr)

/-- Whether the tokens are names with dots between them and a star at the end; if so, what follows
it. -/
def qualifiedStar : List Token → Option (List Token)
  | .symbol "." :: .symbol "*" :: rest => some rest
  | .symbol "." :: .word _ _ :: rest => qualifiedStar rest
  | .symbol "." :: .string _ :: rest => qualifiedStar rest
  | _ => none

def starred (inner : Inner) : Parser Starred := do
  match ← get with
  | .symbol "*" :: rest =>
    set rest
    return .star
  | .word _ _ :: rest =>
    match qualifiedStar rest with
    | some rest =>
      set rest
      return .star
    | none => return .value (← inner.expr)
  | .string _ :: rest =>
    match qualifiedStar rest with
    | some rest =>
      set rest
      return .star
    | none => return .value (← inner.expr)
  | _ => return .value (← inner.expr)

def Starred.toList : Starred → List Expr
  | .star => []
  | .value e => [e]

/-- An argument of a call, which may have a name. -/
def argument (inner : Inner) : Parser (List Expr) := do
  let named ← attempt (α := Starred) do
    let _ ← identifier
    if !(← symbol? "=>") then expectSymbol ":="
    starred inner
  match named with
  | some value => return value.toList
  | none => return (← starred inner).toList

def nullTreatment? : Parser Unit := do
  if (← oneOf? ["IGNORE", "RESPECT"]).isSome then expectKeyword "NULLS"

/-- The arguments of a call, up to the closing parenthesis. -/
def arguments (inner : Inner) : Parser (List Expr) := do
  if ← symbol? ")" then return []
  else
    if !(← keyword? "ALL") then
      let _ ← keyword? "DISTINCT"
    let values ← commaSeparated (argument inner)
    nullTreatment?
    let order ← orderBy? inner
    let limit ← if ← keyword? "LIMIT" then pure [← inner.expr] else pure []
    if ← keyword? "SEPARATOR" then constant
    expectSymbol ")"
    return values.flatten ++ order ++ limit

def frameBound (inner : Inner) : Parser (List Expr) := do
  if ← keywords? ["CURRENT", "ROW"] then return []
  else
    let distance ← if ← keyword? "UNBOUNDED" then pure [] else pure [← inner.expr]
    let _ ← expectOneOf ["PRECEDING", "FOLLOWING"]
    return distance

def windowFrame (inner : Inner) : Parser (List Expr) := do
  let _ ← expectOneOf ["ROWS", "RANGE", "GROUPS"]
  if ← keyword? "BETWEEN" then
    let first ← frameBound inner
    expectKeyword "AND"
    let last ← frameBound inner
    return first ++ last
  else frameBound inner

def windowSpecification (inner : Inner) : Parser (List Expr) := do
  match ← get with
  | .word _ spelling :: rest =>
    if !(["PARTITION", "ORDER", "ROWS", "RANGE", "GROUPS"].contains spelling) then set rest
  | _ => pure ()
  let parts ←
    if ← keywords? ["PARTITION", "BY"] then commaSeparated inner.expr else pure []
  let order ← orderBy? inner
  if ← symbol? ")" then return parts ++ order
  else
    let frame ← windowFrame inner
    expectSymbol ")"
    return parts ++ order ++ frame

/-- A call of a function whose opening parenthesis has been read. -/
def callTail (inner : Inner) (name : List String) : Parser Expr := do
  let first ← arguments inner
  let second ← if ← symbol? "(" then arguments inner else pure []
  let within ←
    if ← keywords? ["WITHIN", "GROUP"] then
      expectSymbol "("
      let order ← orderBy? inner
      expectSymbol ")"
      pure order
    else pure []
  nullTreatment?
  let window ←
    if ← keyword? "OVER" then
      if ← symbol? "(" then windowSpecification inner
      else
        let _ ← identifier
        pure []
    else pure []
  return .call name (first ++ second ++ within ++ window)

/-! ## Operands that begin with a keyword -/

def caseBranches (inner : Inner) : Nat → Parser (List Expr)
  | 0 => fail
  | fuel + 1 => do
    let condition ← inner.expr
    expectKeyword "THEN"
    let result ← inner.expr
    if ← keyword? "WHEN" then
      return condition :: result :: (← caseBranches inner fuel)
    else return [condition, result]

def caseTail (inner : Inner) : Parser Expr := do
  let operand ←
    if ← keyword? "WHEN" then pure []
    else
      let value ← inner.expr
      expectKeyword "WHEN"
      pure [value]
  let branches ← caseBranches inner ((← get).length + 1)
  let otherwise ← if ← keyword? "ELSE" then pure [← inner.expr] else pure []
  expectKeyword "END"
  return .operation .branch (operand ++ branches ++ otherwise)

/-- `CAST(value AS type)` -/
def castTail (inner : Inner) : Parser Expr := inParentheses do
  let value ← inner.expr
  expectKeyword "AS"
  let _ ← dataType
  if ← keyword? "FORMAT" then constant
  return .operation .cast [value]

/-- `EXTRACT(field FROM value)` -/
def extractTail (inner : Inner) : Parser Expr := inParentheses do
  dateField
  if !(← keyword? "FROM") then expectSymbol ","
  return .operation .extract [← inner.expr]

/-- `CEIL(value TO field)` and `FLOOR(value TO field)` -/
def roundingTail (inner : Inner) : Parser Expr := inParentheses do
  let value ← inner.expr
  if ← keyword? "TO" then dateField
  else if ← symbol? "," then
    match ← next with
    | .number => pure ()
    | _ => fail
  return .operation .extract [value]

/-- `POSITION(value IN text)` -/
def positionTail (inner : Inner) : Parser Expr := inParentheses do
  let value ← inner.binding betweenPrecedence
  expectKeyword "IN"
  return .operation .position [value, ← inner.expr]

/-- An expression behind a keyword or a comma, if either follows. -/
def partBehind? (inner : Inner) (keyword : String) : Parser (List Expr) := do
  if ← keyword? keyword then return [← inner.expr]
  else if ← symbol? "," then return [← inner.expr]
  else return []

/-- `SUBSTRING(text FROM start FOR length)`, or with commas. -/
def substringTail (inner : Inner) : Parser Expr := inParentheses do
  let text ← inner.expr
  let first ← partBehind? inner "FROM"
  let length ← partBehind? inner "FOR"
  return .operation .substring (text :: first ++ length)

/-- `OVERLAY(text PLACING part FROM start FOR length)` -/
def overlayTail (inner : Inner) : Parser Expr := inParentheses do
  let text ← inner.expr
  expectKeyword "PLACING"
  let part ← inner.expr
  expectKeyword "FROM"
  let first ← inner.expr
  let length ← if ← keyword? "FOR" then pure [← inner.expr] else pure []
  return .operation .overlay (text :: part :: first :: length)

/-- `TRIM(BOTH characters FROM text)` -/
def trimTail (inner : Inner) : Parser Expr := inParentheses do
  let _ ← oneOf? ["BOTH", "LEADING", "TRAILING"]
  let first ← inner.expr
  if ← keyword? "FROM" then return .operation .trim [first, ← inner.expr]
  else if ← symbol? "," then return .operation .trim (first :: (← commaSeparated inner.expr))
  else return .operation .trim [first]

def intervalTail (inner : Inner) : Parser Expr := do
  let value ← inner.binding operandPrecedence
  if (← oneOf? timeUnits).isSome then
    optionalTypeArguments
    if ← keyword? "TO" then
      dateField
      optionalTypeArguments
  return .operation .interval [value]

/-- `EXISTS (query)` -/
def existsTail (inner : Inner) : Parser Expr := inParentheses do
  return .query .exists [] (← inner.query)

def notTail (inner : Inner) : Parser Expr := do
  if ← keyword? "EXISTS" then existsTail inner
  else return .operation (.unary "NOT") [← inner.binding notPrecedence]

def arrayTail (inner : Inner) : Parser Expr := do
  if ← symbol? "]" then return .operation .array []
  else
    let values ← commaSeparated inner.expr
    expectSymbol "]"
    return .operation .array values

/-- `STRUCT(value AS name, ...)` -/
def structTail (inner : Inner) : Parser Expr := do
  expectSymbol "("
  if ← symbol? ")" then return .operation .tuple []
  else
    let values ← commaSeparated do
      let value ← inner.expr
      if ← keyword? "AS" then
        let _ ← identifier
      return value
    expectSymbol ")"
    return .operation .tuple values

/-- What a keyword begins, if it has a meaning of its own in an expression. -/
def keywordOperand (inner : Inner) (spelling : String) : Option (Parser Expr) :=
  match spelling with
  | "TRUE" | "FALSE" | "NULL" => some (return .literal)
  | "CURRENT_CATALOG" | "CURRENT_USER" | "SESSION_USER" | "USER" =>
    some (return .call [spelling] [])
  | "CURRENT_TIMESTAMP" | "CURRENT_TIME" | "CURRENT_DATE" | "LOCALTIME" | "LOCALTIMESTAMP" =>
    some do
      if ← symbol? "(" then return .call [spelling] (← arguments inner)
      else return .call [spelling] []
  | "CASE" => some (caseTail inner)
  | "CAST" | "TRY_CAST" | "SAFE_CAST" => some (castTail inner)
  | "EXISTS" => some (existsTail inner)
  | "EXTRACT" => some (extractTail inner)
  | "CEIL" | "FLOOR" => some (roundingTail inner)
  | "POSITION" => some (positionTail inner)
  | "SUBSTRING" => some (substringTail inner)
  | "OVERLAY" => some (overlayTail inner)
  | "TRIM" => some (trimTail inner)
  | "INTERVAL" => some (intervalTail inner)
  | "ARRAY" => some do
    if ← symbol? "[" then arrayTail inner
    else inParentheses do return .query .array [] (← inner.query)
  | "STRUCT" => some (structTail inner)
  | "NOT" => some (notTail inner)
  | _ => none

/-! ## Operands -/

def moreNames : Nat → Parser (List String)
  | 0 => return []
  | fuel + 1 => do
    if ← symbol? "." then
      let name ← identifier
      return name :: (← moreNames fuel)
    else return []

/-- A name, a qualified name or a call, whose first word has been read. -/
def named (inner : Inner) (first : String) : Parser Expr := do
  let more ← moreNames ((← get).length + 1)
  let path := first :: more
  if ← symbol? "(" then callTail inner path else return .column path

/-- A literal with the name of its type in front, as in `DATE '2020-05-20'`. -/
def typedLiteral (inner : Inner) : Parser Expr := do
  match ← dataType with
  | .interval => intervalTail inner
  | .builtin =>
    stringLiteral
    return .literal
  | .custom => fail

/-- What an opening parenthesis begins: a subquery, a tuple or an expression in parentheses. -/
def parenthesized (inner : Inner) : Parser Expr := do
  let value ←
    if ← peekOneOf ["SELECT", "WITH"] then pure (.query .scalar [] (← inner.query))
    else
      match ← commaSeparated inner.expr with
      | [value] => pure (.operation .parenthesis [value])
      | values => pure (.operation .tuple values)
  expectSymbol ")"
  if ← symbol? "." then
    match ← next with
    | .word _ _ => return .operation .access [value]
    | _ => fail
  else return value

/-- A word as an operand. If what its keyword begins cannot be read, it is taken for a name. -/
def wordOperand (inner : Inner) (value spelling : String) : Parser Expr := fun tokens =>
  match keywordOperand inner spelling with
  | none => (named inner value).run tokens
  | some parser =>
    match parser.run tokens with
    | .ok result => .ok result
    | .error failure =>
      if ["EXISTS", "INTERVAL", "STRUCT", "TRIM"].contains spelling then .error failure
      else
        match (named inner value).run tokens with
        | .ok result => .ok result
        | .error _ => .error failure

def plainOperand (inner : Inner) : Parser Expr := do
  match ← attempt (typedLiteral inner) with
  | some typed => return typed
  | none =>
    match ← next with
    | .word value spelling => wordOperand inner value spelling
    | .number => return .literal
    | .string _ => return .literal
    | .literal => return .literal
    | .parameter => return .literal
    | .symbol "(" => parenthesized inner
    | .symbol "[" => arrayTail inner
    | .symbol "-" => return .operation (.unary "-") [← inner.binding signPrecedence]
    | .symbol "+" => return .operation (.unary "+") [← inner.binding signPrecedence]
    | .symbol ":" =>
      match ← next with
      | .word _ _ => return .literal
      | .number => return .literal
      | _ => fail
    | _ => fail

def operand (inner : Inner) : Parser Expr := do
  let value ← plainOperand inner
  if ← keyword? "COLLATE" then
    let _ ← objectName
    return .operation .collate [value]
  else return value

/-! ## Operators -/

def inTail (inner : Inner) (value : Expr) : Parser Expr := inParentheses do
  if ← peekOneOf ["SELECT", "WITH"] then return .query .membership [value] (← inner.query)
  else return .operation .inList (value :: (← commaSeparated inner.expr))

def betweenTail (inner : Inner) (value : Expr) : Parser Expr := do
  let low ← inner.binding betweenPrecedence
  expectKeyword "AND"
  let high ← inner.binding betweenPrecedence
  return .operation .between [value, low, high]

/-- `LIKE` or `ILIKE` and what follows it. -/
def likeTail (inner : Inner) (value : Expr) : Parser Expr := do
  let _ ← keyword? "ANY"
  let pattern ← inner.binding likePrecedence
  if ← keyword? "ESCAPE" then stringLiteral
  return .operation .like [value, pattern]

def isTail (inner : Inner) (value : Expr) : Parser Expr := do
  let _ ← keyword? "NOT"
  if (← oneOf? ["NULL", "TRUE", "FALSE", "UNKNOWN"]).isSome then return .operation .isTest [value]
  else if ← keywords? ["DISTINCT", "FROM"] then
    return .operation .isDistinct [value, ← inner.expr]
  else fail

/-- A test that `NOT` may negate. -/
def predicateTail (inner : Inner) (value : Expr) : Parser Expr := do
  let _ ← keyword? "NOT"
  match ← oneOf? ["IN", "BETWEEN", "LIKE", "ILIKE", "SIMILAR", "REGEXP", "RLIKE"] with
  | some "IN" => inTail inner value
  | some "BETWEEN" => betweenTail inner value
  | some "SIMILAR" =>
    expectKeyword "TO"
    likeTail inner value
  | some "REGEXP" => return .operation .like [value, ← inner.binding likePrecedence]
  | some "RLIKE" => return .operation .like [value, ← inner.binding likePrecedence]
  | some _ => likeTail inner value
  | none => fail

def binaryTail (inner : Inner) (value : Expr) (symbol : String) (precedence : Nat) :
    Parser Expr := do
  match ← oneOf? ["ANY", "ALL", "SOME"] with
  | some _ =>
    if !comparisonSymbols.contains symbol then fail
    let tokens ← get
    expectSymbol "("
    if ← peekOneOf ["SELECT", "WITH"] then
      set tokens
      return .operation (.quantified symbol) [value, ← inner.binding precedence]
    else
      let right ← inner.binding precedence
      expectSymbol ")"
      return .operation (.quantified symbol) [value, right]
  | none => return .operation (.binary symbol) [value, ← inner.binding precedence]

def subscriptTail (inner : Inner) (value : Expr) : Parser Expr := do
  if ← symbol? ":" then
    if ← symbol? "]" then return .operation .subscript [value]
    else
      let upper ← inner.expr
      expectSymbol "]"
      return .operation .subscript [value, upper]
  else
    let lower ← inner.expr
    if ← symbol? ":" then
      if ← symbol? "]" then return .operation .subscript [value, lower]
      else
        let upper ← inner.expr
        expectSymbol "]"
        return .operation .subscript [value, lower, upper]
    else
      expectSymbol "]"
      return .operation .subscript [value, lower]

/-- An operator after an expression, and its right side. -/
def extend (inner : Inner) (value : Expr) (precedence : Nat) : Parser Expr := do
  match ← get with
  | .symbol "::" :: rest =>
    set rest
    let _ ← dataType
    return .operation .cast [value]
  | .symbol "[" :: rest =>
    set rest
    subscriptTail inner value
  | .symbol text :: rest =>
    if binarySymbols.contains text then
      set rest
      binaryTail inner value text precedence
    else fail
  | .word _ "IS" :: rest =>
    set rest
    isTail inner value
  | .word _ "AT" :: rest =>
    set rest
    expectKeyword "TIME"
    expectKeyword "ZONE"
    return .operation .atTimeZone [value, ← inner.binding precedence]
  | .word _ spelling :: rest =>
    if ["AND", "OR", "XOR"].contains spelling then
      set rest
      binaryTail inner value spelling precedence
    else predicateTail inner value
  | _ => fail

/-- Operators after an expression that bind more tightly than a precedence, at most `fuel`. -/
def extendWhile (inner : Inner) (precedence : Nat) : Nat → Expr → Parser Expr
  | 0, value => return value
  | fuel + 1, value => do
    let following := operatorPrecedence (← get)
    if precedence < following then
      extendWhile inner precedence fuel (← extend inner value following)
    else return value

/-- An expression whose operators bind more tightly than a precedence. -/
def expression (inner : Inner) (precedence : Nat) : Parser Expr := do
  let first ← operand inner
  extendWhile inner precedence ((← get).length + 1) first

/-! ## Select lists -/

/-- What may follow a star in a select list: the columns that it leaves out. -/
def starOptions : Parser Unit := do
  if (← oneOf? ["EXCLUDE", "EXCEPT"]).isSome then
    if ← peekSymbol "(" then
      let _ ← columnNames
    else
      let _ ← identifier

def selectItem (inner : Inner) : Parser SelectItem := do
  let unquotedFrom := (← peekOneOf ["FROM"])
  match ← starred inner with
  | .star =>
    starOptions
    return .wildcard
  | .value (.column [name]) =>
    if unquotedFrom then fail
    return .expression (.column [name]) (← alias? reservedForColumnAlias)
  | .value value => return .expression value (← alias? reservedForColumnAlias)

def returning? (inner : Inner) : Parser (List SelectItem) := do
  if ← keyword? "RETURNING" then commaSeparated (selectItem inner) else return []

def where? (inner : Inner) : Parser (List Expr) := do
  if ← keyword? "WHERE" then return [← inner.expr] else return []

end RepoPolicy.Sql.Grammar
