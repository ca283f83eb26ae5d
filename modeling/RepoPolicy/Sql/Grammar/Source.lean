import RepoPolicy.Sql.Grammar.Expression

set_option autoImplicit false

/-! # The grammar of sources

What stands in a `FROM` clause: tables, calls that return rows, derived tables and joins. Behind the
name of a table there may be a partition and an alias. Hints (`WITH (NOLOCK)`), samples, pivots,
versions and lateral views are refused. -/

namespace RepoPolicy.Sql.Grammar

def sourceAlias? : Parser (Option String) := do
  match ← alias? reservedForTableAlias with
  | some name =>
    if ← symbol? "(" then
      let _ ← commaSeparated do
        let _ ← identifier
        attempt dataType
      expectSymbol ")"
    return some name
  | none => return none

/-- The arguments of a call in a `FROM` clause, up to the closing parenthesis. -/
def sourceArguments (inner : Inner) : Parser (List Expr) := do
  if ← symbol? ")" then return []
  else
    let values ← commaSeparated (argument inner)
    expectSymbol ")"
    return values.flatten

/-- A derived table whose opening parenthesis has been read. -/
def derivedTail (inner : Inner) : Parser Source := do
  let query ← inner.query
  expectSymbol ")"
  return .derived query (← sourceAlias?)

def rows (inner : Inner) : Parser (List Expr) := do
  let rows ← commaSeparated do
    let _ ← keyword? "ROW"
    inParentheses (commaSeparated inner.expr)
  return rows.flatten

/-- A parenthesis that opens no derived table: a join, or a source in parentheses. -/
def parenthesizedSource (inner : Inner) : Parser Source := do
  let source ← inner.source
  expectSymbol ")"
  let outer ← sourceAlias?
  if source.isJoin then return source
  else
    match outer, source.alias? with
    | some _, some _ => fail
    | some name, none => return source.withAlias (some name)
    | none, _ => return source

def lateralTail (inner : Inner) : Parser Source := do
  if ← symbol? "(" then derivedTail inner
  else
    let _ ← objectName
    expectSymbol "("
    let arguments ← sourceArguments inner
    return .expressions arguments (← sourceAlias?)

def namedSource (inner : Inner) : Parser Source := do
  let name ← objectName
  if ← keyword? "PARTITION" then
    let _ ← columnNames
  let arguments ← if ← symbol? "(" then pure (some (← sourceArguments inner)) else pure none
  let _ ← keywords? ["WITH", "ORDINALITY"]
  let given ← sourceAlias?
  match arguments with
  | some arguments => return .call name arguments given
  | none => return .table name given

def source (inner : Inner) : Parser Source := do
  if ← keyword? "LATERAL" then lateralTail inner
  else if ← keyword? "TABLE" then
    let value ← inParentheses inner.expr
    return .expressions [value] (← sourceAlias?)
  else if ← symbol? "(" then
    match ← attempt (derivedTail inner) with
    | some derived => return derived
    | none => parenthesizedSource inner
  else
    match ← get with
    | .word _ "VALUES" :: .symbol "(" :: _ =>
      expectKeyword "VALUES"
      let values ← rows inner
      return .derived (.mk [] (.values values) []) (← sourceAlias?)
    | .word _ "UNNEST" :: rest =>
      set rest
      let values ← inParentheses (commaSeparated inner.expr)
      let _ ← keywords? ["WITH", "ORDINALITY"]
      let given ← sourceAlias?
      if ← keywords? ["WITH", "OFFSET"] then
        let _ ← alias? reservedForColumnAlias
      return .expressions values given
    | _ => namedSource inner

/-! ## Joins -/

def joinCondition? (inner : Inner) : Parser (List Expr) := do
  if ← keyword? "ON" then return [← inner.expr]
  else if ← keyword? "USING" then
    let _ ← columnNames
    return []
  else return []

/-- What kind of join comes next. -/
inductive JoinStart where
  | none
  /-- A join without a condition. -/
  | cross
  | conditional
  | natural

/-- The keywords that begin a join, if they come next. -/
def joinStart : Parser JoinStart := do
  if ← keyword? "CROSS" then
    let _ ← expectOneOf ["JOIN", "APPLY"]
    return .cross
  else if ← keyword? "OUTER" then
    expectKeyword "APPLY"
    return .cross
  else
    let natural ← keyword? "NATURAL"
    let found : JoinStart := if natural then .natural else .conditional
    match ← oneOf? ["INNER", "JOIN", "LEFT", "RIGHT", "FULL", "SEMI", "ANTI"] with
    | some "JOIN" => return found
    | some "LEFT" | some "RIGHT" =>
      let _ ← oneOf? ["OUTER", "SEMI", "ANTI"]
      expectKeyword "JOIN"
      return found
    | some "FULL" =>
      let _ ← keyword? "OUTER"
      expectKeyword "JOIN"
      return found
    | some _ =>
      expectKeyword "JOIN"
      return found
    | none => if natural then fail else return .none

/-- Joins after a source, at most `fuel`. A join that follows without a condition in between is
nested to the right. -/
def joins (inner : Inner) : Nat → Source → Parser Source
  | 0, left => return left
  | fuel + 1, left => do
    let _ ← keyword? "GLOBAL"
    match ← joinStart with
    | .none => return left
    | .cross =>
      let right ← source inner
      joins inner fuel (.join left right [])
    | start =>
      let right ← source inner
      let right ←
        if ← peekOneOf ["JOIN", "INNER", "LEFT", "RIGHT", "FULL"] then joins inner fuel right
        else pure right
      let condition ←
        match start with
        | .natural => pure []
        | _ => joinCondition? inner
      joins inner fuel (.join left right condition)

def joinedSource (inner : Inner) : Parser Source := do
  let first ← source inner
  joins inner ((← get).length + 1) first

end RepoPolicy.Sql.Grammar
