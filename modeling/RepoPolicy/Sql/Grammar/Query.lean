import RepoPolicy.Sql.Grammar.Change

set_option autoImplicit false

/-! # The grammar of queries and statements

`statements` reads a whole SQL text. Queries and expressions may be nested 50 deep, the statement
itself included.

A statement starts with `SELECT`, `WITH`, `VALUES`, `INSERT`, `REPLACE`, `UPDATE`, `DELETE` or an
opening parenthesis. Any other is refused: `MERGE`, `CREATE`, `ALTER`, `DROP`, `EXPLAIN`, `TRUNCATE`,
`CALL` and the rest. The body of a query is a `SELECT`, a list of rows or a query in parentheses;
`TABLE t` is refused, and so is a `DELETE` below a `WITH` clause. -/

namespace RepoPolicy.Sql.Grammar

/-! ## SELECT -/

def distinct? (inner : Inner) : Parser (List Expr) := do
  let all ← keyword? "ALL"
  if ← keyword? "DISTINCT" then
    if all then fail
    else if ← keyword? "ON" then
      expectSymbol "("
      if ← symbol? ")" then return []
      else
        let values ← commaSeparated inner.expr
        expectSymbol ")"
        return values
    else return []
  else return []

def top? (inner : Inner) : Parser (List Expr) := do
  if ← keyword? "TOP" then
    let quantity ←
      if ← symbol? "(" then
        let value ← inner.expr
        expectSymbol ")"
        pure [value]
      else
        match ← next with
        | .number => pure []
        | _ => fail
    let _ ← keyword? "PERCENT"
    let _ ← keywords? ["WITH", "TIES"]
    return quantity
  else return []

/-- The columns of a grouping set in parentheses, which may be none. -/
def groupingSet (inner : Inner) : Parser (List Expr) := do
  expectSymbol "("
  if ← symbol? ")" then return []
  else
    let values ← commaSeparated inner.expr
    expectSymbol ")"
    return values

def groupItem (inner : Inner) : Parser Expr := do
  if ← keywords? ["GROUPING", "SETS"] then
    let sets ← inParentheses (commaSeparated (groupingSet inner))
    return .operation .grouping sets.flatten
  else if (← oneOf? ["CUBE", "ROLLUP"]).isSome then
    let sets ← inParentheses do
      commaSeparated do
        if ← peekSymbol "(" then groupingSet inner else return [← inner.expr]
    return .operation .grouping sets.flatten
  else
    match ← get with
    | .symbol "(" :: .symbol ")" :: rest =>
      set rest
      return .operation .tuple []
    | _ => inner.expr

def groupBy? (inner : Inner) : Parser (List Expr) := do
  if ← keywords? ["GROUP", "BY"] then
    let values ←
      if ← keyword? "ALL" then pure [] else commaSeparated (groupItem inner)
    if ← keyword? "WITH" then
      let _ ← expectOneOf ["ROLLUP", "CUBE", "TOTALS"]
    return values
  else return []

def windows? (inner : Inner) : Parser (List Expr) := do
  if ← keyword? "WINDOW" then
    let windows ← commaSeparated do
      let _ ← identifier
      expectKeyword "AS"
      if ← symbol? "(" then windowSpecification inner
      else
        let _ ← identifier
        return []
    return windows.flatten
  else return []

/-- An expression after a keyword, if the keyword comes next. -/
def clause? (inner : Inner) (keyword : String) : Parser (List Expr) := do
  if ← keyword? keyword then return [← inner.expr] else return []

def selectTail (inner : Inner) : Parser Body := do
  let distinct ← distinct? inner
  let top ← top? inner
  let items ← commaSeparated (selectItem inner)
  if ← keyword? "INTO" then
    let _ ← oneOf? ["TEMPORARY", "TEMP"]
    let _ ← keyword? "UNLOGGED"
    let _ ← keyword? "TABLE"
    let _ ← objectName
  let sources ← if ← keyword? "FROM" then commaSeparated (joinedSource inner) else pure []
  let condition ← where? inner
  let groups ← groupBy? inner
  let having ← clause? inner "HAVING"
  let windows ← windows? inner
  let qualify ← clause? inner "QUALIFY"
  let clauses := distinct ++ top ++ condition ++ groups ++ having ++ windows ++ qualify
  return .select items sources clauses

/-! ## Bodies of queries -/

/-- The body of a query without set operators. -/
def simpleBody (inner : Inner) : Parser Body := do
  if ← keyword? "SELECT" then selectTail inner
  else if ← symbol? "(" then
    let query ← inner.query
    expectSymbol ")"
    return .nested query
  else if ← keyword? "VALUES" then return .values (← rows inner)
  else fail

/-- `ALL` or `DISTINCT` after a set operator, if it follows. -/
def setQuantifier? : Parser Unit := do
  if !(← keyword? "ALL") then
    let _ ← keyword? "DISTINCT"
  let _ ← keywords? ["BY", "NAME"]

def intersections (inner : Inner) : Nat → Body → Parser Body
  | 0, left => return left
  | fuel + 1, left => do
    if ← keyword? "INTERSECT" then
      setQuantifier?
      let right ← simpleBody inner
      intersections inner fuel (.combined left right)
    else return left

/-- A body with the set operator that binds more tightly. -/
def intersectionBody (inner : Inner) : Parser Body := do
  let first ← simpleBody inner
  intersections inner ((← get).length + 1) first

def unions (inner : Inner) : Nat → Body → Parser Body
  | 0, left => return left
  | fuel + 1, left => do
    match ← oneOf? ["UNION", "EXCEPT"] with
    | some _ =>
      setQuantifier?
      let right ← intersectionBody inner
      unions inner fuel (.combined left right)
    | none => return left

def body (inner : Inner) : Parser Body := do
  let first ← intersectionBody inner
  unions inner ((← get).length + 1) first

/-! ## Queries -/

def cte (inner : Inner) : Parser Cte := do
  let name ← identifier
  if !(← keyword? "AS") then
    if ← symbol? "(" then
      let _ ← commaSeparated do
        let _ ← identifier
        attempt dataType
      expectSymbol ")"
    expectKeyword "AS"
  let query ← inParentheses inner.query
  if ← keyword? "FROM" then
    let _ ← identifier
  return .mk name query

def with? (inner : Inner) : Parser (List Cte) := do
  if ← keyword? "WITH" then
    let _ ← keyword? "RECURSIVE"
    commaSeparated (cte inner)
  else return []

/-- `LIMIT` and `OFFSET` in either order, each at most once. -/
def limits (inner : Inner) : Parser (List Expr) := do
  let limit : Parser (List Expr) := do
    if ← keyword? "ALL" then return [] else return [← inner.expr]
  let offset : Parser (List Expr) := do
    let value ← inner.expr
    let _ ← oneOf? ["ROW", "ROWS"]
    return [value]
  if ← keyword? "LIMIT" then
    let values ← limit
    if ← keyword? "OFFSET" then return values ++ (← offset)
    else if values.isEmpty then return values
    else if ← symbol? "," then return values ++ [← inner.expr]
    else return values
  else if ← keyword? "OFFSET" then
    let values ← offset
    if ← keyword? "LIMIT" then return values ++ (← limit) else return values
  else return []

def fetch? : Parser (List Expr) := do
  if ← keyword? "FETCH" then
    let _ ← expectOneOf ["FIRST", "NEXT"]
    let quantity ←
      if (← oneOf? ["ROW", "ROWS"]).isSome then pure []
      else
        constant
        let _ ← keyword? "PERCENT"
        let _ ← expectOneOf ["ROW", "ROWS"]
        pure [.literal]
    if !(← keyword? "ONLY") then
      let _ ← keywords? ["WITH", "TIES"]
    return quantity
  else return []

def locks : Nat → Parser Unit
  | 0 => return
  | fuel + 1 => do
    if ← keyword? "FOR" then
      let _ ← expectOneOf ["UPDATE", "SHARE"]
      if ← keyword? "OF" then
        let _ ← objectName
      if !(← keyword? "NOWAIT") then
        let _ ← keywords? ["SKIP", "LOCKED"]
      locks fuel

def query (inner : Inner) : Parser Query := do
  let ctes ← with? inner
  if ← keyword? "INSERT" then return .mk ctes (.change (← insertTail inner)) []
  else if ← keyword? "UPDATE" then return .mk ctes (.change (← updateTail inner)) []
  else
    let body ← body inner
    let order ← orderBy? inner
    let limits ← limits inner
    let fetch ← fetch?
    locks ((← get).length + 1)
    return .mk ctes body (order ++ limits ++ fetch)

/-- The parsers of a level at which queries and expressions may be nested this much deeper. -/
def level : Nat → Inner
  | 0 => ⟨fun _ => throw .tooDeep, throw .tooDeep, throw .tooDeep⟩
  | depth + 1 =>
    let inner := level depth
    ⟨expression inner, query inner, joinedSource inner⟩

/-! ## Statements -/

/-- How deeply statements, queries and expressions may be nested. -/
def depthLimit : Nat := 50

def statement : Parser Statement := do
  let inner := level (depthLimit - 1)
  match ← get with
  | .symbol "(" :: _ => return .query (← inner.query)
  | .word _ spelling :: rest =>
    if ["SELECT", "WITH", "VALUES"].contains spelling then return .query (← inner.query)
    else if spelling == "INSERT" || spelling == "REPLACE" then
      set rest
      insertTail inner
    else if spelling == "UPDATE" then
      set rest
      updateTail inner
    else if spelling == "DELETE" then
      set rest
      deleteTail inner
    else fail
  | _ => fail

/-- Statements with semicolons between them, at most `fuel` steps. `separated` says that a statement
may begin here; after a statement, the text also ends where the word `END` stands. -/
def statementsFrom : Nat → Bool → Parser (List Statement)
  | 0, _ => fail
  | fuel + 1, separated => do
    match ← get with
    | [] => return []
    | .symbol ";" :: rest =>
      set rest
      statementsFrom fuel true
    | token :: _ =>
      if separated then
        let first ← statement
        return first :: (← statementsFrom fuel false)
      else if token.isKeyword "END" then return []
      else fail

def statements (tokens : List Token) : Except SyntaxError (List Statement) := do
  let (found, _) ← (statementsFrom (tokens.length + 1) true).run tokens
  return found

end RepoPolicy.Sql.Grammar
