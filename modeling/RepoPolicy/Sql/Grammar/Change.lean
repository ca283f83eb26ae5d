import RepoPolicy.Sql.Grammar.Source

set_option autoImplicit false

/-! # The grammar of statements that change data -/

namespace RepoPolicy.Sql.Grammar

def assignment (inner : Inner) : Parser Expr := do
  if ← symbol? "(" then
    let _ ← commaSeparated objectName
    expectSymbol ")"
  else
    let _ ← objectName
  expectSymbol "="
  inner.expr

/-- What `ON CONFLICT` or `ON DUPLICATE KEY` asks for, if it follows. -/
def onConflict? (inner : Inner) : Parser (List Expr) := do
  if ← keyword? "ON" then
    if ← keyword? "CONFLICT" then
      if ← keywords? ["ON", "CONSTRAINT"] then
        let _ ← objectName
      else if ← peekSymbol "(" then
        let _ ← columnNames
      expectKeyword "DO"
      if ← keyword? "NOTHING" then return []
      else
        expectKeyword "UPDATE"
        expectKeyword "SET"
        let values ← commaSeparated (assignment inner)
        return values ++ (← where? inner)
    else
      expectKeyword "DUPLICATE"
      expectKeyword "KEY"
      expectKeyword "UPDATE"
      commaSeparated (assignment inner)
  else return []

/-- Whether a query in parentheses comes next. -/
def peekSubquery : Parser Bool := do
  match ← get with
  | .symbol "(" :: token :: _ => return token.isKeyword "SELECT"
  | _ => return false

def insertTail (inner : Inner) : Parser Statement := do
  if ← keyword? "OR" then
    let _ ← expectOneOf ["REPLACE", "ROLLBACK", "ABORT", "FAIL", "IGNORE"]
  let _ ← oneOf? ["LOW_PRIORITY", "DELAYED", "HIGH_PRIORITY"]
  let _ ← keyword? "IGNORE"
  let _ ← keyword? "OVERWRITE"
  let _ ← keyword? "INTO"
  let _ ← keyword? "TABLE"
  let target ← objectName
  let source ←
    if ← keywords? ["DEFAULT", "VALUES"] then pure none
    else
      if !(← peekSubquery) then
        if ← peekSymbol "(" then
          let _ ← columnNames
      pure (some (← inner.query))
  if ← keyword? "AS" then
    let _ ← objectName
    if ← peekSymbol "(" then
      let _ ← columnNames
  let clauses ← onConflict? inner
  return .insert target source clauses (← returning? inner)

def updateTail (inner : Inner) : Parser Statement := do
  if ← keyword? "OR" then
    let _ ← expectOneOf ["REPLACE", "ROLLBACK", "ABORT", "FAIL", "IGNORE"]
  let target ← joinedSource inner
  expectKeyword "SET"
  let values ← commaSeparated (assignment inner)
  let sources ← if ← keyword? "FROM" then pure [← joinedSource inner] else pure []
  let condition ← where? inner
  return .update target sources (values ++ condition) (← returning? inner)

def deleteTail (inner : Inner) : Parser Statement := do
  let _ ← keyword? "FROM"
  let targets ← commaSeparated (joinedSource inner)
  let others ← if ← keyword? "USING" then commaSeparated (joinedSource inner) else pure []
  let condition ← where? inner
  let returning ← returning? inner
  let order ← orderBy? inner
  let limit ←
    if ← keyword? "LIMIT" then
      if ← keyword? "ALL" then pure [] else pure [← inner.expr]
    else pure []
  return .delete (targets ++ others) (condition ++ order ++ limit) returning

end RepoPolicy.Sql.Grammar
