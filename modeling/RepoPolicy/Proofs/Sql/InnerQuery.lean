import RepoPolicy.Sql.Syntax

set_option autoImplicit false

/-! # Queries inside statements

`innerQueries` lists the queries that stand in parentheses inside a syntax tree: those that a `WITH`
clause binds, derived tables, and the queries of expressions. A query that is the whole statement, or
an operand of a set operator, is not one of them. `startsWithSelect` says whether the first word of a
query is `SELECT`, the parentheses before it left out. -/

namespace RepoPolicy.Sql

mutual

def Expr.innerQueries : Expr → List Query
  | .column _ => []
  | .literal => []
  | .operation _ operands => innerOfExprs operands
  | .call _ arguments => innerOfExprs arguments
  | .query _ operands query => innerOfExprs operands ++ query :: query.innerQueries

def innerOfExprs : List Expr → List Query
  | [] => []
  | e :: es => e.innerQueries ++ innerOfExprs es

def Query.innerQueries : Query → List Query
  | .mk ctes body clauses => innerOfCtes ctes ++ body.innerQueries ++ innerOfExprs clauses

/-- The queries that a `WITH` clause binds, and those inside them. -/
def innerOfCtes : List Cte → List Query
  | [] => []
  | .mk _ query :: ctes => query :: query.innerQueries ++ innerOfCtes ctes

def Body.innerQueries : Body → List Query
  | .select items sources clauses =>
    innerOfItems items ++ innerOfSources sources ++ innerOfExprs clauses
  | .values values => innerOfExprs values
  | .nested query => query.innerQueries
  | .combined left right => left.innerQueries ++ right.innerQueries
  | .change statement => statement.innerQueries

def innerOfItems : List SelectItem → List Query
  | [] => []
  | .wildcard :: items => innerOfItems items
  | .expression value _ :: items => value.innerQueries ++ innerOfItems items

def Source.innerQueries : Source → List Query
  | .table _ _ => []
  | .call _ arguments _ => innerOfExprs arguments
  | .derived query _ => query :: query.innerQueries
  | .expressions values _ => innerOfExprs values
  | .join left right condition =>
    left.innerQueries ++ right.innerQueries ++ innerOfExprs condition

def innerOfSources : List Source → List Query
  | [] => []
  | s :: ss => s.innerQueries ++ innerOfSources ss

def Statement.innerQueries : Statement → List Query
  | .query query => query.innerQueries
  | .insert _ source clauses returning =>
    (match source with
      | some query => query.innerQueries
      | none => []) ++ innerOfExprs clauses ++ innerOfItems returning
  | .update target sources clauses returning =>
    target.innerQueries ++ innerOfSources sources ++ innerOfExprs clauses ++ innerOfItems returning
  | .delete sources clauses returning =>
    innerOfSources sources ++ innerOfExprs clauses ++ innerOfItems returning

end

mutual

def Query.startsWithSelect : Query → Bool
  | .mk [] body _ => body.startsWithSelect
  | .mk (_ :: _) _ _ => false

/-- Whether the first word of the body of a query is `SELECT`. -/
def Body.startsWithSelect : Body → Bool
  | .select _ _ _ => true
  | .values _ => false
  | .nested query => query.startsWithSelect
  | .combined left _ => left.startsWithSelect
  | .change _ => false

end

end RepoPolicy.Sql
