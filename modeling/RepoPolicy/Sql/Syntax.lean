set_option autoImplicit false

/-! # Syntax trees of SQL

The trees keep what an analysis of tables, nesting and projections asks for: every expression and
every query is a node of its own, relations and names are kept as they are written without their
quotes, and clauses that only hold expressions keep them as a list.

Statements are queries, `INSERT`, `UPDATE` and `DELETE`. There are no trees for other statements, such
as `MERGE`, `CREATE`, `EXPLAIN` and `TRUNCATE`, for a query that is just `TABLE t`, or for what some
dialects write behind the name of a table: hints, samples and pivots. A text with any of these in it
has no tree, as if it were no SQL, and its tables are not certified by way of one. -/

namespace RepoPolicy.Sql

inductive Operator where
  /-- An expression in parentheses. -/
  | parenthesis
  | tuple
  /-- A sign or `NOT`. -/
  | unary (symbol : String)
  | binary (symbol : String)
  /-- A comparison with `ANY` or `ALL`. -/
  | quantified (symbol : String)
  /-- `IS NULL`, `IS TRUE` and the like. -/
  | isTest
  | isDistinct
  | inList
  | between
  | like
  | cast
  | collate
  | atTimeZone
  /-- `CASE`, with its operand, conditions and results. -/
  | branch
  | extract
  | substring
  | trim
  | position
  | overlay
  | interval
  | array
  | subscript
  /-- A field of a parenthesized expression. -/
  | access
  /-- Grouping sets, with the columns of all of them. -/
  | grouping
  deriving DecidableEq, Repr

/-- What an expression does with the query inside it. -/
inductive QueryUse where
  | scalar
  | exists
  | membership
  | array
  deriving DecidableEq, Repr

mutual

inductive Expr where
  /-- A name, with the names that qualify it in front. -/
  | column (path : List String)
  /-- A literal or a parameter. -/
  | literal
  | operation (operator : Operator) (operands : List Expr)
  /-- A call, with its arguments and the expressions of its window and other clauses. -/
  | call (name : List String) (arguments : List Expr)
  | query (use : QueryUse) (operands : List Expr) (query : Query)

/-- A query: its `WITH` clause, its body, and the expressions of the clauses that follow. -/
inductive Query where
  | mk (ctes : List Cte) (body : Body) (clauses : List Expr)

/-- A name that a `WITH` clause binds, and its query. -/
inductive Cte where
  | mk (name : String) (query : Query)

inductive Body where
  | select (items : List SelectItem) (sources : List Source) (clauses : List Expr)
  | values (values : List Expr)
  /-- A query in parentheses. -/
  | nested (query : Query)
  /-- `UNION`, `EXCEPT` or `INTERSECT`. -/
  | combined (left right : Body)
  /-- A statement that changes data, below a `WITH` clause. -/
  | change (statement : Statement)

inductive SelectItem where
  /-- `*` or `t.*` -/
  | wildcard
  | expression (value : Expr) (alias? : Option String)

inductive Source where
  | table (name : List String) (alias? : Option String)
  /-- A call that returns rows. -/
  | call (name : List String) (arguments : List Expr) (alias? : Option String)
  /-- A query in parentheses. -/
  | derived (query : Query) (alias? : Option String)
  /-- A source that is made from expressions and names no relation. -/
  | expressions (values : List Expr) (alias? : Option String)
  | join (left right : Source) (condition : List Expr)

inductive Statement where
  | query (query : Query)
  | insert (target : List String) (source : Option Query) (clauses : List Expr)
      (returning : List SelectItem)
  | update (target : Source) (sources : List Source) (clauses : List Expr)
      (returning : List SelectItem)
  | delete (sources : List Source) (clauses : List Expr) (returning : List SelectItem)

end

def Source.alias? : Source → Option String
  | .table _ a => a
  | .call _ _ a => a
  | .derived _ a => a
  | .expressions _ a => a
  | .join _ _ _ => none

/-- The source under another alias. A join keeps none. -/
def Source.withAlias (a : Option String) : Source → Source
  | .table name _ => .table name a
  | .call name arguments _ => .call name arguments a
  | .derived query _ => .derived query a
  | .expressions values _ => .expressions values a
  | .join left right condition => .join left right condition

def Source.isJoin : Source → Bool
  | .join _ _ _ => true
  | _ => false

end RepoPolicy.Sql
