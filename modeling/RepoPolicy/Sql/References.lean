import RepoPolicy.Sql.NormalForm
import RepoPolicy.Sql.Token
import RepoPolicy.Text.LetterCase
import RepoPolicy.Text.NameSet

set_option autoImplicit false

/-! # The tables a SQL text refers to

Finding the tables of a statement gives its `References`, or says why they cannot be found. -/

namespace RepoPolicy.Sql

open RepoPolicy.Text

/-- The relations that a SQL text refers to. -/
structure References where
  /-- The names of the relations as they are written, with their schemas and without quotes. -/
  tables : NameSet
  /-- The names that `WITH` clauses bind, in lower case. -/
  cteNames : NameSet
  deriving DecidableEq, Repr

/-- The tables that are not bound by a `WITH` clause. -/
def References.realTables (references : References) : NameSet :=
  references.tables.filter fun table => !references.cteNames.contains (lowercase table)

/-- Why the tables of a SQL text cannot be found. -/
inductive ExtractionError where
  | empty
  | unterminated (quote : OpenQuote)
  /-- Parentheses are nested more deeply than the limit allows. -/
  | parenthesesTooDeep (deepest limit : Nat)
  /-- The text is not SQL. -/
  | notSql (cause : SyntaxError)
  /-- The syntax tree is deeper than the limit allows. -/
  | treeTooDeep (limit : Nat)
  deriving DecidableEq, Repr

def ExtractionError.message : ExtractionError → String
  | .empty => "SQL statement is empty"
  | .unterminated quote => "unterminated " ++ quote.label
  | .parenthesesTooDeep deepest limit =>
    "parenthesis nesting depth " ++ toString deepest ++ " exceeds limit " ++ toString limit
  | .notSql cause => "parse error: sql parser error: " ++ cause.message
  | .treeTooDeep limit => "AST nesting depth exceeds limit " ++ toString limit

end RepoPolicy.Sql
