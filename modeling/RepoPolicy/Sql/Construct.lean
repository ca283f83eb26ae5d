import RepoPolicy.Text.Scan

set_option autoImplicit false

/-! # Constructs that text analysis does not certify

Common table expressions and subqueries are recognised in normalized SQL, and the names that a
`WITH` clause binds are read off it. -/

namespace RepoPolicy.Sql

open RepoPolicy.Text RepoPolicy.Text.Scanner

/-- A shape of SQL that the text-level checks refuse to certify. -/
inductive Construct where
  /-- `WITH name AS (...)` -/
  | commonTableExpression
  /-- `(SELECT ...)` -/
  | subquery
  deriving DecidableEq, Repr

def Construct.label : Construct → String
  | .commonTableExpression => "CTE (WITH ... AS)"
  | .subquery => "subquery ((SELECT ...))"

/-- A letter of the basic alphabet, whatever its case, or `_`. -/
def startsCteName (c : Char) : Bool := let f := fold c; f.isLower || f == '_'

/-- A character that may follow in the name of a common table expression. -/
def continuesCteName (c : Char) : Bool := startsCteName c || c.isDigit

def cteName : Scanner :=
  orElse
    (sequence [exactly '"', many1 (· != '"'), exactly '"'])
    (andThen (char startsCteName) (many continuesCteName))

/-- What stands between `WITH` and the first name. -/
def withKeyword : Scanner :=
  sequence [keyword "with", blanks1, optional (andThen (letters "recursive") blanks1)]

/-- What stands between a name and the text of its query, the parenthesis that opens it
included. -/
def cteOpening : Scanner :=
  sequence [
    blanks,
    optional (sequence [exactly '(', many (· != ')'), exactly ')', blanks]),
    letters "as",
    blanks,
    optional (oneOf [
      sequence [letters "not", blanks1, letters "materialized", blanks],
      andThen (letters "materialized") blanks]),
    exactly '(']

def withClause : Scanner := sequence [withKeyword, cteName, cteOpening]

/-- What stands before a name that a `WITH` clause binds. -/
def cteLead : Scanner := orElse withKeyword (andThen (exactly ',') blanks)

/-- A name that a `WITH` clause binds, from what stands before it to its opening parenthesis. -/
def cteBinding : Scanner := sequence [cteLead, cteName, cteOpening]

/-- The name in a binding that starts at a place: the first way to read the binding counts. -/
def boundName (start : Place) : Option (List Char) :=
  (cteLead start).findSome? fun lead =>
    (cteName lead).findSome? fun stop =>
      if (cteOpening stop).isEmpty then none else some (lead.upTo stop)

def subqueryOpening : Scanner :=
  sequence [exactly '(', blanks, letters "select", wordEdge]

/-- The constructs of a normalized SQL text that cannot be certified. -/
def unsupported (normalized : String) : List Construct :=
  let text := normalized.toList
  (if occursIn withClause text then [.commonTableExpression] else []) ++
    (if occursIn subqueryOpening text then [.subquery] else [])

/-- The names bound by the `WITH` clauses of a normalized SQL text, in lower case and in the order
in which they appear. -/
def cteNames (normalized : String) : List String :=
  let text := normalized.toList
  if occursIn withClause text then
    (occurrences cteBinding text).filterMap fun found =>
      (boundName found.start).map fun name =>
        lowercase (String.ofList (strip (· == '"') name))
  else []

end RepoPolicy.Sql
