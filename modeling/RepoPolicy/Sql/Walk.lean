import RepoPolicy.Sql.Grammar.Query
import RepoPolicy.Sql.Lexer
import RepoPolicy.Sql.References

set_option autoImplicit false

/-! # Finding tables in syntax trees

A walk through a syntax tree is a list of steps: into and out of every query and every expression,
and past every source, every name of a relation and every name that a `WITH` clause binds. A
`Collector` follows a walk. It counts how deep it is, stops when it is deeper than a limit, and
remembers of a source that it is a call, so that the name which comes next is passed over. -/

namespace RepoPolicy.Sql

open RepoPolicy.Text

/-- A step of a walk through a syntax tree. -/
inductive Step where
  /-- Into a query or an expression. -/
  | enter
  /-- Out of a query or an expression. -/
  | leave
  /-- Past a source that is no join, and whether it is a call. -/
  | source (isCall : Bool)
  /-- Past the name of a relation, or of a call that returns rows. -/
  | relation (name : List String)
  /-- Past a name that a `WITH` clause binds. -/
  | binding (name : String)
  deriving DecidableEq, Repr

mutual

def Expr.walk : Expr → List Step
  | .column _ => [.enter, .leave]
  | .literal => [.enter, .leave]
  | .operation _ operands => .enter :: walkExprs operands ++ [.leave]
  | .call _ arguments => .enter :: walkExprs arguments ++ [.leave]
  | .query _ operands query => .enter :: walkExprs operands ++ query.walk ++ [.leave]

def walkExprs : List Expr → List Step
  | [] => []
  | e :: es => e.walk ++ walkExprs es

def Query.walk : Query → List Step
  | .mk ctes body clauses => .enter :: walkCtes ctes ++ body.walk ++ walkExprs clauses ++ [.leave]

def walkCtes : List Cte → List Step
  | [] => []
  | .mk name query :: ctes => .binding name :: query.walk ++ walkCtes ctes

def Body.walk : Body → List Step
  | .select items sources clauses => walkItems items ++ walkSources sources ++ walkExprs clauses
  | .values values => walkExprs values
  | .nested query => query.walk
  | .combined left right => left.walk ++ right.walk
  | .change statement => statement.walk

def walkItems : List SelectItem → List Step
  | [] => []
  | .wildcard :: items => walkItems items
  | .expression value _ :: items => value.walk ++ walkItems items

def Source.walk : Source → List Step
  | .table name _ => [.source false, .relation name]
  | .call name arguments _ => .source true :: .relation name :: walkExprs arguments
  | .derived query _ => .source false :: query.walk
  | .expressions values _ => .source false :: walkExprs values
  | .join left right condition => left.walk ++ right.walk ++ walkExprs condition

def walkSources : List Source → List Step
  | [] => []
  | s :: ss => s.walk ++ walkSources ss

def Statement.walk : Statement → List Step
  | .query query => query.walk
  | .insert target source clauses returning =>
    .relation target ::
      (match source with
        | some query => query.walk
        | none => []) ++ walkExprs clauses ++ walkItems returning
  | .update target sources clauses returning =>
    target.walk ++ walkSources sources ++ walkExprs clauses ++ walkItems returning
  | .delete sources clauses returning =>
    walkSources sources ++ walkExprs clauses ++ walkItems returning

end

/-- What has been found on a walk so far. -/
structure Collector where
  /-- How many queries and expressions the walk is inside of. -/
  depth : Nat
  /-- Whether the walk has come to a call, whose name is to follow. -/
  atCall : Bool
  tables : NameSet
  cteNames : NameSet
  deriving DecidableEq, Repr

namespace Collector

/-- Nothing has been found before the first step. -/
def start : Collector := ⟨0, false, [], []⟩

/-- Take a step, which must not go deeper than the limit. The name of a call is no table. -/
def take (limit : Nat) (found : Collector) : Step → Option Collector
  | .enter => if limit ≤ found.depth then none else some { found with depth := found.depth + 1 }
  | .leave => some { found with depth := found.depth - 1 }
  | .source isCall => some { found with atCall := isCall }
  | .relation name =>
    if found.atCall then some { found with atCall := false }
    else some { found with tables := NameSet.insert (".".intercalate name) found.tables }
  | .binding name => some { found with cteNames := NameSet.insert (lowercase name) found.cteNames }

def references (found : Collector) : References := ⟨found.tables, found.cteNames⟩

end Collector

/-- Follow a walk, no deeper than the limit. -/
def collect (limit : Nat) (found : Collector) (steps : List Step) : Option Collector :=
  steps.foldlM (Collector.take limit) found

def parseStatements (sql : String) : Except SyntaxError (List Statement) := do
  Grammar.statements (← tokenize sql)

/-- The tables of statements whose queries and expressions are nested no deeper than the limit. -/
def treeReferences (statements : List Statement) (limit : Nat) : Option References :=
  (collect limit .start (statements.flatMap Statement.walk)).map Collector.references

/-- Find the tables of a SQL text in its syntax tree. -/
def parseReferences (sql : String) (limit : Nat) : Except ExtractionError References :=
  match parseStatements sql with
  | .error cause => .error (.notSql cause)
  | .ok [] => .error .empty
  | .ok statements =>
    match treeReferences statements limit with
    | some references => .ok references
    | none => .error (.treeTooDeep limit)

end RepoPolicy.Sql
