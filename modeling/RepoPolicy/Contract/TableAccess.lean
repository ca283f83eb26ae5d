import RepoPolicy.Finding.Outcome
import RepoPolicy.Inputs.Repository
import RepoPolicy.Sql.Analyzer
import RepoPolicy.Sql.Construct

set_option autoImplicit false

/-! # Access to tables

An operation may only refer to tables that its contract declares. The check is closed: SQL whose
tables cannot be told for certain is a problem, never silently accepted. -/

namespace RepoPolicy.Contract

open RepoPolicy.Text RepoPolicy.Sql

/-- What is wrong with the tables of an operation. -/
inductive AccessProblem where
  | noSql
  | unterminated (quote : OpenQuote)
  /-- The SQL uses constructs that are never certified. -/
  | unsupported (constructs : List Construct)
  /-- The tables cannot be found. -/
  | unreadable (cause : ExtractionError)
  | undeclared (table : String) (allowed : NameSet)
  deriving DecidableEq, Repr

def AccessProblem.message (operation : String) : AccessProblem → String
  | .noSql => "operation '" ++ operation ++ "' has no SQL to validate"
  | .unterminated quote =>
    "operation '" ++ operation ++ "' could not be parsed: unterminated " ++ quote.label
  | .unsupported constructs =>
    "operation '" ++ operation ++ "' uses " ++
      " and ".intercalate (constructs.map Construct.label) ++ ", which cannot be reliably validated; table access is not certified"
  | .unreadable cause =>
    "operation '" ++ operation ++ "' could not be parsed: " ++ cause.message
  | .undeclared table allowed =>
    "operation '" ++ operation ++ "' references undeclared table '" ++ table ++ "' (allowed: [" ++
      ", ".intercalate allowed ++ "])"

def isNameQuote (c : Char) : Bool := c == '"' || c.toNat == 96 || c == '[' || c == ']'

/-- The name under which tables are compared: without schema and quotes, in lower case. -/
def canonicalTable (name : String) : String :=
  let unqualified := (name.toList.reverse.takeWhile (· != '.')).reverse
  lowercase (String.ofList (strip isNameQuote unqualified))

def canonicalTables (names : List String) : NameSet := NameSet.ofList (names.map canonicalTable)

def undeclaredTables (references : References) (declared : List String) : NameSet :=
  (canonicalTables references.realTables).diff (canonicalTables declared)

/-- What is wrong with the tables of an operation. Only the first reason not to certify it is
given; undeclared tables are all given, in increasing order. -/
def accessProblems (analyzer : Analyzer) (sql : String) (declared : List String) :
    List AccessProblem :=
  let normalized := normalize sql
  if normalized.isEmpty then [.noSql]
  else
    match openQuote sql with
    | some quote => [.unterminated quote]
    | none =>
      match unsupported normalized with
      | [] =>
        match analyzer.references sql with
        | .error cause => [.unreadable cause]
        | .ok references =>
          (undeclaredTables references declared).map fun table =>
            .undeclared table (canonicalTables declared)
      | constructs => [.unsupported constructs]

def checkTableAccess (analyzer : Analyzer) (declared : List String) (name : String)
    (operation : Operation) : Outcome :=
  Outcome.ofErrors name
    ((accessProblems analyzer operation.sql declared).map (AccessProblem.message name))

def checkContractAccess (analyzer : Analyzer) (contract : RepositoryContract) : Outcome :=
  Outcome.combined "table access"
    (contract.operations.map fun (name, operation) =>
      checkTableAccess analyzer contract.tables name operation)

end RepoPolicy.Contract
