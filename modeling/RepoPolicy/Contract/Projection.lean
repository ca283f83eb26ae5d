import RepoPolicy.Finding.Outcome
import RepoPolicy.Finding.Rule
import RepoPolicy.Inputs.Repository
import RepoPolicy.Sql.Projection

set_option autoImplicit false

/-! # Returned columns

The columns that a reading operation selects must be the fields that it declares. -/

namespace RepoPolicy.Contract

open RepoPolicy.Text RepoPolicy.Sql

/-- What is wrong with the columns of an operation. -/
inductive ProjectionProblem where
  /-- The operation is strict but declares no fields. -/
  | nothingDeclared
  | unterminated (quote : OpenQuote)
  | noSelectList
  /-- `SELECT *` where it is permitted but the fields are to be verified. -/
  | starUnverified
  /-- `SELECT *` where it is not permitted. -/
  | starRefused
  /-- `SELECT *` where the fields need not be verified. -/
  | starUnchecked
  /-- Expressions without a name. -/
  | unnamed (expressions : List String)
  | mismatch (missing undeclared : NameSet)
  deriving DecidableEq, Repr

def ProjectionProblem.message (operation : String) : ProjectionProblem → String
  | .nothingDeclared =>
    "operation '" ++ operation ++ "' enables strict mode but declares no return fields"
  | .unterminated quote =>
    "operation '" ++ operation ++ "' could not be parsed: unterminated " ++ quote.label ++
      "; projection is not certified"
  | .noSelectList =>
    "operation '" ++ operation ++ "' has no SELECT list to compare with declared fields"
  | .starUnverified =>
    "operation '" ++ operation ++ "' uses SELECT *; permitted by allow_select_star, but strict " ++
      "mode cannot verify projected fields"
  | .starRefused =>
    "operation '" ++ operation ++ "': SELECT * is not allowed in strict mode; list the declared " ++
      "fields explicitly"
  | .starUnchecked =>
    "operation '" ++ operation ++ "' uses SELECT *; list columns explicitly so the projection " ++
      "can be checked"
  | .unnamed expressions =>
    "operation '" ++ operation ++ "' projects expressions that cannot be mapped to column names " ++
      "(add an alias): " ++ ", ".intercalate expressions
  | .mismatch missing undeclared =>
    "operation '" ++ operation ++ "' projection does not match declared fields; declared but " ++
      "missing from SQL: [" ++ ", ".intercalate missing ++ "]; present in SQL but undeclared: [" ++
      ", ".intercalate undeclared ++ "]"

def unnamedExpressions (items : List ProjectedItem) : List String :=
  items.filterMap fun
    | .complex text => some text
    | _ => none

def projectedColumns (items : List ProjectedItem) : NameSet :=
  NameSet.ofList (items.filterMap fun
    | .column name => some name
    | _ => none)

/-- The names under which declared fields are compared. -/
def declaredColumns (fields : List String) : NameSet :=
  NameSet.ofList (fields.map fun field => columnName (trim field.toList))

def mismatchSeverity (strict : Bool) : Severity := if strict then .error else .warning

def selectListProblem (returns : Returns) (items : List ProjectedItem) :
    Option (Severity × ProjectionProblem) :=
  let strict := returns.isStrict
  if items.contains .wildcard then
    match returns.allowSelectStar, strict with
    | true, false => none
    | true, true => some (.warning, .starUnverified)
    | false, true => some (.error, .starRefused)
    | false, false => some (.warning, .starUnchecked)
  else
    match unnamedExpressions items with
    | [] =>
      let declared := declaredColumns returns.declaredFields
      let projected := projectedColumns items
      let missing := declared.diff projected
      let undeclared := projected.diff declared
      if missing.isEmpty && undeclared.isEmpty then none
      else some (mismatchSeverity strict, .mismatch missing undeclared)
    | expressions => some (mismatchSeverity strict, .unnamed expressions)

/-- The problem of the columns of an operation, if it has one. An operation that writes has none. -/
def projectionProblem (operation : Operation) : Option (Severity × ProjectionProblem) :=
  let returns := operation.returns
  if operation.mode = .write then none
  else if returns.declaredFields.isEmpty then
    if returns.strict = some true then some (.warning, .nothingDeclared) else none
  else
    match openQuote operation.sql with
    | some quote => some (.error, .unterminated quote)
    | none =>
      match projection operation.sql with
      | none => some (mismatchSeverity returns.isStrict, .noSelectList)
      | some items => selectListProblem returns items

def checkProjection (name : String) (operation : Operation) : Outcome :=
  match projectionProblem operation with
  | none => Outcome.clean name
  | some (.error, problem) => Outcome.ofErrors name [problem.message name]
  | some (.warning, problem) => Outcome.ofWarnings name [problem.message name]

def checkContractProjection (contract : RepositoryContract) : Outcome :=
  Outcome.combined "projection"
    (contract.operations.map fun (name, operation) => checkProjection name operation)

end RepoPolicy.Contract
