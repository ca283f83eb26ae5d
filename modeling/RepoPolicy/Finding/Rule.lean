set_option autoImplicit false

/-! # Rules and severities

The rules, in the order in which a run evaluates them, and how serious a finding is. -/

namespace RepoPolicy

/-- A rule that a repository can be held to. -/
inductive Rule where
  | repoBoundaries
  | forbiddenImports
  | topicNaming
  | errorTaxonomy
  | contractSchemaValid
  | dbTableAccess
  | dbProjection
  deriving DecidableEq, Repr

namespace Rule

/-- All rules, in the order of their evaluation. -/
def all : List Rule :=
  [.repoBoundaries, .forbiddenImports, .topicNaming, .errorTaxonomy, .contractSchemaValid,
    .dbTableAccess, .dbProjection]

def name : Rule → String
  | .repoBoundaries => "repo_boundaries"
  | .forbiddenImports => "forbidden_imports"
  | .topicNaming => "topic_naming"
  | .errorTaxonomy => "error_taxonomy"
  | .contractSchemaValid => "contract_schema_valid"
  | .dbTableAccess => "db_table_access"
  | .dbProjection => "db_projection"

def ofName? (name : String) : Option Rule := all.find? (·.name == name)

def description : Rule → String
  | .repoBoundaries => "Keeps imports inside declared repository and layer boundaries"
  | .forbiddenImports => "Rejects imports matching a deny-list pattern"
  | .topicNaming => "Checks event topic names against the naming convention"
  | .errorTaxonomy => "Ensures raised and defined errors belong to the error taxonomy"
  | .contractSchemaValid => "Checks contracts for required and deprecated fields"
  | .dbTableAccess => "Confirms repository SQL only touches declared tables"
  | .dbProjection => "Confirms SELECT projections match declared output fields"

def category : Rule → String
  | .repoBoundaries => "architecture"
  | .forbiddenImports => "architecture"
  | .topicNaming => "contracts"
  | .errorTaxonomy => "contracts"
  | .contractSchemaValid => "contracts"
  | .dbTableAccess => "database_access"
  | .dbProjection => "database_access"

/-- The position of the rule in the order of evaluation. -/
def index (rule : Rule) : Nat := all.idxOf rule

end Rule

inductive Severity where
  | error
  | warning
  deriving DecidableEq, Repr

namespace Severity

def name : Severity → String
  | .error => "error"
  | .warning => "warning"

def names : List (String × Severity) :=
  [("error", .error), ("warning", .warning), ("warn", .warning)]

def ofName? (name : String) : Option Severity := names.lookup name

/-- The position in the order of reports: errors come before warnings. -/
def index : Severity → Nat
  | .error => 0
  | .warning => 1

end Severity

end RepoPolicy
