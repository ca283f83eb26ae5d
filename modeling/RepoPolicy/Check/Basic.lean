import RepoPolicy.Check.Boundaries
import RepoPolicy.Check.Database
import RepoPolicy.Check.ErrorTypes
import RepoPolicy.Check.Imports
import RepoPolicy.Check.Schema
import RepoPolicy.Check.Topics
import RepoPolicy.Inputs

set_option autoImplicit false

/-! # Checks

A check is a rule with settings that have been found to be right. What can go wrong with a rule goes
wrong when the check is made: a bad setting or a pattern that cannot be read stops `compileAll`. A
check that has been made is a total function of the inputs, and `findings` has no case of failure. -/

namespace RepoPolicy

/-- A rule that is ready to run. -/
inductive Check where
  | repoBoundaries (settings : BoundarySettings)
  | forbiddenImports (check : ImportCheck)
  | topicNaming (check : TopicCheck)
  | errorTaxonomy (settings : ErrorSettings)
  | contractSchemaValid (settings : SchemaSettings)
  | dbTableAccess (settings : AccessSettings) (method : Sql.Method)
  | dbProjection (settings : ProjectionSettings)
  deriving DecidableEq, Repr

namespace Check

def rule : Check → Rule
  | .repoBoundaries _ => .repoBoundaries
  | .forbiddenImports _ => .forbiddenImports
  | .topicNaming _ => .topicNaming
  | .errorTaxonomy _ => .errorTaxonomy
  | .contractSchemaValid _ => .contractSchemaValid
  | .dbTableAccess _ _ => .dbTableAccess
  | .dbProjection _ => .dbProjection

def severity : Check → Severity
  | .repoBoundaries settings => settings.severity
  | .forbiddenImports check => check.settings.severity
  | .topicNaming check => check.settings.severity
  | .errorTaxonomy settings => settings.severity
  | .contractSchemaValid settings => settings.severity
  | .dbTableAccess settings _ => settings.severity
  | .dbProjection settings => settings.severity

def findings (check : Check) (inputs : Inputs) : List LocatedOutcome :=
  match check with
  | .repoBoundaries settings => settings.findings inputs.imports
  | .forbiddenImports check => check.findings inputs.imports
  | .topicNaming check => check.findings inputs.topics
  | .errorTaxonomy settings => settings.findings inputs.errors
  | .contractSchemaValid settings => settings.findings inputs.contracts
  | .dbTableAccess settings method =>
    accessFindings ⟨method, settings.maxDepth⟩ inputs.repositories
  | .dbProjection _ => projectionFindings inputs.repositories

/-! ## Preparing the rules of a policy -/

def ofBoundaries (settings : BoundarySettings) : Except PolicyError Check :=
  match settings.defect? with
  | some defect => .error (.invalidRule .repoBoundaries defect)
  | none => .ok (.repoBoundaries settings)

def ofAccess (method : Sql.Method) (settings : AccessSettings) : Except PolicyError Check :=
  if settings.maxDepth = 0 then .error (.invalidRule .dbTableAccess .depthZero)
  else .ok (.dbTableAccess settings method)

def ofSettings? (method : Sql.Method) (rules : RuleSet) :
    Rule → Option (Except PolicyError Check)
  | .repoBoundaries => rules.repoBoundaries.map ofBoundaries
  | .forbiddenImports =>
    rules.forbiddenImports.map fun settings =>
      (ImportCheck.ofSettings settings).map .forbiddenImports
  | .topicNaming =>
    rules.topicNaming.map fun settings => (TopicCheck.ofSettings settings).map .topicNaming
  | .errorTaxonomy => rules.errorTaxonomy.map fun settings => .ok (.errorTaxonomy settings)
  | .contractSchemaValid =>
    rules.contractSchemaValid.map fun settings => .ok (.contractSchemaValid settings)
  | .dbTableAccess => rules.dbTableAccess.map (ofAccess method)
  | .dbProjection => rules.dbProjection.map fun settings => .ok (.dbProjection settings)

def compile? (method : Sql.Method) (rules : RuleSet) (rule : Rule) :
    Option (Except PolicyError Check) :=
  if rules.isEnabled rule then ofSettings? method rules rule else none

/-- The checks of all enabled rules, in the order of their evaluation. The first rule with wrong
settings stops it. -/
def compileAll (method : Sql.Method) (rules : RuleSet) : Except PolicyError (List Check) :=
  (Rule.all.filterMap (compile? method rules)).mapM id

end Check

end RepoPolicy
