import RepoPolicy.Finding.Rule
import RepoPolicy.Sql.Analyzer

set_option autoImplicit false

/-! # Settings of rules

A policy holds settings for some of the rules. A rule without settings does not run. -/

namespace RepoPolicy

structure CommonSettings where
  enabled : Bool := true
  /-- The severity of what the rule finds to be an error. -/
  severity : Severity := .error
  deriving DecidableEq, Repr

structure Ownership where
  /-- The prefixes of the modules that it owns. -/
  owns : List String := []
  /-- The other repositories whose modules it may import. -/
  mayImport : List String := []
  deriving DecidableEq, Repr

structure Layer where
  name : String
  /-- The prefixes of its modules. -/
  prefixes : List String := []
  deriving DecidableEq, Repr

structure BoundarySettings extends CommonSettings where
  /-- The repositories, by name in increasing order. -/
  repos : List (String × Ownership) := []
  /-- The layers, the lowest first. -/
  layers : List Layer := []
  deriving DecidableEq, Repr

structure ImportSettings extends CommonSettings where
  /-- Patterns of forbidden modules. -/
  deny : List String := []
  /-- Patterns of modules that are allowed all the same. -/
  allow : List String := []
  /-- The beginnings of paths of files that are not looked at. -/
  exemptPaths : List String := []
  deriving DecidableEq, Repr

/-- The pattern of topics unless the settings have another: segments in lower case with points
between them, of which the last is a version. -/
def defaultTopicPattern : String := "^[a-z][a-z0-9_]*(\\.[a-z][a-z0-9_-]*)+\\.v[0-9]+$"

structure TopicSettings extends CommonSettings where
  pattern : String := defaultTopicPattern
  /-- The beginnings that a name can have; any, if there are none. -/
  allowedPrefixes : List String := []
  deriving DecidableEq, Repr

structure ErrorSettings extends CommonSettings where
  /-- The types that a defined one can derive from; any, if there are none. -/
  allowedBases : List String := []
  /-- The types that must not be raised. -/
  forbiddenRaises : List String := []
  deriving DecidableEq, Repr

structure SchemaSettings extends CommonSettings where
  requiredFields : List String := []
  deprecatedFields : List String := []
  /-- The kinds of contracts that are looked at; all, if there are none. -/
  kinds : List String := []
  deriving DecidableEq, Repr

structure AccessSettings extends CommonSettings where
  /-- How deeply SQL may be nested. -/
  maxDepth : Nat := Sql.defaultDepthLimit
  deriving DecidableEq, Repr

/-- Settings for returned columns. -/
structure ProjectionSettings extends CommonSettings where
  deriving DecidableEq, Repr

structure RuleSet where
  repoBoundaries : Option BoundarySettings := none
  forbiddenImports : Option ImportSettings := none
  topicNaming : Option TopicSettings := none
  errorTaxonomy : Option ErrorSettings := none
  contractSchemaValid : Option SchemaSettings := none
  dbTableAccess : Option AccessSettings := none
  dbProjection : Option ProjectionSettings := none
  deriving DecidableEq, Repr

namespace RuleSet

def recommended : RuleSet where
  repoBoundaries := some {}
  forbiddenImports := some {}
  topicNaming := some {}
  errorTaxonomy := some { forbiddenRaises := ["Exception", "BaseException", "RuntimeError"] }
  contractSchemaValid := some { requiredFields := ["name", "version"] }
  dbTableAccess := some {}
  dbProjection := some {}

/-- The settings of the first set, and those of the second for rules that have none in the first. -/
def mergedOver (rules base : RuleSet) : RuleSet where
  repoBoundaries := rules.repoBoundaries.or base.repoBoundaries
  forbiddenImports := rules.forbiddenImports.or base.forbiddenImports
  topicNaming := rules.topicNaming.or base.topicNaming
  errorTaxonomy := rules.errorTaxonomy.or base.errorTaxonomy
  contractSchemaValid := rules.contractSchemaValid.or base.contractSchemaValid
  dbTableAccess := rules.dbTableAccess.or base.dbTableAccess
  dbProjection := rules.dbProjection.or base.dbProjection

def common (rules : RuleSet) : Rule → Option CommonSettings
  | .repoBoundaries => rules.repoBoundaries.map (·.toCommonSettings)
  | .forbiddenImports => rules.forbiddenImports.map (·.toCommonSettings)
  | .topicNaming => rules.topicNaming.map (·.toCommonSettings)
  | .errorTaxonomy => rules.errorTaxonomy.map (·.toCommonSettings)
  | .contractSchemaValid => rules.contractSchemaValid.map (·.toCommonSettings)
  | .dbTableAccess => rules.dbTableAccess.map (·.toCommonSettings)
  | .dbProjection => rules.dbProjection.map (·.toCommonSettings)

def isEnabled (rules : RuleSet) (rule : Rule) : Bool := (rules.common rule).any (·.enabled)

/-- The rules that run, in the order of their evaluation. -/
def enabled (rules : RuleSet) : List Rule := Rule.all.filter rules.isEnabled

end RuleSet

end RepoPolicy
