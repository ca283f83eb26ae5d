import RepoPolicy.Sql.KeywordScan
import RepoPolicy.Sql.Walk

set_option autoImplicit false

/-! # Choosing how tables are found

Tables are found in the syntax tree where the host allows it, and by keywords otherwise. A text
that one way cannot read is never given to the other: that would turn "cannot be certified" into a
guess. -/

namespace RepoPolicy.Sql

/-- A way to find the tables of a SQL text. -/
inductive Method where
  | syntaxTree
  | keywords
  deriving DecidableEq, Repr

def Method.name : Method → String
  | .syntaxTree => "ast"
  | .keywords => "regex"

/-- Find the tables of a SQL text. -/
def Method.references : Method → String → Nat → Except ExtractionError References
  | .syntaxTree => parseReferences
  | .keywords => scanReferences

/-- Whether syntax trees can be used: what the host allows, and what a probe has found, once there
has been one. -/
structure Capability where
  treesAllowed : Bool
  probed : Option Bool := none
  deriving DecidableEq, Repr

namespace Capability

/-- Use syntax trees. -/
def detect : Capability := { treesAllowed := true }

/-- Never use syntax trees. -/
def keywordsOnly : Capability := { treesAllowed := false }

/-- Whether syntax trees can be used. -/
def hasTrees (capability : Capability) : Bool := capability.probed.getD capability.treesAllowed

/-- The capability once it has been asked. The first answer is kept. -/
def probe (capability : Capability) : Capability :=
  { capability with probed := some capability.hasTrees }

def isProbed (capability : Capability) : Bool := capability.probed.isSome

def method (capability : Capability) : Method :=
  if capability.hasTrees then .syntaxTree else .keywords

end Capability

def defaultDepthLimit : Nat := 64

/-- A method with the nesting it allows. -/
structure Analyzer where
  method : Method
  depthLimit : Nat := defaultDepthLimit
  deriving DecidableEq, Repr

/-- Find the tables of a SQL text. -/
def Analyzer.references (analyzer : Analyzer) (sql : String) : Except ExtractionError References :=
  analyzer.method.references sql analyzer.depthLimit

end RepoPolicy.Sql
