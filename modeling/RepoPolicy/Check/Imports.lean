import RepoPolicy.Finding.Outcome
import RepoPolicy.Inputs.Import
import RepoPolicy.Policy.Settings
import RepoPolicy.Policy.Written

set_option autoImplicit false

/-! # Forbidden imports

Modules that match a pattern must not be imported, unless they match another one that allows
them. -/

namespace RepoPolicy

structure ImportCheck where
  settings : ImportSettings
  deny : List WrittenPattern
  allow : List WrittenPattern
  deriving DecidableEq, Repr

namespace ImportCheck

def ofSettings (settings : ImportSettings) : Except PolicyError ImportCheck := do
  return {
    settings
    deny := ← WrittenPattern.readAll .forbiddenImports settings.deny
    allow := ← WrittenPattern.readAll .forbiddenImports settings.allow }

def isExempt (check : ImportCheck) (filePath : String) : Bool :=
  check.settings.exemptPaths.any fun start =>
    (dropCurrentDir start.toList).isPrefixOf (dropCurrentDir filePath.toList)

/-- The first pattern that forbids a module, unless another one allows it. -/
def deniedBy? (check : ImportCheck) (module : String) : Option WrittenPattern :=
  if check.allow.any (·.isMatch module) then none else check.deny.find? (·.isMatch module)

def location (edge : ImportEdge) : String :=
  match edge.line with
  | some line => edge.filePath ++ ":" ++ toString line
  | none => edge.filePath

def message (edge : ImportEdge) (denied : WrittenPattern) : String :=
  "forbidden import '" ++ edge.module ++ "' at " ++ location edge ++ " (matches deny pattern '" ++
    denied.text ++ "')"

def finding? (check : ImportCheck) (edge : ImportEdge) : Option LocatedOutcome :=
  if check.isExempt edge.filePath then none
  else (check.deniedBy? edge.module).map fun denied =>
    .error edge.filePath edge.module (message edge denied)

def findings (check : ImportCheck) (imports : List ImportEdge) : List LocatedOutcome :=
  imports.filterMap check.finding?

end ImportCheck

end RepoPolicy
