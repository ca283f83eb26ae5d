import RepoPolicy.Inputs.Declaration
import RepoPolicy.Inputs.Import
import RepoPolicy.Inputs.Repository

set_option autoImplicit false

/-! # Inputs of a run

A run looks at what scanners have found before it, and at nothing else. -/

namespace RepoPolicy

/-- Everything a run looks at. -/
structure Inputs where
  imports : List ImportEdge := []
  topics : List TopicDeclaration := []
  errors : List ErrorUsage := []
  contracts : List ContractDocument := []
  repositories : List RepositoryFile := []
  deriving Repr

end RepoPolicy
