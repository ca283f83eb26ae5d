import RepoPolicy.Check.ModulePath
import RepoPolicy.Finding.Outcome
import RepoPolicy.Inputs.Import
import RepoPolicy.Policy.Error
import RepoPolicy.Policy.Settings

set_option autoImplicit false

/-! # Boundaries of repositories and layers

A repository may import its own modules, those that no repository owns, and those of repositories
that it names. A module of a layer may not import from a higher layer. -/

namespace RepoPolicy

/-- Why an import crosses a boundary. -/
inductive BoundaryProblem where
  | foreignModule (repo module owner : String)
  | higherLayer (layer module higher : String)
  deriving DecidableEq, Repr

def BoundaryProblem.message : BoundaryProblem → String
  | .foreignModule repo module owner =>
    "repo '" ++ repo ++ "' imports '" ++ module ++ "' owned by repo '" ++ owner ++
      "', which is not in its may_import list"
  | .higherLayer layer module higher =>
    "layer '" ++ layer ++ "' must not import '" ++ module ++ "' from higher layer '" ++ higher ++
      "'"

namespace BoundarySettings

def defect? (settings : BoundarySettings) : Option SettingsDefect :=
  settings.repos.findSome? fun (repo, ownership) =>
    (ownership.mayImport.find? fun other => (settings.repos.lookup other).isNone).map fun unknown =>
      .unknownRepo repo unknown

def ownerOf (settings : BoundarySettings) (module : String) : Option String :=
  longestAbove
    (settings.repos.flatMap fun (repo, ownership) => ownership.owns.map fun above => (repo, above))
    module

/-- The layer of a module, with its position: the one with the longest prefix. -/
def layerOf (settings : BoundarySettings) (module : String) : Option (Layer × Nat) :=
  longestAbove
    (settings.layers.zipIdx.flatMap fun (layer, index) =>
      layer.prefixes.map fun above => ((layer, index), above))
    module

def ownerProblem? (settings : BoundarySettings) (edge : ImportEdge) : Option BoundaryProblem := do
  let importer ← settings.repos.lookup edge.repo
  let owner ← settings.ownerOf edge.module
  if owner ≠ edge.repo ∧ owner ∉ importer.mayImport then
    some (.foreignModule edge.repo edge.module owner)
  else none

def layerProblem? (settings : BoundarySettings) (edge : ImportEdge) : Option BoundaryProblem := do
  let (source, sourceIndex) ← settings.layerOf edge.importerModule
  let (target, targetIndex) ← settings.layerOf edge.module
  if sourceIndex < targetIndex then some (.higherLayer source.name edge.module target.name)
  else none

def problems (settings : BoundarySettings) (edge : ImportEdge) : List BoundaryProblem :=
  (settings.ownerProblem? edge).toList ++ (settings.layerProblem? edge).toList

def checkEdge (settings : BoundarySettings) (edge : ImportEdge) : Outcome :=
  Outcome.ofErrors edge.module ((settings.problems edge).map BoundaryProblem.message)

def findings (settings : BoundarySettings) (imports : List ImportEdge) : List LocatedOutcome :=
  (imports.map fun edge => ⟨edge.filePath, edge.module, settings.checkEdge edge⟩).filter
    fun located => !located.outcome.isClean

end BoundarySettings

end RepoPolicy
