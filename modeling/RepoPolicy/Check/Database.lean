import RepoPolicy.Contract.Projection
import RepoPolicy.Contract.TableAccess

set_option autoImplicit false

/-! # Database contracts of a run -/

namespace RepoPolicy

/-- What a check of operations finds in the contracts, in the order of the contracts and of the
operations. -/
def operationFindings (check : RepositoryContract → String → Operation → Outcome)
    (files : List RepositoryFile) : List LocatedOutcome :=
  files.flatMap fun file =>
    (file.contract.operations.map fun (name, operation) =>
      (⟨file.filePath, name, check file.contract name operation⟩ : LocatedOutcome)).filter
        fun located => !located.outcome.isClean

def accessFindings (analyzer : Sql.Analyzer) (files : List RepositoryFile) :
    List LocatedOutcome :=
  operationFindings (fun contract => Contract.checkTableAccess analyzer contract.tables) files

def projectionFindings (files : List RepositoryFile) : List LocatedOutcome :=
  operationFindings (fun _ => Contract.checkProjection) files

end RepoPolicy
