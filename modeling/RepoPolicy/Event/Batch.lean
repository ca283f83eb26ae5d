import RepoPolicy.Event.Lifecycle

set_option autoImplicit false

/-! # Batches

Violations are published in consecutive batches of at most a given size. -/

namespace RepoPolicy

/-- The consecutive pieces of a list, each with `size` items but for the last one, which may have
fewer. The fuel bounds the number of pieces. -/
def chunksFrom {α : Type} (size : Nat) : Nat → List α → List (List α)
  | 0, _ => []
  | _ + 1, [] => []
  | fuel + 1, items => items.take size :: chunksFrom size fuel (items.drop size)

/-- The consecutive pieces of a list. A size of 0 is taken for 1. -/
def chunks {α : Type} (size : Nat) (items : List α) : List (List α) :=
  chunksFrom (max size 1) items.length items

/-- How many pieces of a size it takes for `length` items: their quotient, rounded up. A size of 0
is taken for 1. -/
def chunkCount (size length : Nat) : Nat := (length + (max size 1 - 1)) / max size 1

/-- The batches of the violations of a run. Without violations there are none. -/
def buildBatches (runId : RunId) (repoId : String) (violations : List Violation)
    (batchSize : Nat) : List ViolationsBatch :=
  let totalBatches := chunkCount batchSize violations.length
  (chunks batchSize violations).zipIdx.map fun (piece, index) =>
    { runId, repoId
      batchIndex := index
      batchSize := piece.length
      totalBatches
      violations := piece.map ViolationPayload.ofViolation }

end RepoPolicy
