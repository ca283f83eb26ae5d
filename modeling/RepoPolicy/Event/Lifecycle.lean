import RepoPolicy.Event.RunId
import RepoPolicy.Run.Status

set_option autoImplicit false

/-! # Events of a run

A run publishes that it has started, its violations in batches, and that it is complete. -/

namespace RepoPolicy

structure RunStarted where
  runId : RunId
  repoId : String
  rootPath : String
  policyName : String
  rulesEnabled : List Rule
  /-- Whether the run has a baseline. -/
  baselineApplied : Bool
  deriving DecidableEq, Repr

structure ViolationPayload where
  severity : Severity
  message : String
  ruleName : String
  fingerprint : Option String
  deriving DecidableEq, Repr

/-- What a batch says about a violation that has been found. -/
def ViolationPayload.ofViolation (violation : Violation) : ViolationPayload where
  severity := violation.severity
  message := violation.message
  ruleName := violation.rule.name
  fingerprint := some violation.fingerprint

structure ViolationsBatch where
  runId : RunId
  repoId : String
  /-- The position of the batch, from 0. -/
  batchIndex : Nat
  /-- How many violations it has. -/
  batchSize : Nat
  totalBatches : Nat
  violations : List ViolationPayload
  deriving DecidableEq, Repr

structure RunCompleted where
  runId : RunId
  status : RunStatus
  counts : RunCounts
  deriving DecidableEq, Repr

inductive LifecycleEvent where
  | started (event : RunStarted)
  | batch (event : ViolationsBatch)
  | completed (event : RunCompleted)
  deriving DecidableEq, Repr

namespace LifecycleEvent

def runId : LifecycleEvent → RunId
  | .started event => event.runId
  | .batch event => event.runId
  | .completed event => event.runId

def name : LifecycleEvent → String
  | .started _ => "run_started"
  | .batch _ => "violations_batch"
  | .completed _ => "run_completed"

end LifecycleEvent

end RepoPolicy
