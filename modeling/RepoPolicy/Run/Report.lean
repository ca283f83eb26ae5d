import RepoPolicy.Baseline
import RepoPolicy.Event.RunId
import RepoPolicy.Run.Status

set_option autoImplicit false

/-! # Reports

The report of a run tells new violations from those that the baseline knows. -/

namespace RepoPolicy

structure Report where
  runId : RunId
  policyName : String
  repoId : String
  status : RunStatus
  /-- All violations, in the order of reports. -/
  violations : List Violation
  /-- The violations that the baseline does not know. -/
  new : List Violation
  /-- The violations that the baseline knows. -/
  persistent : List Violation
  /-- The fingerprints of the baseline that no violation has. -/
  fixed : List String
  counts : RunCounts
  deriving DecidableEq, Repr

namespace Report

def ofViolations (runId : RunId) (policyName repoId : String) (baseline : Baseline)
    (violations : List Violation) : Report :=
  let new := baseline.newViolations violations
  let fixed := baseline.fixedFingerprints violations
  let counts := RunCounts.ofPartition violations new fixed.length
  { runId, policyName, repoId
    status := counts.status
    violations, new
    persistent := baseline.persistentViolations violations
    fixed, counts }

def passed (report : Report) : Bool := report.status == .passed

/-- How a command that performs the run ends. -/
def exitStatus (report : Report) : ExitStatus := report.status.exitStatus

end Report

end RepoPolicy
