import RepoPolicy.Finding.Violation

set_option autoImplicit false

/-! # Verdict of a run

A run fails when it has errors that the baseline does not know. -/

namespace RepoPolicy

inductive RunStatus where
  | passed
  | failed
  deriving DecidableEq, Repr

namespace RunStatus

def name : RunStatus → String
  | .passed => "passed"
  | .failed => "failed"

def names : List (String × RunStatus) := [("passed", .passed), ("failed", .failed)]

def ofName? (name : String) : Option RunStatus := names.lookup name

end RunStatus

/-- How a command that performs a run ends. -/
inductive ExitStatus where
  | passed
  | failed
  /-- There was no run. -/
  | internalError
  deriving DecidableEq, Repr

namespace ExitStatus

def code : ExitStatus → Nat
  | .passed => 0
  | .failed => 1
  | .internalError => 2

def name : ExitStatus → String
  | .passed => "passed"
  | .failed => "failed"
  | .internalError => "internal_error"

end ExitStatus

/-- How the command ends when the run has this status. -/
def RunStatus.exitStatus : RunStatus → ExitStatus
  | .passed => .passed
  | .failed => .failed

/-- How many violations of each sort a run has found. -/
structure RunCounts where
  total : Nat := 0
  errors : Nat := 0
  warnings : Nat := 0
  /-- Violations that the baseline does not know. -/
  new : Nat := 0
  newErrors : Nat := 0
  /-- Violations that the baseline knows. -/
  persistent : Nat := 0
  /-- Fingerprints of the baseline that no violation has. -/
  fixed : Nat := 0
  deriving DecidableEq, Repr

namespace RunCounts

/-- The counts of all violations, of which some are new, and of a number of fixed ones. -/
def ofPartition (all new : List Violation) (fixed : Nat) : RunCounts :=
  let errors := all.countP Violation.isError
  { total := all.length
    errors := errors
    warnings := all.length - errors
    new := new.length
    newErrors := new.countP Violation.isError
    persistent := all.length - new.length
    fixed := fixed }

def status (counts : RunCounts) : RunStatus := if counts.newErrors > 0 then .failed else .passed

end RunCounts

end RepoPolicy
