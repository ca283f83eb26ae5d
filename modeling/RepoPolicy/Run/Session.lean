import RepoPolicy.Event.Milestone
import RepoPolicy.Run.Engine

set_option autoImplicit false

/-! # Sessions

A session performs runs of one engine, one after the other. It numbers them, keeps the baseline and
the latest violations, and records what the runs publish and log. -/

namespace RepoPolicy

structure Session where
  engine : Engine
  /-- How many runs there have been. -/
  runs : Nat := 0
  baseline : Option Baseline := none
  /-- The violations that were found last. -/
  latest : List Violation := []
  events : List LifecycleEvent := []
  log : List LogLine := []
  deriving DecidableEq, Repr

namespace Session

def start (engine : Engine) : Session := { engine, log := engine.compileLog }

def runId (number : Nat) : RunId := "run-" ++ toString number

/-- Perform a run. Its events are recorded if that is asked for. -/
def run (session : Session) (inputs : Inputs) (record : Bool) : Run × Session :=
  let run := session.engine.run (runId (session.runs + 1)) inputs session.baseline
  (run,
    { session with
      runs := session.runs + 1
      latest := run.report.violations
      events := session.events ++ (if record then run.events else [])
      log := session.log ++ run.log })

def evaluate (session : Session) (inputs : Inputs) : List Violation × Session :=
  let violations := session.engine.evaluate inputs
  (violations,
    { session with
      latest := violations
      log := session.log ++ session.engine.evaluateLog inputs })

/-- Make a baseline of the violations that were found last. -/
def accept (session : Session) : Baseline × Session :=
  let baseline := Baseline.ofViolations session.latest
  (baseline, { session with baseline := some baseline })

def milestones (session : Session) : List Milestone :=
  session.events.filterMap Milestone.ofLifecycle?

end Session

end RepoPolicy
