import RepoPolicy.Event.Batch
import RepoPolicy.Policy.Basic
import RepoPolicy.Run.Log

set_option autoImplicit false

/-! # Engines

An engine is a policy whose rules are ready to run. A run evaluates them on some inputs, compares
what they find with a baseline, and publishes events.

No check can fail: each gives its findings on all inputs (`Check.findings`). So every violation is one
that a check has found, and there is none which stands for a check that has broken down. -/

namespace RepoPolicy

structure Engine where
  /-- The policy with the rules of its preset. -/
  policy : Policy
  checks : List Check
  deriving DecidableEq, Repr

/-- The violations that an outcome of a rule stands for. Errors have the severity that the rule has
been given; warnings stay warnings. -/
def LocatedOutcome.violations (located : LocatedOutcome) (rule : Rule) (severity : Severity) :
    List Violation :=
  located.outcome.errors.map (Violation.new rule located.filePath located.symbol severity) ++
    located.outcome.warnings.map (Violation.new rule located.filePath located.symbol .warning)

def Check.violations (check : Check) (inputs : Inputs) : List Violation :=
  (check.findings inputs).flatMap fun located => located.violations check.rule check.severity

/-- All that a run brings forth. -/
structure Run where
  report : Report
  events : List LifecycleEvent
  log : List LogLine
  deriving DecidableEq, Repr

namespace Engine

def ofPolicy (policy : Policy) (method : Sql.Method) : Except PolicyError Engine := do
  let policy ← policy.resolve
  return ⟨policy, ← Check.compileAll method policy.rules⟩

def rules (engine : Engine) : List Rule := engine.checks.map Check.rule

/-- The lines that are logged when the engine is made. -/
def compileLog (engine : Engine) : List LogLine := engine.rules.map LogLine.compiled

def evaluate (engine : Engine) (inputs : Inputs) : List Violation :=
  Violation.sort (engine.checks.flatMap fun check => check.violations inputs)

/-- The lines that are logged when some inputs are evaluated. -/
def evaluateLog (engine : Engine) (inputs : Inputs) : List LogLine :=
  engine.checks.map fun check => LogLine.evaluated check.rule (check.violations inputs).length

def report (engine : Engine) (runId : RunId) (inputs : Inputs) (baseline : Option Baseline) :
    Report :=
  Report.ofViolations runId engine.policy.name engine.policy.repoId (baseline.getD .empty)
    (engine.evaluate inputs)

def startEvent (engine : Engine) (runId : RunId) (baseline : Option Baseline) : LifecycleEvent :=
  .started
    { runId
      repoId := engine.policy.repoId
      rootPath := engine.policy.rootPath
      policyName := engine.policy.name
      rulesEnabled := engine.rules
      baselineApplied := baseline.isSome }

/-- The events that end a run with a report: the batches of its violations, and its completion. -/
def endEvents (engine : Engine) (report : Report) : List LifecycleEvent :=
  (buildBatches report.runId engine.policy.repoId report.violations engine.policy.batchSize).map
      .batch ++
    [.completed { runId := report.runId, status := report.status, counts := report.counts }]

def run (engine : Engine) (runId : RunId) (inputs : Inputs) (baseline : Option Baseline) : Run :=
  let report := engine.report runId inputs baseline
  let start := engine.startEvent runId baseline
  let others := engine.endEvents report
  { report
    events := start :: others
    log := LogLine.published start :: engine.evaluateLog inputs ++ others.map LogLine.published ++
      [LogLine.ended report] }

end Engine

end RepoPolicy
