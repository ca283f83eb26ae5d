import RepoPolicy.Check.Basic
import RepoPolicy.Event.Lifecycle
import RepoPolicy.Run.Report

set_option autoImplicit false

/-! # Log lines

What a run writes to the log of its host. -/

namespace RepoPolicy

/-- How important a line is. -/
inductive LogLevel where
  | debug
  | info
  deriving DecidableEq, Repr

def LogLevel.name : LogLevel → String
  | .debug => "debug"
  | .info => "info"

structure LogLine where
  level : LogLevel
  text : String
  deriving DecidableEq, Repr

namespace LogLine

def compiled (rule : Rule) : LogLine :=
  ⟨.debug, "compiled rule " ++ rule.name ++ " (" ++ rule.category ++ "): " ++ rule.description⟩

def evaluated (rule : Rule) (findings : Nat) : LogLine :=
  ⟨.debug, "rule " ++ rule.name ++ " [" ++ rule.category ++ "] produced " ++ toString findings ++
    " finding(s)"⟩

def published : LifecycleEvent → LogLine
  | .started event =>
    ⟨.info, "run " ++ event.runId ++ " started for policy '" ++ event.policyName ++ "'"⟩
  | .batch event =>
    ⟨.debug, "run " ++ event.runId ++ " batch " ++ toString (event.batchIndex + 1) ++ "/" ++
      toString event.totalBatches ++ " (" ++ toString event.batchSize ++ " violations)"⟩
  | .completed event => ⟨.info, "run " ++ event.runId ++ " completed: " ++ event.status.name⟩

def ended (report : Report) : LogLine :=
  ⟨.info, "run " ++ report.runId ++ " " ++ report.status.name ++ ": " ++
    toString report.counts.total ++ " violation(s), " ++ toString report.counts.newErrors ++
    " new error(s), " ++ toString report.counts.persistent ++ " baselined, " ++
    toString report.counts.fixed ++ " fixed"⟩

end LogLine

end RepoPolicy
