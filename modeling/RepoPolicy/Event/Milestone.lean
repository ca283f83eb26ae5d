import RepoPolicy.Event.Lifecycle
import RepoPolicy.Event.Sequence

set_option autoImplicit false

/-! # Milestones of a merge

A run starts and then passes or fails. A run that has not failed can be merged, and a merge starts
before it is completed. Milestones of different runs do not affect each other. -/

namespace RepoPolicy

/-- What a run can reach. -/
inductive MilestoneKind where
  | started
  | passed
  | failed
  | mergeStarted
  | mergeCompleted
  deriving DecidableEq, Repr

namespace MilestoneKind

def name : MilestoneKind → String
  | .started => "STARTED"
  | .passed => "PASSED"
  | .failed => "FAILED"
  | .mergeStarted => "MERGE_STARTED"
  | .mergeCompleted => "MERGE_COMPLETED"

def names : List (String × MilestoneKind) :=
  [("STARTED", .started), ("PASSED", .passed), ("FAILED", .failed),
    ("MERGE_STARTED", .mergeStarted), ("MERGE_COMPLETED", .mergeCompleted)]

def ofName? (name : String) : Option MilestoneKind := names.lookup name

end MilestoneKind

/-- A run has reached something. -/
structure Milestone where
  runId : RunId
  kind : MilestoneKind
  deriving DecidableEq, Repr

def Milestone.ofLifecycle? : LifecycleEvent → Option Milestone
  | .started event => some ⟨event.runId, .started⟩
  | .batch _ => none
  | .completed event =>
    match event.status with
    | .passed => some ⟨event.runId, .passed⟩
    | .failed => some ⟨event.runId, .failed⟩

/-- Why a milestone cannot follow those before it. -/
inductive Breach where
  /-- A run has ended that has not started. -/
  | endedBeforeStart
  /-- A run has passed and failed. -/
  | endedBothWays (earlier : MilestoneKind)
  /-- A run is merged that has failed. -/
  | mergedAfterFailure
  /-- A merge is completed that has not started. -/
  | mergedBeforeStart
  deriving DecidableEq, Repr

def Breach.message (milestone : Milestone) : Breach → String
  | .endedBeforeStart =>
    "run " ++ milestone.runId ++ ": " ++ milestone.kind.name ++ " observed before STARTED"
  | .endedBothWays earlier =>
    "run " ++ milestone.runId ++ ": PASSED and FAILED are mutually exclusive (" ++
      milestone.kind.name ++ " observed after " ++ earlier.name ++ ")"
  | .mergedAfterFailure =>
    "run " ++ milestone.runId ++ ": MERGE_COMPLETED observed after FAILED"
  | .mergedBeforeStart =>
    "run " ++ milestone.runId ++ ": MERGE_COMPLETED observed before MERGE_STARTED"

/-- Why a milestone cannot follow a history, if it cannot. -/
def Milestone.breach? (milestone : Milestone) (history : List Milestone) : Option Breach :=
  let seen (kind : MilestoneKind) : Bool := history.contains ⟨milestone.runId, kind⟩
  let ended (other : MilestoneKind) : Option Breach :=
    if !seen .started then some .endedBeforeStart
    else if seen other then some (.endedBothWays other)
    else none
  match milestone.kind with
  | .started => none
  | .passed => ended .failed
  | .failed => ended .passed
  | .mergeStarted => none
  | .mergeCompleted =>
    if seen .failed then some .mergedAfterFailure
    else if !seen .mergeStarted then some .mergedBeforeStart
    else none

def breachesAfter (history : List Milestone) : List Milestone → List (Milestone × Option Breach)
  | [] => []
  | milestone :: rest =>
    (milestone, milestone.breach? history) :: breachesAfter (history ++ [milestone]) rest

def breachTexts (milestones : List Milestone) : List String :=
  (breachesAfter [] milestones).filterMap fun (milestone, breach) =>
    breach.map (Breach.message milestone)

def checkSequence (milestones : List Milestone) : SequenceReport :=
  SequenceReport.ofViolations (breachTexts milestones)

end RepoPolicy
