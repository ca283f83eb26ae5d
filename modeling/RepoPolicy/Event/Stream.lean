import RepoPolicy.Document.Value
import RepoPolicy.Event.Lifecycle
import RepoPolicy.Event.Sequence

set_option autoImplicit false

/-! # The stream of a run

The events of one run come in order: it starts, its batches follow with indexes from 0 on, and it
is complete once. The batches agree on their number, and together they have as many violations as
the run reports. -/

namespace RepoPolicy

inductive StreamProblem where
  | startsWith (name : String)
  | foreign (position : Nat) (name : String) (runId : RunId)
  | startedAgain (position : Nat)
  | batchAfterCompletion (index : Nat)
  | indexRepeated (index : Nat)
  | indexOutOfOrder (index expected : Nat)
  | indexOutOfRange (index total : Nat)
  | totalChanged (index total earlier : Nat)
  | sizeWrong (index declared carried : Nat)
  | indexesMissing (indexes : List Nat) (total : Nat)
  | notCompleted
  | completedEarly
  | totalWrong (batched reported : Nat)
  | completedRepeatedly (times : Nat)
  deriving DecidableEq, Repr

/-- A set of numbers as it is written in messages. -/
def showIndexes (indexes : List Nat) : String :=
  "\x7b" ++ ", ".intercalate (indexes.map toString) ++ "\x7d"

def StreamProblem.message (run : RunId) : StreamProblem → String
  | .startsWith name => "run " ++ run ++ ": first event is " ++ name ++ ", expected run_started"
  | .foreign position name other =>
    "event " ++ toString position ++ " (" ++ name ++ ") belongs to run " ++ other ++
      ", expected " ++ run
  | .startedAgain position =>
    "run " ++ run ++ ": duplicate run_started at position " ++ toString position
  | .batchAfterCompletion index =>
    "run " ++ run ++ ": batch " ++ toString index ++ " emitted after run_completed"
  | .indexRepeated index => "run " ++ run ++ ": duplicate batch_index " ++ toString index
  | .indexOutOfOrder index expected =>
    "run " ++ run ++ ": batch_index " ++ toString index ++ " out of order, expected " ++
      toString expected
  | .indexOutOfRange index total =>
    "run " ++ run ++ ": batch_index " ++ toString index ++ " out of range for total_batches " ++
      toString total
  | .totalChanged index total earlier =>
    "run " ++ run ++ ": batch " ++ toString index ++ " declares total_batches " ++ toString total ++
      ", earlier batches declared " ++ toString earlier
  | .sizeWrong index declared carried =>
    "run " ++ run ++ ": batch " ++ toString index ++ " declares batch_size " ++
      toString declared ++ " but carries " ++ toString carried ++ " violations"
  | .indexesMissing indexes total =>
    "run " ++ run ++ ": batch indexes " ++ showIndexes indexes ++ " do not cover 0.." ++
      toString total
  | .notCompleted => "run " ++ run ++ ": missing run_completed"
  | .completedEarly => "run " ++ run ++ ": run_completed is not the last event"
  | .totalWrong batched reported =>
    "run " ++ run ++ ": batches carry " ++ toString batched ++
      " violations but run_completed reports " ++ toString reported
  | .completedRepeatedly times =>
    "run " ++ run ++ ": run_completed emitted " ++ toString times ++ " times"

/-- The sum of two counts; it stays below the size of a word. -/
def addBounded (a b : Nat) : Nat := min (a + b) (Document.wordSize - 1)

/-- What a check has seen of a stream. -/
structure StreamState where
  /-- The index that the next batch should have. -/
  expected : Nat := 0
  /-- The number of batches according to the first one. -/
  total : Option Nat := none
  /-- How many violations the batches have said to have. -/
  batched : Nat := 0
  /-- The indexes of the batches, in increasing order. -/
  indexes : List Nat := []
  /-- The positions of the completions, with the violations they report. -/
  completions : List (Nat × Nat) := []
  deriving DecidableEq, Repr

namespace StreamState

/-- A number put into a list in increasing order. -/
def insertIndex (index : Nat) : List Nat → List Nat
  | [] => [index]
  | first :: rest =>
    if index < first then index :: first :: rest
    else if index = first then first :: rest
    else first :: insertIndex index rest

def afterBatch (state : StreamState) (batch : ViolationsBatch) : StreamState :=
  { state with
    expected := addBounded batch.batchIndex 1
    total := some (state.total.getD batch.totalBatches)
    batched := addBounded state.batched batch.batchSize
    indexes := insertIndex batch.batchIndex state.indexes }

def batchProblems (state : StreamState) (batch : ViolationsBatch) : List StreamProblem :=
  let index := batch.batchIndex
  let order : List StreamProblem :=
    if state.indexes.contains index then [.indexRepeated index]
    else if index ≠ state.expected then [.indexOutOfOrder index state.expected]
    else []
  let totals : List StreamProblem :=
    match state.total with
    | some total =>
      if total ≠ batch.totalBatches then [.totalChanged index batch.totalBatches total] else []
    | none => []
  (if state.completions.isEmpty then [] else [.batchAfterCompletion index]) ++ order ++
    (if index ≥ batch.totalBatches then [.indexOutOfRange index batch.totalBatches] else []) ++
    totals ++
    (if batch.batchSize ≠ batch.violations.length then
      [.sizeWrong index batch.batchSize batch.violations.length] else [])

def step (run : RunId) (state : StreamState) (position : Nat) (event : LifecycleEvent) :
    List StreamProblem × StreamState :=
  if event.runId ≠ run then ([.foreign position event.name event.runId], state)
  else
    match event with
    | .started _ => (if position > 0 then [.startedAgain position] else [], state)
    | .batch batch => (state.batchProblems batch, state.afterBatch batch)
    | .completed done =>
      ([], { state with completions := state.completions ++ [(position, done.counts.total)] })

def steps (run : RunId) : StreamState → Nat → List LifecycleEvent →
    List StreamProblem × StreamState
  | state, _, [] => ([], state)
  | state, position, event :: events =>
    let (problems, next) := state.step run position event
    let (others, last) := steps run next (position + 1) events
    (problems ++ others, last)

/-- The problems that show at the end of a stream with so many events. -/
def endProblems (state : StreamState) (length : Nat) : List StreamProblem :=
  let total := state.total.getD 0
  let coverage : List StreamProblem :=
    if state.indexes.length ≠ total ∨ state.indexes.any (total ≤ ·) then
      [.indexesMissing state.indexes total]
    else []
  let completion : List StreamProblem :=
    match state.completions with
    | [] => [.notCompleted]
    | [(position, reported)] =>
      (if position + 1 ≠ length then [.completedEarly] else []) ++
        (if reported ≠ state.batched then [.totalWrong state.batched reported] else [])
    | completions => [.completedRepeatedly completions.length]
  coverage ++ completion

end StreamState

def streamProblems (run : RunId) (events : List LifecycleEvent) : List StreamProblem :=
  let first : List StreamProblem :=
    match events with
    | .started _ :: _ => []
    | event :: _ => [.startsWith event.name]
    | [] => []
  let (problems, last) := StreamState.steps run {} 0 events
  first ++ problems ++ last.endProblems events.length

def checkStream (events : List LifecycleEvent) : SequenceReport :=
  match events with
  | [] => SequenceReport.ofViolations ["event stream is empty"]
  | first :: _ =>
    SequenceReport.ofViolations
      ((streamProblems first.runId events).map (StreamProblem.message first.runId))

end RepoPolicy
