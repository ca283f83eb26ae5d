import RepoPolicy.Proofs.Event.Interleavings
import RepoPolicy.Proofs.Event.Streams
import RepoPolicy.Run.Engine

set_option autoImplicit false

/-! # What runs publish is accepted

Every run of an engine publishes a stream that `checkStream` accepts, and the batches of the stream
carry the violations of its report. Runs with different identifiers do not disturb each other: the
milestones of any interleaving of their streams are accepted by `checkSequence`
(`interleaved_runs_are_accepted`). -/

namespace RepoPolicy

/-- A run of an engine: the identifier it gets, what it looks at, and what is known before. -/
structure RunCall where
  engine : Engine
  runId : RunId
  inputs : Inputs
  baseline : Option Baseline := none

def RunCall.perform (call : RunCall) : Run :=
  call.engine.run call.runId call.inputs call.baseline

def LifecycleEvent.payloads : LifecycleEvent → List ViolationPayload
  | .batch event => event.violations
  | _ => []

namespace RunCall

variable (call : RunCall)

def batches : List ViolationsBatch :=
  buildBatches call.runId call.engine.policy.repoId call.perform.report.violations
    call.engine.policy.batchSize

def completion : RunCompleted :=
  { runId := call.runId
    status := call.perform.report.status
    counts := call.perform.report.counts }

def beginning : RunStarted :=
  { runId := call.runId
    repoId := call.engine.policy.repoId
    rootPath := call.engine.policy.rootPath
    policyName := call.engine.policy.name
    rulesEnabled := call.engine.rules
    baselineApplied := call.baseline.isSome }

theorem events_perform :
    call.perform.events
      = .started call.beginning :: (call.batches.map .batch ++ [.completed call.completion]) := rfl

theorem total_perform :
    call.perform.report.counts.total = call.perform.report.violations.length := rfl

theorem length_batches_le : call.batches.length ≤ call.perform.report.violations.length := by
  rw [batches, length_buildBatches]
  exact length_chunks_le _ _

/-- All events of a run belong to it. -/
theorem runId_of_mem_events {event : LifecycleEvent} (h : event ∈ call.perform.events) :
    event.runId = call.runId := by
  rw [events_perform] at h
  simp only [List.mem_cons, List.mem_append, List.mem_map, List.not_mem_nil, or_false] at h
  rcases h with rfl | ⟨batch, hbatch, rfl⟩ | rfl
  · rfl
  · rw [batches, buildBatches] at hbatch
    obtain ⟨⟨piece, index⟩, -, rfl⟩ := List.mem_map.1 hbatch
    rfl
  · rfl

/-! ## The stream of one run -/

/-- The stream of a run is accepted if its violations can be counted. -/
theorem checkStream_perform (hsmall : call.perform.report.violations.length < Document.wordSize) :
    (checkStream call.perform.events).isValid = true := by
  have hsum : (call.batches.map ViolationsBatch.batchSize).sum
      = call.perform.report.violations.length :=
    sum_batchSize_buildBatches _ _ _ _
  have hcount := call.length_batches_le
  rw [events_perform]
  apply checkStream_numbered
  · exact numberedFrom_buildBatches _ _ _ _
  · rfl
  · rw [hsum]
    exact call.total_perform
  · omega
  · omega

/-- The batches of a run carry the violations of its report, in their order. -/
theorem payloads_perform :
    call.perform.events.flatMap LifecycleEvent.payloads
      = call.perform.report.violations.map ViolationPayload.ofViolation := by
  have hbatches : (call.batches.map LifecycleEvent.batch).flatMap LifecycleEvent.payloads
      = call.batches.flatMap ViolationsBatch.violations := by
    rw [List.flatMap_map]
    rfl
  rw [events_perform, List.flatMap_cons, List.flatMap_append, hbatches, batches,
    payloads_buildBatches]
  simp [LifecycleEvent.payloads]

/-! ## The milestones of one run -/

def ending : MilestoneKind :=
  match call.perform.report.status with
  | .passed => .passed
  | .failed => .failed

theorem milestones_perform :
    call.perform.events.filterMap Milestone.ofLifecycle?
      = [⟨call.runId, .started⟩, ⟨call.runId, call.ending⟩] := by
  -- batches are no milestones, so only the first event and the last one are left
  have hbatches : (call.batches.map LifecycleEvent.batch).filterMap Milestone.ofLifecycle? = [] := by
    rw [List.filterMap_eq_nil_iff]
    intro event hevent
    obtain ⟨batch, -, rfl⟩ := List.mem_map.1 hevent
    rfl
  have hend : Milestone.ofLifecycle? (.completed call.completion)
      = some ⟨call.runId, call.ending⟩ := by
    rw [Milestone.ofLifecycle?, ending]
    cases hstatus : call.perform.report.status with
    | passed => simp [completion, hstatus]
    | failed => simp [completion, hstatus]
  have hstart : Milestone.ofLifecycle? (.started call.beginning)
      = some ⟨call.runId, .started⟩ := rfl
  rw [events_perform, List.filterMap_cons_some hstart, List.filterMap_append, hbatches,
    List.nil_append, List.filterMap_cons_some hend, List.filterMap_nil]

/-- Of the two milestones of a run, neither breaches what comes before it. -/
theorem breach?_milestones {earlier later : List Milestone} {milestone : Milestone}
    (h : [⟨call.runId, .started⟩, ⟨call.runId, call.ending⟩] = earlier ++ milestone :: later) :
    milestone.breach? earlier = none := by
  cases earlier with
  | nil =>
      obtain ⟨rfl, -⟩ := List.cons.inj h
      rfl
  | cons first rest =>
      obtain ⟨rfl, hrest⟩ := List.cons.inj h
      cases rest with
      | nil =>
          obtain ⟨rfl, -⟩ := List.cons.inj hrest
          rw [ending]
          cases call.perform.report.status <;> simp [Milestone.breach?]
      | cons second rest =>
          have := congrArg List.length hrest
          simp at this

end RunCall

/-! ## Many runs -/

/-- Of an interleaving of runs with different identifiers, each run sees its own events. -/
theorem filter_interleaving_events {calls : List RunCall} {history : List LifecycleEvent}
    (hdistinct : (calls.map RunCall.runId).Nodup)
    (h : Interleaving (calls.map fun call => call.perform.events) history)
    {call : RunCall} (hcall : call ∈ calls) :
    history.filter (·.runId == call.runId) = call.perform.events := by
  obtain ⟨i, hi⟩ := List.mem_iff_getElem?.1 hcall
  refine Interleaving.filter_eq _ h i _ ?_ ?_ ?_
  · rw [List.getElem?_map, hi]
    rfl
  · intro event hevent
    simp [call.runId_of_mem_events hevent]
  · intro j other hother hne event hevent
    rw [List.getElem?_map, Option.map_eq_some_iff] at hother
    obtain ⟨call', hcall', rfl⟩ := hother
    rw [call'.runId_of_mem_events hevent, beq_eq_false_iff_ne]
    intro hsame
    -- Two positions with one identifier would repeat it.
    have hids : (calls.map RunCall.runId)[j]? = (calls.map RunCall.runId)[i]? := by
      rw [List.getElem?_map, List.getElem?_map, hi, hcall', Option.map_some, Option.map_some, hsame]
    have hj : j < (calls.map RunCall.runId).length := by
      rw [List.length_map]
      exact (List.getElem?_eq_some_iff.1 hcall').1
    exact hne ((List.getElem?_inj hj hdistinct).1 hids)

/-- **Runs satisfy both checks of their events.** For any runs with different identifiers and
violations that can be counted, the stream of each run is accepted and carries the violations of
its report in their order, and the milestones of every interleaving of the streams are accepted. -/
theorem interleaved_runs_are_accepted (calls : List RunCall)
    (hdistinct : (calls.map RunCall.runId).Nodup)
    (hsmall : ∀ call ∈ calls, call.perform.report.violations.length < Document.wordSize) :
    (∀ call ∈ calls, (checkStream call.perform.events).isValid = true ∧
        call.perform.events.flatMap LifecycleEvent.payloads
          = call.perform.report.violations.map ViolationPayload.ofViolation) ∧
      ∀ history, Interleaving (calls.map fun call => call.perform.events) history →
        (checkSequence (history.filterMap Milestone.ofLifecycle?)).isValid = true := by
  refine ⟨fun call hcall => ⟨call.checkStream_perform (hsmall call hcall), call.payloads_perform⟩, ?_⟩
  intro history hhistory
  rw [checkSequence_isValid_iff]
  intro earlier milestone later heq
  -- The milestone belongs to an event of the history, and so to one of the runs.
  have hmem : milestone ∈ history.filterMap Milestone.ofLifecycle? := by
    rw [heq]
    simp
  obtain ⟨event, hevent, hmilestone⟩ := List.mem_filterMap.1 hmem
  obtain ⟨list, hlist, hin⟩ := hhistory.mem_lists event hevent
  obtain ⟨call, hcall, rfl⟩ := List.mem_map.1 hlist
  have hrun : milestone.runId = call.runId := by
    rw [Milestone.runId_of_ofLifecycle? hmilestone, call.runId_of_mem_events hin]
  -- What precedes it in its own run decides.
  have hown : (earlier ++ milestone :: later).filter (·.runId == call.runId)
      = [⟨call.runId, .started⟩, ⟨call.runId, call.ending⟩] := by
    rw [← heq, filter_filterMap_ofLifecycle?, filter_interleaving_events hdistinct hhistory hcall,
      call.milestones_perform]
  rw [List.filter_append, List.filter_cons_of_pos (by simp [hrun])] at hown
  rw [← Milestone.breach?_filter, hrun]
  exact call.breach?_milestones hown.symm

/-- A run that misses two fields of a contract and publishes each violation in a batch of its
own. -/
def RunCall.missingFields (runId : RunId) : RunCall where
  engine :=
    { policy := { name := "strict", batchSize := 1 }
      checks := [.contractSchemaValid { requiredFields := ["name", "version"] }] }
  runId := runId
  inputs := { contracts := [{ filePath := "users.yaml", name := "users" }] }

theorem RunCall.length_missingFields (runId : RunId) :
    (missingFields runId).perform.report.violations.length = 2 := by
  show (Violation.sort _).length = 2
  rw [Violation.sort, List.length_mergeSort]
  rfl

/-- Two runs that start together and then publish one after the other. -/
theorem interleaved_runs_missing_fields :
    (∀ runId ∈ ["first", "second"],
        (checkStream (RunCall.missingFields runId).perform.events).isValid = true) ∧
      (checkSequence
          ((.started (RunCall.missingFields "first").beginning
            :: .started (RunCall.missingFields "second").beginning
            :: ((RunCall.missingFields "first").perform.events.tail
              ++ (RunCall.missingFields "second").perform.events.tail)).filterMap
            Milestone.ofLifecycle?)).isValid = true := by
  have hruns := interleaved_runs_are_accepted
    [RunCall.missingFields "first", RunCall.missingFields "second"] (by decide) (by
      intro call hcall
      simp only [List.mem_cons, List.not_mem_nil, or_false] at hcall
      rcases hcall with rfl | rfl <;> rw [RunCall.length_missingFields] <;> decide)
  refine ⟨?_, ?_⟩
  · intro runId hid
    simp only [List.mem_cons, List.not_mem_nil, or_false] at hid
    rcases hid with rfl | rfl
    · exact (hruns.1 _ (by simp)).1
    · exact (hruns.1 _ (by simp)).1
  · apply hruns.2
    refine .next 0 _ (RunCall.missingFields "first").perform.events.tail rfl ?_
    refine .next 1 _ (RunCall.missingFields "second").perform.events.tail rfl ?_
    exact Interleaving.append _ _

end RepoPolicy
