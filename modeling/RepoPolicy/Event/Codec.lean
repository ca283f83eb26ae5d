import RepoPolicy.Event.Instant
import RepoPolicy.Event.Milestone
import RepoPolicy.Event.Sequence
import RepoPolicy.Finding.Codec

set_option autoImplicit false

/-! # Events as documents -/

namespace RepoPolicy

open RepoPolicy.Document

def RunId.decode : Decoder RunId := fun value => do RunId.ofText? (← Decoder.string value)

def RunCounts.decode : Decoder RunCounts := fun value => do
  let f ← Decoder.fields value
  return {
    total := ← f.required "total" Decoder.nat
    errors := ← f.required "errors" Decoder.nat
    warnings := ← f.required "warnings" Decoder.nat
    new := ← f.required "new" Decoder.nat
    newErrors := ← f.required "new_errors" Decoder.nat
    persistent := ← f.required "persistent" Decoder.nat
    fixed := ← f.required "fixed" Decoder.nat }

def RunCounts.encode (counts : RunCounts) : Value :=
  .record [("total", .nat counts.total), ("errors", .nat counts.errors),
    ("warnings", .nat counts.warnings), ("new", .nat counts.new),
    ("new_errors", .nat counts.newErrors), ("persistent", .nat counts.persistent),
    ("fixed", .nat counts.fixed)]

/-! ## Events of a run -/

def ViolationPayload.decode : Decoder ViolationPayload := fun value => do
  let f ← Decoder.fields value
  return {
    severity := ← f.required "severity" Severity.decode
    message := ← f.required "message" Decoder.string
    ruleName := ← f.required "rule_name" Decoder.string
    fingerprint := ← f.optional "fingerprint" Decoder.string }

def ViolationPayload.encode (payload : ViolationPayload) : Value :=
  .record <|
    [("severity", .string payload.severity.name), ("message", .string payload.message),
      ("rule_name", .string payload.ruleName)] ++
    (payload.fingerprint.map fun text => ("fingerprint", Value.string text)).toList

/-- Read the start of a run. The time of the start must be given; it is not kept. -/
def RunStarted.decode (f : Fields) : Option RunStarted := do
  let startedAt ← f.required "started_at" Decoder.string
  if Instant.isInstant startedAt then
    return {
      runId := ← f.required "run_id" RunId.decode
      repoId := ← f.required "repo_id" Decoder.string
      rootPath := ← f.required "root_path" Decoder.string
      policyName := ← f.required "policy_name" Decoder.string
      rulesEnabled := ← f.required "rules_enabled" (Decoder.list Rule.decode)
      baselineApplied := ← f.required "baseline_applied" Decoder.bool }
  else none

def ViolationsBatch.decode (f : Fields) : Option ViolationsBatch := do
  return {
    runId := ← f.required "run_id" RunId.decode
    repoId := ← f.required "repo_id" Decoder.string
    batchIndex := ← f.required "batch_index" Decoder.nat
    batchSize := ← f.required "batch_size" Decoder.nat
    totalBatches := ← f.required "total_batches" Decoder.nat
    violations := ← f.required "violations" (Decoder.list ViolationPayload.decode) }

def ViolationsBatch.fields (batch : ViolationsBatch) : Fields :=
  [("run_id", .string batch.runId), ("repo_id", .string batch.repoId),
    ("batch_index", .nat batch.batchIndex), ("batch_size", .nat batch.batchSize),
    ("total_batches", .nat batch.totalBatches),
    ("violations", .list (batch.violations.map ViolationPayload.encode))]

def RunCompleted.decode (f : Fields) : Option RunCompleted := do
  return {
    runId := ← f.required "run_id" RunId.decode
    status := ← f.required "status" (Decoder.oneOf RunStatus.names)
    counts := ← f.required "counts" RunCounts.decode }

def LifecycleEvent.decode : Decoder LifecycleEvent := fun value => do
  let f ← Decoder.fields value
  match ← f.required "event" Decoder.string with
  | "run_started" => return .started (← RunStarted.decode f)
  | "violations_batch" => return .batch (← ViolationsBatch.decode f)
  | "run_completed" => return .completed (← RunCompleted.decode f)
  | _ => none

def LifecycleEvent.fields : LifecycleEvent → Fields
  | .started event =>
    [("run_id", .string event.runId), ("repo_id", .string event.repoId),
      ("root_path", .string event.rootPath), ("policy_name", .string event.policyName),
      ("rules_enabled", .list (event.rulesEnabled.map (.string ·.name))),
      ("baseline_applied", .bool event.baselineApplied)]
  | .batch event => event.fields
  | .completed event =>
    [("run_id", .string event.runId), ("status", .string event.status.name),
      ("counts", event.counts.encode)]

def LifecycleEvent.encode (event : LifecycleEvent) : Value :=
  .record (("event", .string event.name) :: event.fields)

/-! ## Milestones and reports -/

def Milestone.decode : Decoder Milestone := fun value => do
  let f ← Decoder.fields value
  return {
    runId := ← f.required "run_id" Decoder.string
    kind := ← f.required "kind" (Decoder.oneOf MilestoneKind.names) }

def Milestone.encode (milestone : Milestone) : Value :=
  .record [("run_id", .string milestone.runId), ("kind", .string milestone.kind.name)]

def SequenceReport.encode (report : SequenceReport) : Value :=
  .record [("is_valid", .bool report.isValid),
    ("violations", .list (report.violations.map .string))]

end RepoPolicy
