import Mathlib.Data.List.Perm.Basic
import RepoPolicy.Proofs.Check.Findings

set_option autoImplicit false

/-! # Reports do not depend on the order of the inputs

The checks of an engine look at the members of the inputs one by one, and the order of a report is
determined by the violations in it. So inputs can be reordered, and divided into parts that are
evaluated on their own, without a change to what is reported
(`evaluation_ignores_order_and_split`). Two runs on the same inputs in different orders differ in
their identifiers only. -/

namespace RepoPolicy

namespace Engine

variable (engine : Engine)

/-! ## Evaluation -/

theorem made_of_mem_collect {inputs : Inputs} {v : Violation} (h : v ∈ engine.collect inputs) :
    v.Made := by
  obtain ⟨check, -, hfound⟩ := List.mem_flatMap.1 h
  obtain ⟨filePath, symbol, severity, message, -, rfl⟩ := Check.exists_of_mem_violations hfound
  exact Violation.made_new check.rule filePath symbol severity message

theorem collect_append_perm (a b : Inputs) :
    (engine.collect a ++ engine.collect b).Perm (engine.collect (a ++ b)) := by
  simp only [collect, Check.violations_append]
  exact List.flatMap_append_perm _ _ _

theorem collect_perm {a b : Inputs} (h : a.Perm b) :
    (engine.collect a).Perm (engine.collect b) :=
  List.Perm.flatMap_left _ fun check _ => check.violations_perm h

/-- Inputs in another order are evaluated in the same way. -/
theorem evaluate_eq_of_perm {a b : Inputs} (h : a.Perm b) :
    engine.evaluate a = engine.evaluate b :=
  Violation.sort_eq_of_perm (fun _ hv => engine.made_of_mem_collect hv) (engine.collect_perm h)

/-- Inputs can be evaluated in two parts. -/
theorem evaluate_append (a b : Inputs) :
    engine.evaluate (a ++ b) = Violation.sort (engine.evaluate a ++ engine.evaluate b) := by
  have hparts : (engine.evaluate a ++ engine.evaluate b).Perm
      (engine.collect a ++ engine.collect b) :=
    (engine.evaluate_perm_collect a).append (engine.evaluate_perm_collect b)
  have hperm := hparts.trans (engine.collect_append_perm a b)
  exact Violation.sort_eq_of_perm (fun _ hv => engine.made_of_mem_collect hv) hperm.symm

end Engine

/-! ## Runs -/

def LifecycleEvent.forRun (runId : RunId) : LifecycleEvent → LifecycleEvent
  | .started event => .started { event with runId }
  | .batch event => .batch { event with runId }
  | .completed event => .completed { event with runId }

theorem buildBatches_forRun (runId otherId : RunId) (repoId : String)
    (violations : List Violation) (size : Nat) :
    (buildBatches otherId repoId violations size).map LifecycleEvent.batch
      = ((buildBatches runId repoId violations size).map LifecycleEvent.batch).map
          (LifecycleEvent.forRun otherId) := by
  simp only [buildBatches, List.map_map]
  rfl

namespace Engine

variable (engine : Engine)

/-- The report of a run has its identifier, and depends on the evaluation in all else. -/
theorem report_forRun {inputs other : Inputs} (h : engine.evaluate other = engine.evaluate inputs)
    (runId otherId : RunId) (baseline : Option Baseline) :
    engine.report otherId other baseline
      = { engine.report runId inputs baseline with runId := otherId } := by
  rw [report, report, h]
  rfl

/-- The same holds of its events. -/
theorem events_forRun {inputs other : Inputs} (h : engine.evaluate other = engine.evaluate inputs)
    (runId otherId : RunId) (baseline : Option Baseline) :
    (engine.run otherId other baseline).events
      = (engine.run runId inputs baseline).events.map (LifecycleEvent.forRun otherId) := by
  simp only [run, endEvents, engine.report_forRun h runId otherId baseline, List.map_cons,
    List.map_append]
  rw [buildBatches_forRun runId otherId]
  rfl

end Engine

/-- **Reports depend neither on the order of the inputs nor on how they are divided.** If the inputs
are reordered and divided in two, then the violations of the whole are those of the parts, sorted
together. Runs on the same inputs in different orders have the same reports and the same events but
for their identifiers. -/
theorem evaluation_ignores_order_and_split (engine : Engine) {whole a b : Inputs}
    (hsplit : whole.Perm (a ++ b)) :
    engine.evaluate whole = Violation.sort (engine.evaluate a ++ engine.evaluate b) ∧
      ∀ other : Inputs, other.Perm whole →
        ∀ (runId otherId : RunId) (baseline : Option Baseline),
          (engine.run otherId other baseline).report
              = { (engine.run runId whole baseline).report with runId := otherId } ∧
            (engine.run otherId other baseline).events
              = (engine.run runId whole baseline).events.map (LifecycleEvent.forRun otherId) := by
  constructor
  · rw [engine.evaluate_eq_of_perm hsplit, engine.evaluate_append]
  · intro other hother runId otherId baseline
    have heval := engine.evaluate_eq_of_perm hother
    exact ⟨engine.report_forRun heval runId otherId baseline,
      engine.events_forRun heval runId otherId baseline⟩

def Engine.forbidsException : Engine where
  policy := { name := "strict" }
  checks := [.errorTaxonomy { forbiddenRaises := ["Exception"] }]

def Inputs.raisesException (files : List String) : Inputs where
  errors := files.map fun filePath => { filePath, errorType := "Exception", kind := .raise }

/-- What is found twice is reported twice, also if each part holds it once. -/
theorem evaluation_of_divided_raises :
    let engine := Engine.forbidsException
    let whole := Inputs.raisesException ["a", "b", "a"]
    let other := Inputs.raisesException ["b", "a", "a"]
    (engine.evaluate whole).length = 3 ∧
      engine.evaluate whole
        = Violation.sort (engine.evaluate (.raisesException ["a"]) ++
            engine.evaluate (.raisesException ["a", "b"])) ∧
      (engine.run "second" other none).report
        = { (engine.run "first" whole none).report with runId := "second" } := by
  intro engine whole other
  have hperm : ∀ files others : List String, files.Perm others →
      (Inputs.raisesException files).Perm (.raisesException others) := by
    intro files others h
    exact ⟨.nil, .nil, h.map _, .nil, .nil⟩
  have hsplit : whole.Perm (.raisesException ["a"] ++ .raisesException ["a", "b"]) :=
    hperm ["a", "b", "a"] ["a", "a", "b"] (by decide)
  obtain ⟨hwhole, hruns⟩ := evaluation_ignores_order_and_split engine hsplit
  refine ⟨?_, hwhole, (hruns other (hperm _ _ (by decide)) "first" "second" none).1⟩
  rw [(engine.evaluate_perm_collect whole).length_eq]
  rfl

end RepoPolicy
