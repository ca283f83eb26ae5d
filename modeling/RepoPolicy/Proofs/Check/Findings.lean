import RepoPolicy.Proofs.Finding.ViolationOrder
import RepoPolicy.Run.Engine

set_option autoImplicit false

/-! # What checks find

Every check looks at the members of one list of the inputs, one by one. So what it finds in two
inputs together is what it finds in each of them (`Check.violations_append`), and another order of
the inputs brings forth the same findings in another order (`Check.violations_perm`). What it finds
are violations of its rule, none more serious than its settings say
(`Check.exists_of_mem_violations`). -/

namespace RepoPolicy

/-! ## Inputs -/

namespace Inputs

def append (a b : Inputs) : Inputs where
  imports := a.imports ++ b.imports
  topics := a.topics ++ b.topics
  errors := a.errors ++ b.errors
  contracts := a.contracts ++ b.contracts
  repositories := a.repositories ++ b.repositories

instance : Append Inputs := ⟨append⟩

/-- The same inputs, but for the order of each list. -/
structure Perm (a b : Inputs) : Prop where
  imports : a.imports.Perm b.imports
  topics : a.topics.Perm b.topics
  errors : a.errors.Perm b.errors
  contracts : a.contracts.Perm b.contracts
  repositories : a.repositories.Perm b.repositories

end Inputs

/-! ## Findings of a check -/

namespace Check

variable (check : Check)

theorem findings_append (a b : Inputs) :
    check.findings (a ++ b) = check.findings a ++ check.findings b := by
  cases check with
  | repoBoundaries settings =>
      show settings.findings (a.imports ++ b.imports) = _
      rw [BoundarySettings.findings, List.map_append, List.filter_append]
      rfl
  | forbiddenImports check => exact List.filterMap_append
  | topicNaming check =>
      show check.findings (a.topics ++ b.topics) = _
      rw [TopicCheck.findings, List.map_append, List.filter_append]
      rfl
  | errorTaxonomy settings => exact List.filterMap_append
  | contractSchemaValid settings =>
      show settings.findings (a.contracts ++ b.contracts) = _
      rw [SchemaSettings.findings, List.filter_append, List.flatMap_append]
      rfl
  | dbTableAccess settings method => exact List.flatMap_append
  | dbProjection settings => exact List.flatMap_append

theorem findings_perm {a b : Inputs} (h : a.Perm b) :
    (check.findings a).Perm (check.findings b) := by
  cases check with
  | repoBoundaries settings => exact (h.imports.map _).filter _
  | forbiddenImports check => exact h.imports.filterMap _
  | topicNaming check => exact (h.topics.map _).filter _
  | errorTaxonomy settings => exact h.errors.filterMap _
  | contractSchemaValid settings => exact (h.contracts.filter _).flatMap_right _
  | dbTableAccess settings method => exact h.repositories.flatMap_right _
  | dbProjection settings => exact h.repositories.flatMap_right _

theorem violations_append (a b : Inputs) :
    check.violations (a ++ b) = check.violations a ++ check.violations b := by
  rw [violations, findings_append, List.flatMap_append]
  rfl

theorem violations_perm {a b : Inputs} (h : a.Perm b) :
    (check.violations a).Perm (check.violations b) :=
  (check.findings_perm h).flatMap_right _

/-- **A check makes violations of its rule**, with the severity of its settings or as warnings. -/
theorem exists_of_mem_violations {check : Check} {inputs : Inputs} {v : Violation}
    (h : v ∈ check.violations inputs) :
    ∃ filePath symbol severity message, (severity = check.severity ∨ severity = .warning) ∧
      v = Violation.new check.rule filePath symbol severity message := by
  obtain ⟨located, -, hlocated⟩ := List.mem_flatMap.1 h
  rcases List.mem_append.1 hlocated with herror | hwarning
  · obtain ⟨message, -, rfl⟩ := List.mem_map.1 herror
    exact ⟨_, _, _, message, .inl rfl, rfl⟩
  · obtain ⟨message, -, rfl⟩ := List.mem_map.1 hwarning
    exact ⟨_, _, _, message, .inr rfl, rfl⟩

end Check

/-! ## Findings of an engine -/

namespace Engine

variable (engine : Engine)

def collect (inputs : Inputs) : List Violation :=
  engine.checks.flatMap fun check => check.violations inputs

theorem evaluate_perm_collect (inputs : Inputs) :
    (engine.evaluate inputs).Perm (engine.collect inputs) :=
  Violation.sort_perm _

end Engine

end RepoPolicy
