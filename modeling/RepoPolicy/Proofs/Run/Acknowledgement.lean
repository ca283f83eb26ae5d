import Mathlib.Data.List.Sort
import RepoPolicy.Proofs.Baseline.Operations
import RepoPolicy.Proofs.Run.Verdict

set_option autoImplicit false

/-! # Acknowledged violations

What a run finds does not depend on the baseline. A larger baseline moves violations from the new to
the known ones and never the other way, so it can only relax a verdict (`Report.Relaxes`). A baseline
with exactly the fingerprints that are found clears the run (`Report.Cleared`), and the baseline of an
earlier report is one, also after it has been saved and loaded. -/

namespace RepoPolicy

open RepoPolicy.Text

/-! ## Larger baselines -/

structure Report.Relaxes (lenient strict : Report) : Prop where
  violations : lenient.violations = strict.violations
  new : lenient.new.Sublist strict.new
  persistent : strict.persistent.Sublist lenient.persistent
  fixed : strict.fixed.Sublist lenient.fixed
  passed : strict.status = .passed → lenient.status = .passed

namespace Baseline

section Larger

variable {known more : Baseline} (h : known.fingerprints ⊆ more.fingerprints)
  (violations : List Violation)

include h

theorem newViolations_sublist :
    (more.newViolations violations).Sublist (known.newViolations violations) := by
  rw [Report.newViolations_eq, Report.newViolations_eq]
  refine List.monotone_filter_right violations fun v hnew => ?_
  simp only [decide_eq_true_eq] at hnew ⊢
  exact fun hknown => hnew (h hknown)

theorem persistentViolations_sublist :
    (known.persistentViolations violations).Sublist (more.persistentViolations violations) := by
  rw [Report.persistentViolations_eq, Report.persistentViolations_eq]
  refine List.monotone_filter_right violations fun v hknown => ?_
  simp only [decide_eq_true_eq] at hknown ⊢
  exact h hknown

/-- The known fingerprints are sorted, so those of a smaller baseline are a part of the list. -/
theorem fixedFingerprints_sublist :
    (known.fixedFingerprints violations).Sublist (more.fixedFingerprints violations) := by
  have hsubperm : known.fingerprints.Subperm more.fingerprints :=
    List.subperm_of_subset (known.sorted.imp ne_of_lt) h
  exact (List.sublist_of_subperm_of_pairwise hsubperm known.sorted more.sorted).filter _

end Larger

end Baseline

theorem Report.status_eq_passed_iff (runId : RunId) (policyName repoId : String) (known : Baseline)
    (violations : List Violation) :
    (ofViolations runId policyName repoId known violations).status = .passed ↔
      (known.newViolations violations).countP Violation.isError = 0 := by
  show (if (known.newViolations violations).countP Violation.isError > 0 then RunStatus.failed
    else RunStatus.passed) = .passed ↔ _
  split
  · simp only [reduceCtorEq, false_iff]
    omega
  · simp only [true_iff]
    omega

/-- **A larger baseline relaxes the report.** -/
theorem Engine.report_relaxes (engine : Engine) (inputs : Inputs) (first second : RunId)
    {known more : Option Baseline}
    (h : (known.getD .empty).fingerprints ⊆ (more.getD .empty).fingerprints) :
    (engine.run second inputs more).report.Relaxes (engine.run first inputs known).report where
  violations := rfl
  new := Baseline.newViolations_sublist h _
  persistent := Baseline.persistentViolations_sublist h _
  fixed := Baseline.fixedFingerprints_sublist h _
  passed := by
    intro hpassed
    have hnone := (Report.status_eq_passed_iff _ _ _ _ _).1 hpassed
    refine (Report.status_eq_passed_iff _ _ _ _ _).2 (Nat.le_zero.1 ?_)
    exact hnone ▸ (Baseline.newViolations_sublist h _).countP_le

/-! ## Baselines of reports -/

/-- A report on which all is known that is found, and nothing else. -/
structure Report.Cleared (report : Report) (found : List Violation) : Prop where
  status : report.status = .passed
  violations : report.violations = found
  new : report.new = []
  persistent : report.persistent = found
  fixed : report.fixed = []

theorem Report.cleared_ofViolations (runId : RunId) (policyName repoId : String) {known : Baseline}
    {found : List Violation}
    (h : ∀ fingerprint, fingerprint ∈ known.fingerprints ↔
      fingerprint ∈ found.map (·.fingerprint)) :
    (ofViolations runId policyName repoId known found).Cleared found := by
  -- every violation is known, so none of them is new and all of them persist
  have hknown : ∀ v ∈ found, v.fingerprint ∈ known.fingerprints :=
    fun v hv => (h _).2 (List.mem_map_of_mem hv)
  have hnew : known.newViolations found = [] := by
    rw [newViolations_eq, List.filter_eq_nil_iff]
    simpa using hknown
  exact {
    status := (status_eq_passed_iff _ _ _ _ _).2 (by rw [hnew]; rfl)
    violations := rfl
    new := hnew
    persistent := by
      refine (persistentViolations_eq known found).trans (List.filter_eq_self.2 ?_)
      simpa using hknown
    fixed := NameSet.diff_eq_nil_iff.2 fun fingerprint => (h fingerprint).1 }

namespace Baseline

/-- A well-formed baseline can be loaded from where it was saved, with its fingerprints. -/
theorem WellFormed.exists_loaded {baseline : Baseline} (h : baseline.WellFormed) :
    ∃ loaded : Baseline, ofJson baseline.toJson = .ok loaded ∧
      ofFile (some baseline.toJson.toUTF8) = .ok loaded ∧
      loaded.fingerprints = baseline.fingerprints := by
  have hload := h.ofJson_toJson_eq_ok
  exact ⟨_, hload, by rw [ofFile_toUTF8, hload], h.fingerprints_sorted⟩

end Baseline

theorem Engine.made_of_mem_evaluate {engine : Engine} {inputs : Inputs} {v : Violation}
    (h : v ∈ engine.evaluate inputs) : v.Made := by
  have hcollected : v ∈ engine.collect inputs := (engine.evaluate_perm_collect inputs).mem_iff.1 h
  obtain ⟨check, -, hfound⟩ := List.mem_flatMap.1 hcollected
  obtain ⟨_, _, _, _, -, rfl⟩ := Check.exists_of_mem_violations hfound
  exact Violation.made_new _ _ _ _ _

/-- **Baselines only relax a verdict, and acknowledging a run clears it.** With a larger baseline the
new violations are a part of those before, the known and the fixed ones contain those before, and a
run that has passed still passes. Run again with the baseline of its own violations, or with that
baseline after it has been saved and loaded, an engine finds nothing new and nothing fixed. -/
theorem acknowledged_run_is_cleared (engine : Engine) (inputs : Inputs) (first second : RunId) :
    (∀ known more : Option Baseline,
      (known.getD .empty).fingerprints ⊆ (more.getD .empty).fingerprints →
      (engine.run second inputs more).report.Relaxes (engine.run first inputs known).report) ∧
    ∀ known : Option Baseline,
      let found := (engine.run first inputs known).report.violations
      let acknowledged := Baseline.ofViolations found
      (engine.run second inputs (some acknowledged)).report.Cleared found ∧
      ∃ loaded : Baseline, Baseline.ofJson acknowledged.toJson = .ok loaded ∧
        Baseline.ofFile (some acknowledged.toJson.toUTF8) = .ok loaded ∧
        (engine.run second inputs (some loaded)).report.Cleared found := by
  refine ⟨fun known more h => engine.report_relaxes inputs first second h, fun known => ?_⟩
  intro found acknowledged
  have hknown : ∀ fingerprint, fingerprint ∈ acknowledged.fingerprints ↔
      fingerprint ∈ found.map (·.fingerprint) :=
    fun _ => Baseline.mem_fingerprints_ofViolations
  have hmade : ∀ v ∈ found, v.Made := fun _ hv => Engine.made_of_mem_evaluate hv
  obtain ⟨loaded, hjson, hfile, hsame⟩ :=
    (Baseline.wellFormed_ofViolations hmade).exists_loaded
  refine ⟨Report.cleared_ofViolations _ _ _ hknown, loaded, hjson, hfile, ?_⟩
  exact Report.cleared_ofViolations _ _ _ (hsame ▸ hknown)

/-- A run that does not pass is cleared by its own violations, which is more lenient than to know
nothing. -/
theorem faulty_inputs_are_acknowledged :
    (Engine.lenient.run "first" .faulty none).report.status ≠ .passed ∧
      (Engine.lenient.run "second" .faulty (some (Baseline.ofViolations
        (Engine.lenient.run "first" .faulty none).report.violations))).report.Cleared
          (Engine.lenient.run "first" .faulty none).report.violations ∧
      (Engine.lenient.run "second" .faulty (some (Baseline.ofViolations
        (Engine.lenient.run "first" .faulty none).report.violations))).report.Relaxes
          (Engine.lenient.run "first" .faulty none).report := by
  obtain ⟨hrelaxes, hclears⟩ := acknowledged_run_is_cleared .lenient .faulty "first" "second"
  refine ⟨?_, (hclears none).1, hrelaxes none _ (List.nil_subset _)⟩
  intro hpassed
  have hnone := List.countP_eq_zero.1 ((Report.status_eq_passed_iff _ _ _ _ _).1 hpassed)
  -- With nothing known, the forbidden error is new.
  have hfound := (Engine.lenient.evaluate_perm_collect .faulty).mem_iff.2 List.mem_cons_self
  exact hnone _ (List.mem_filter.2 ⟨hfound, rfl⟩) rfl

end RepoPolicy
