import Mathlib.Data.List.Dedup
import RepoPolicy.Proofs.Baseline.Entries
import RepoPolicy.Proofs.Check.Compilation
import RepoPolicy.Proofs.Check.Findings

set_option autoImplicit false

/-! # The verdict of a run is exact

A report sorts the violations of a run, compares them with a baseline, counts them and judges the
run. `Report.IsExact` says what each of its fields has to be in terms of the violations and of the
known fingerprints, and `run_verdict_is_exact` that every report of a run is so. The severities of a
policy are respected: what a rule with warnings finds is never an error. -/

namespace RepoPolicy

open RepoPolicy.Text

namespace Report

/-! ## What a report has to say -/

/-- The lists of a report: its violations in order, those that are known and those that are not, and
the known fingerprints that no violation has, in increasing order. -/
structure ListsExact (report : Report) (known : Baseline) : Prop where
  sorted : report.violations.Pairwise fun v w => v.sortKey ≤ w.sortKey
  persistent : report.persistent
    = report.violations.filter fun v => v.fingerprint ∈ known.fingerprints
  new : report.new = report.violations.filter fun v => v.fingerprint ∉ known.fingerprints
  fixed_sorted : report.fixed.Pairwise (· < ·)
  mem_fixed : ∀ fingerprint, fingerprint ∈ report.fixed ↔
    fingerprint ∈ known.fingerprints ∧ ∀ v ∈ report.violations, v.fingerprint ≠ fingerprint

/-- The counts of a report. No count is larger than the one that it is taken from, so that the
differences are proper. Of the known fingerprints, those that are fixed and the different ones among
the persistent violations are all. -/
structure CountsExact (report : Report) (known : Baseline) : Prop where
  total : report.counts.total = report.violations.length
  errors : report.counts.errors = report.violations.countP fun v => v.severity = .error
  warnings : report.counts.warnings = report.violations.countP fun v => v.severity = .warning
  errors_le : report.counts.errors ≤ report.counts.total
  total_eq_severities : report.counts.total = report.counts.errors + report.counts.warnings
  new : report.counts.new = report.new.length
  newErrors : report.counts.newErrors = report.new.countP fun v => v.severity = .error
  persistent : report.counts.persistent = report.persistent.length
  new_le : report.counts.new ≤ report.counts.total
  total_eq_parts : report.counts.total = report.counts.new + report.counts.persistent
  fixed : report.counts.fixed = report.fixed.length
  fixed_add_known : report.counts.fixed + (report.persistent.map (·.fingerprint)).dedup.length
    = known.fingerprints.length

def HasNewError (report : Report) (known : Baseline) : Prop :=
  ∃ v ∈ report.violations, v.severity = .error ∧ v.fingerprint ∉ known.fingerprints

structure VerdictExact (report : Report) (known : Baseline) : Prop where
  failed_iff : report.status = .failed ↔ report.HasNewError known
  passed_iff : report.status = .passed ↔ ¬ report.HasNewError known
  code_failed : report.exitStatus.code = 1 ↔ report.HasNewError known
  code_passed : report.exitStatus.code = 0 ↔ ¬ report.HasNewError known

structure IsExact (report : Report) (known : Baseline) : Prop where
  lists : report.ListsExact known
  counts : report.CountsExact known
  verdict : report.VerdictExact known

def Respects (report : Report) (rules : RuleSet) : Prop :=
  ∀ rule settings, rules.common rule = some settings → settings.severity = .warning →
    ∀ v ∈ report.violations, v.rule = rule → v.severity ≠ .error

/-! ## The report on violations -/

variable (runId : RunId) (policyName repoId : String) (known : Baseline)
  (violations : List Violation)

theorem persistentViolations_eq :
    known.persistentViolations violations
      = violations.filter fun v => v.fingerprint ∈ known.fingerprints := by
  apply List.filter_congr
  intro v _
  rw [Bool.eq_iff_iff, decide_eq_true_eq, Baseline.contains_iff]

theorem newViolations_eq :
    known.newViolations violations
      = violations.filter fun v => v.fingerprint ∉ known.fingerprints := by
  apply List.filter_congr
  intro v _
  rw [decide_not, Bool.not_inj_iff, Bool.eq_iff_iff, decide_eq_true_eq, Baseline.contains_iff]

theorem listsExact_ofViolations
    (hsorted : violations.Pairwise fun v w => v.sortKey ≤ w.sortKey) :
    (ofViolations runId policyName repoId known violations).ListsExact known where
  sorted := hsorted
  persistent := persistentViolations_eq known violations
  new := newViolations_eq known violations
  fixed_sorted := NameSet.pairwise_diff known.sorted _
  mem_fixed := by
    intro fingerprint
    show fingerprint ∈ known.fixedFingerprints violations ↔ _
    rw [Baseline.fixedFingerprints, NameSet.mem_diff, List.mem_map, not_exists]
    simp only [not_and]
    rfl

/-- A known fingerprint is fixed, or some persistent violation has it. -/
theorem length_fixed_add_known :
    (known.fixedFingerprints violations).length
        + ((known.persistentViolations violations).map (·.fingerprint)).dedup.length
      = known.fingerprints.length := by
  have hnodup : known.fingerprints.Nodup := known.sorted.imp ne_of_lt
  -- The persistent fingerprints are the known ones that are found.
  have hfound : ((known.persistentViolations violations).map (·.fingerprint)).dedup.Perm
      (known.fingerprints.filter fun fingerprint =>
        (violations.map (·.fingerprint)).contains fingerprint) := by
    rw [List.perm_ext_iff_of_nodup (List.nodup_dedup _) (hnodup.filter _)]
    intro fingerprint
    rw [List.mem_dedup, persistentViolations_eq]
    simp only [List.mem_map, List.mem_filter, decide_eq_true_eq, List.contains_iff_mem]
    constructor
    · rintro ⟨v, ⟨hv, hknown⟩, rfl⟩
      exact ⟨hknown, v, hv, rfl⟩
    · rintro ⟨hknown, v, hv, rfl⟩
      exact ⟨v, ⟨hv, hknown⟩, rfl⟩
  rw [hfound.length_eq, Baseline.fixedFingerprints, NameSet.diff, Nat.add_comm,
    ← List.length_eq_length_filter_add]

theorem length_eq_errors_add_warnings :
    violations.length = violations.countP Violation.isError
      + violations.countP fun v => v.severity = .warning := by
  have hwarnings : (violations.countP fun v => ¬ v.isError = true)
      = violations.countP fun v => v.severity = .warning := by
    apply List.countP_congr
    intro v _
    cases hseverity : v.severity <;> simp [Violation.isError, hseverity]
  rw [← hwarnings]
  exact List.length_eq_countP_add_countP Violation.isError

theorem length_eq_new_add_persistent :
    violations.length = (known.newViolations violations).length
      + (known.persistentViolations violations).length := by
  rw [Nat.add_comm]
  exact List.length_eq_length_filter_add fun v : Violation => known.contains v.fingerprint

theorem countsExact_ofViolations :
    (ofViolations runId policyName repoId known violations).CountsExact known := by
  have hseverities := length_eq_errors_add_warnings violations
  have hparts := length_eq_new_add_persistent known violations
  -- the report counts warnings and persistent violations as what is left of the total
  have hwarnings : violations.length - violations.countP Violation.isError
      = violations.countP fun v => v.severity = .warning := by omega
  have hpersistent : violations.length - (known.newViolations violations).length
      = (known.persistentViolations violations).length := by omega
  exact {
    total := rfl
    errors := rfl
    warnings := hwarnings
    errors_le := List.countP_le_length
    total_eq_severities := hseverities.trans (by rw [← hwarnings]; rfl)
    new := rfl
    newErrors := rfl
    persistent := hpersistent
    new_le := List.length_filter_le _ _
    total_eq_parts := hparts.trans (by rw [← hpersistent]; rfl)
    fixed := rfl
    fixed_add_known := length_fixed_add_known known violations }

theorem hasNewError_iff :
    (ofViolations runId policyName repoId known violations).HasNewError known ↔
      0 < (known.newViolations violations).countP Violation.isError := by
  rw [List.countP_pos_iff, newViolations_eq]
  simp only [List.mem_filter, decide_eq_true_eq, Violation.isError, beq_iff_eq]
  constructor
  · rintro ⟨v, hv, herror, hnew⟩
    exact ⟨v, ⟨hv, hnew⟩, herror⟩
  · rintro ⟨v, ⟨hv, hnew⟩, herror⟩
    exact ⟨v, hv, herror, hnew⟩

theorem verdictExact_ofViolations :
    (ofViolations runId policyName repoId known violations).VerdictExact known := by
  have hiff := hasNewError_iff runId policyName repoId known violations
  by_cases herror : (ofViolations runId policyName repoId known violations).HasNewError known
  · have hstatus : (ofViolations runId policyName repoId known violations).status = .failed :=
      if_pos (hiff.1 herror)
    constructor <;> simp [herror, hstatus, exitStatus, RunStatus.exitStatus, ExitStatus.code]
  · have hstatus : (ofViolations runId policyName repoId known violations).status = .passed :=
      if_neg fun hpositive => herror (hiff.2 hpositive)
    constructor <;> simp [herror, hstatus, exitStatus, RunStatus.exitStatus, ExitStatus.code]

end Report

/-! ## The report of a run -/

theorem Engine.respects_of_ofPolicy {policy : Policy} {method : Sql.Method} {engine : Engine}
    (h : ofPolicy policy method = .ok engine) (runId : RunId) (inputs : Inputs)
    (baseline : Option Baseline) :
    (engine.run runId inputs baseline).report.Respects engine.policy.rules := by
  intro rule settings hsettings hwarning v hv hrule
  have hcollected : v ∈ engine.collect inputs := (engine.evaluate_perm_collect inputs).mem_iff.1 hv
  obtain ⟨check, hcheck, hfound⟩ := List.mem_flatMap.1 hcollected
  obtain ⟨_, _, severity, _, hseverity, rfl⟩ := Check.exists_of_mem_violations hfound
  obtain rfl : check.rule = rule := hrule
  obtain ⟨own, hown, hsame⟩ := severity_of_mem_checks h hcheck
  rw [hown, Option.some.injEq] at hsettings
  show severity ≠ .error
  rcases hseverity with rfl | rfl
  · rw [hsame, hsettings, hwarning]
    decide
  · decide

/-- **The verdict of a run is exact.** The report holds what the checks have found, and says about it
just what is so in comparison with the baseline; without one, nothing is known. It respects the
severities that a policy sets, by itself or through its preset. -/
theorem run_verdict_is_exact (engine : Engine) (runId : RunId) (inputs : Inputs)
    (baseline : Option Baseline) :
    let report := (engine.run runId inputs baseline).report
    report.violations.Perm (engine.collect inputs) ∧
      report.IsExact (baseline.getD .empty) ∧
      ∀ (policy : Policy) (method : Sql.Method), Engine.ofPolicy policy method = .ok engine →
        report.Respects policy.rules ∧ report.Respects engine.policy.rules := by
  intro report
  refine ⟨engine.evaluate_perm_collect inputs, ⟨?_, ?_, ?_⟩, ?_⟩
  · exact Report.listsExact_ofViolations _ _ _ _ _ (Violation.pairwise_sort _)
  · exact Report.countsExact_ofViolations _ _ _ _ _
  · exact Report.verdictExact_ofViolations _ _ _ _ _
  · intro policy method h
    have hrespects := Engine.respects_of_ofPolicy h runId inputs baseline
    refine ⟨?_, hrespects⟩
    intro rule settings hsettings
    exact hrespects rule settings (Engine.common_of_ofPolicy h hsettings)

/-- A policy that warns of missing fields and takes forbidden errors seriously. -/
def Policy.lenient : Policy where
  name := "lenient"
  rules :=
    { errorTaxonomy := some { forbiddenRaises := ["Exception"] }
      contractSchemaValid := some { severity := .warning, requiredFields := ["name"] } }

def Engine.lenient : Engine where
  policy := .lenient
  checks :=
    [.errorTaxonomy { forbiddenRaises := ["Exception"] },
      .contractSchemaValid { severity := .warning, requiredFields := ["name"] }]

/-- A file that raises the forbidden error, and a contract without a name. -/
def Inputs.faulty : Inputs where
  errors := [{ filePath := "a.py", errorType := "Exception", kind := .raise }]
  contracts := [{ filePath := "users.yaml", name := "users" }]

/-- The run fails, until the forbidden error is known; the missing name is a warning. -/
theorem verdict_of_lenient_policy :
    Engine.ofPolicy .lenient .keywords = .ok .lenient ∧
      (Engine.lenient.run "first" .faulty none).report.exitStatus.code = 1 ∧
      (Engine.lenient.run "second" .faulty
        (some (.ofViolations (Engine.lenient.collect .faulty)))).report.exitStatus.code = 0 ∧
      ∀ v ∈ (Engine.lenient.run "first" .faulty none).report.violations,
        v.rule = .contractSchemaValid → v.severity ≠ .error := by
  have hengine : Engine.ofPolicy .lenient .keywords = .ok .lenient := rfl
  obtain ⟨hfound, hexact, hrespects⟩ := run_verdict_is_exact .lenient "first" .faulty none
  refine ⟨hengine, ?_, ?_, ?_⟩
  · rw [hexact.verdict.code_failed]
    exact ⟨_, hfound.mem_iff.2 List.mem_cons_self, rfl, List.not_mem_nil⟩
  · obtain ⟨hagain, hknown, -⟩ := run_verdict_is_exact .lenient "second" .faulty
      (some (.ofViolations (Engine.lenient.collect .faulty)))
    rw [hknown.verdict.code_passed]
    rintro ⟨v, hv, -, hnew⟩
    rw [Option.getD_some, Baseline.mem_fingerprints_ofViolations] at hnew
    exact hnew (List.mem_map_of_mem (hagain.mem_iff.1 hv))
  · exact (hrespects .lenient .keywords hengine).1 .contractSchemaValid _ rfl rfl

end RepoPolicy
