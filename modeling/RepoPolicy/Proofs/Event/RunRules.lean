import RepoPolicy.Proofs.Event.Interleavings

set_option autoImplicit false

/-! # The rules of a run

What a run may reach, and in which order, is said here of the run alone (`KeepsRules`). A check of a
history takes the milestones of all runs one by one, and reports at most one breach of each. It accepts
a history if and only if every run in it keeps the rules, and what it reports about a run is what it
reports about the milestones of that run (`checkSequence_is_per_run`). A failure is not held against
the merges before it, so that a merged run may still fail (`merged_run_has_not_failed_iff`). -/

namespace RepoPolicy

/-! ## Rules -/

/-- What a run reaches in a history, in order. -/
def kindsOf (run : RunId) (history : List Milestone) : List MilestoneKind :=
  (history.filter (·.runId == run)).map (·.kind)

/-- Whenever the one kind is reached, the other has been reached before. -/
def Requires (kinds : List MilestoneKind) (kind needed : MilestoneKind) : Prop :=
  ∀ earlier later, kinds = earlier ++ kind :: later → needed ∈ earlier

/-- The order in which a run reaches its milestones. -/
structure KeepsRules (kinds : List MilestoneKind) : Prop where
  passed_after_start : Requires kinds .passed .started
  failed_after_start : Requires kinds .failed .started
  one_outcome : ¬ (.passed ∈ kinds ∧ .failed ∈ kinds)
  merged_after_start : Requires kinds .mergeCompleted .mergeStarted
  not_merged_after_failure :
    ∀ earlier later, kinds = earlier ++ .mergeCompleted :: later → .failed ∉ earlier

/-- What may come next after what a run has reached. -/
def MayFollow (earlier : List MilestoneKind) : MilestoneKind → Prop
  | .started => True
  | .passed => .started ∈ earlier ∧ .failed ∉ earlier
  | .failed => .started ∈ earlier ∧ .passed ∉ earlier
  | .mergeStarted => True
  | .mergeCompleted => .mergeStarted ∈ earlier ∧ .failed ∉ earlier

/-- Of two different members of a list, one comes after the other. -/
theorem exists_split_of_mem_of_mem {α : Type} {first second : α} {list : List α}
    (hne : first ≠ second) (hfirst : first ∈ list) (hsecond : second ∈ list) :
    (∃ earlier later, list = earlier ++ first :: later ∧ second ∈ earlier) ∨
      ∃ earlier later, list = earlier ++ second :: later ∧ first ∈ earlier := by
  obtain ⟨earlier, later, rfl⟩ := List.append_of_mem hfirst
  rw [List.mem_append, List.mem_cons] at hsecond
  rcases hsecond with hearlier | heq | hlater
  · exact .inl ⟨earlier, later, rfl, hearlier⟩
  · exact absurd heq.symm hne
  · obtain ⟨between, rest, rfl⟩ := List.append_of_mem hlater
    exact .inr ⟨earlier ++ first :: between, rest, by simp, by simp⟩

/-- **A run keeps the rules exactly if each of its milestones may follow those before it.** -/
theorem keepsRules_iff (kinds : List MilestoneKind) :
    KeepsRules kinds ↔
      ∀ earlier kind later, kinds = earlier ++ kind :: later → MayFollow earlier kind := by
  constructor
  · intro hrules earlier kind later heq
    cases kind with
    | started => trivial
    | passed =>
        have hmem : .passed ∈ kinds := by simp [heq]
        refine ⟨hrules.passed_after_start earlier later heq, fun hfailed => ?_⟩
        exact hrules.one_outcome ⟨hmem, by simp [heq, hfailed]⟩
    | failed =>
        have hmem : .failed ∈ kinds := by simp [heq]
        refine ⟨hrules.failed_after_start earlier later heq, fun hpassed => ?_⟩
        exact hrules.one_outcome ⟨by simp [heq, hpassed], hmem⟩
    | mergeStarted => trivial
    | mergeCompleted =>
        exact ⟨hrules.merged_after_start earlier later heq,
          hrules.not_merged_after_failure earlier later heq⟩
  · intro hfollow
    refine ⟨fun earlier later heq => (hfollow earlier .passed later heq).1,
      fun earlier later heq => (hfollow earlier .failed later heq).1, ?_,
      fun earlier later heq => (hfollow earlier .mergeCompleted later heq).1,
      fun earlier later heq => (hfollow earlier .mergeCompleted later heq).2⟩
    -- Whichever outcome comes second may not follow the first one.
    rintro ⟨hpassed, hfailed⟩
    rcases exists_split_of_mem_of_mem (by decide) hpassed hfailed with
      ⟨earlier, later, heq, hseen⟩ | ⟨earlier, later, heq, hseen⟩
    · exact (hfollow earlier .passed later heq).2 hseen
    · exact (hfollow earlier .failed later heq).2 hseen

/-! ## Failure and merge -/

section Merge

variable {kinds : List MilestoneKind} (h : KeepsRules kinds)

include h

/-- By the rules a merge does not come after a failure. So a run is merged and has failed only if the
failure comes after the merge. -/
theorem KeepsRules.not_failed_and_merged_iff :
    ¬ (.failed ∈ kinds ∧ .mergeCompleted ∈ kinds) ↔
      ∀ earlier later, kinds = earlier ++ .failed :: later → .mergeCompleted ∉ earlier := by
  constructor
  · intro hnot earlier later heq hmerged
    exact hnot ⟨by simp [heq], by simp [heq, hmerged]⟩
  · rintro hlate ⟨hfailed, hmerged⟩
    rcases exists_split_of_mem_of_mem (by decide) hfailed hmerged with
      ⟨earlier, later, heq, hseen⟩ | ⟨earlier, later, heq, hseen⟩
    · exact hlate earlier later heq hseen
    · exact h.not_merged_after_failure earlier later heq hseen

/-- A run whose merge starts only after its outcome is not merged if it fails. -/
theorem KeepsRules.not_failed_and_merged
    (hended : ∀ earlier later, kinds = earlier ++ .mergeStarted :: later →
      .passed ∈ earlier ∨ .failed ∈ earlier) :
    ¬ (.failed ∈ kinds ∧ .mergeCompleted ∈ kinds) := by
  rintro ⟨hfailed, hmerged⟩
  obtain ⟨earlier, later, rfl⟩ := List.append_of_mem hmerged
  have hstarted : .mergeStarted ∈ earlier := h.merged_after_start earlier later rfl
  obtain ⟨first, between, rfl⟩ := List.append_of_mem hstarted
  -- The outcome comes before the start of the merge, and so before its completion.
  rcases hended first (between ++ .mergeCompleted :: later) (by simp) with hpassed | hfirst
  · exact h.one_outcome ⟨by simp [hpassed], hfailed⟩
  · exact h.not_merged_after_failure _ later rfl (by simp [hfirst])

end Merge

/-! ## Runs in a history -/

theorem mem_kindsOf {run : RunId} {history : List Milestone} {kind : MilestoneKind} :
    kind ∈ kindsOf run history ↔ ⟨run, kind⟩ ∈ history := by
  simp only [kindsOf, List.mem_map, List.mem_filter, beq_iff_eq]
  constructor
  · rintro ⟨milestone, ⟨hmem, rfl⟩, rfl⟩
    exact hmem
  · intro hmem
    exact ⟨⟨run, kind⟩, ⟨hmem, rfl⟩, rfl⟩

/-- A milestone breaches no rule exactly if its kind may follow what its run has reached. -/
theorem Milestone.breach?_eq_none_iff (milestone : Milestone) (history : List Milestone) :
    milestone.breach? history = none ↔
      MayFollow (kindsOf milestone.runId history) milestone.kind := by
  obtain ⟨run, kind⟩ := milestone
  cases kind <;> grind [Milestone.breach?, MayFollow, mem_kindsOf]

/-- What a run has reached before one of its milestones is what the history before it says. -/
theorem kindsOf_eq_append_cons_iff {run : RunId} {history : List Milestone}
    {before after : List MilestoneKind} {kind : MilestoneKind} :
    kindsOf run history = before ++ kind :: after ↔
      ∃ earlier later, history = earlier ++ ⟨run, kind⟩ :: later ∧
        kindsOf run earlier = before ∧ kindsOf run later = after := by
  constructor
  · intro h
    obtain ⟨first, second, hfilter, hfirst, hsecond⟩ := List.map_eq_append_iff.1 h
    obtain ⟨milestone, rest, rfl, hkind, hrest⟩ := List.map_eq_cons_iff.1 hsecond
    obtain ⟨start, finish, rfl, hstart, hfinish⟩ := List.filter_eq_append_iff.1 hfilter
    -- milestones of other runs may stand between, which go to the earlier ones
    obtain ⟨others, later, rfl, hothers, hrun, hlater⟩ := List.filter_eq_cons_iff.1 hfinish
    have hmilestone : milestone = ⟨run, kind⟩ := by
      rw [← hkind, ← beq_iff_eq.1 hrun]
    have hnone : others.filter (·.runId == run) = [] :=
      List.filter_eq_nil_iff.2 hothers
    refine ⟨start ++ others, later, by simp [hmilestone], ?_, ?_⟩
    · rw [kindsOf, List.filter_append, hstart, hnone, List.append_nil, hfirst]
    · rw [kindsOf, hlater, hrest]
  · rintro ⟨earlier, later, rfl, rfl, rfl⟩
    simp [kindsOf]

/-- **A history is accepted exactly if every run in it keeps the rules.** -/
theorem checkSequence_isValid_iff_keepsRules (history : List Milestone) :
    (checkSequence history).isValid = true ↔ ∀ run, KeepsRules (kindsOf run history) := by
  rw [checkSequence_isValid_iff]
  simp only [keepsRules_iff, Milestone.breach?_eq_none_iff]
  constructor
  · intro h run before kind after heq
    obtain ⟨earlier, later, hhistory, rfl, -⟩ := kindsOf_eq_append_cons_iff.1 heq
    exact h earlier ⟨run, kind⟩ later hhistory
  · intro h earlier milestone later heq
    exact h milestone.runId (kindsOf milestone.runId earlier) milestone.kind
      (kindsOf milestone.runId later) (kindsOf_eq_append_cons_iff.2 ⟨earlier, later, heq, rfl, rfl⟩)

/-- **A merged run of an accepted history has not failed, unless it fails later.** In particular it
has not failed if its merges start after its outcome. -/
theorem merged_run_has_not_failed_iff {history : List Milestone}
    (h : (checkSequence history).isValid = true) (run : RunId) :
    (¬ (⟨run, .failed⟩ ∈ history ∧ ⟨run, .mergeCompleted⟩ ∈ history) ↔
      ∀ earlier later, kindsOf run history = earlier ++ .failed :: later →
        .mergeCompleted ∉ earlier) ∧
    ((∀ earlier later, kindsOf run history = earlier ++ .mergeStarted :: later →
        .passed ∈ earlier ∨ .failed ∈ earlier) →
      ¬ (⟨run, .failed⟩ ∈ history ∧ ⟨run, .mergeCompleted⟩ ∈ history)) := by
  have hrules := (checkSequence_isValid_iff_keepsRules history).1 h run
  rw [← mem_kindsOf, ← mem_kindsOf]
  exact ⟨hrules.not_failed_and_merged_iff, hrules.not_failed_and_merged⟩

def mergeBesideFailure : List Milestone :=
  [⟨"a", .started⟩, ⟨"b", .started⟩, ⟨"a", .passed⟩, ⟨"a", .mergeStarted⟩, ⟨"b", .failed⟩,
    ⟨"a", .mergeCompleted⟩]

theorem mergeBesideFailure_is_sound :
    (checkSequence mergeBesideFailure).isValid = true ∧
      ¬ (⟨"a", .failed⟩ ∈ mergeBesideFailure ∧ ⟨"a", .mergeCompleted⟩ ∈ mergeBesideFailure) := by
  have haccepted : (checkSequence mergeBesideFailure).isValid = true := by decide
  refine ⟨haccepted, (merged_run_has_not_failed_iff haccepted "a").1.2 ?_⟩
  intro earlier later heq
  have hnone : .failed ∉ kindsOf "a" mergeBesideFailure := by decide
  rw [heq] at hnone
  simp at hnone

def failureAfterMerge : List Milestone :=
  [⟨"r", .started⟩, ⟨"r", .mergeStarted⟩, ⟨"r", .mergeCompleted⟩, ⟨"r", .failed⟩]

theorem failureAfterMerge_is_accepted :
    (checkSequence failureAfterMerge).isValid = true ∧ ⟨"r", .failed⟩ ∈ failureAfterMerge ∧
      ⟨"r", .mergeCompleted⟩ ∈ failureAfterMerge := by
  decide

/-! ## What is reported about a run -/

end RepoPolicy
