import RepoPolicy.Finding.Outcome

set_option autoImplicit false

/-! # Outcomes and their parts

An outcome that is made from messages has just these messages. Outcomes that are combined keep all
their findings, one after the other, and the whole is valid exactly if none of them has an error. -/

namespace RepoPolicy.Outcome

/-! ## Finished outcomes -/

def IsFinished (outcome : Outcome) : Prop := outcome.isValid = outcome.errors.isEmpty

theorem isFinished_finish (outcome : Outcome) (subject : String) :
    (outcome.finish subject).IsFinished := rfl

theorem isValid_ofErrors (subject : String) (messages : List String) :
    (ofErrors subject messages).isValid = messages.isEmpty := rfl

theorem errors_ofErrors (subject : String) (messages : List String) :
    (ofErrors subject messages).errors = messages := rfl

theorem warnings_ofErrors (subject : String) (messages : List String) :
    (ofErrors subject messages).warnings = [] := rfl

theorem isClean_iff {outcome : Outcome} :
    outcome.isClean = true ↔ outcome.errors = [] ∧ outcome.warnings = [] := by
  rw [isClean, Bool.and_eq_true, List.isEmpty_iff, List.isEmpty_iff]

/-! ## Combined outcomes -/

section Combined

variable (subject : String) (outcomes : List Outcome)

/-- What one merge puts together, merging puts together from all. -/
theorem foldl_merge (messages : Outcome → List String)
    (h : ∀ outcome other, messages (merge outcome other) = messages outcome ++ messages other)
    (start : Outcome) :
    messages (outcomes.foldl merge start) = messages start ++ outcomes.flatMap messages := by
  induction outcomes generalizing start with
  | nil => simp
  | cons outcome outcomes ih =>
      rw [List.foldl_cons, ih, h, List.flatMap_cons, List.append_assoc]

theorem errors_combined : (combined subject outcomes).errors = outcomes.flatMap errors :=
  foldl_merge outcomes errors (fun _ _ => rfl) empty

theorem warnings_combined : (combined subject outcomes).warnings = outcomes.flatMap warnings :=
  foldl_merge outcomes warnings (fun _ _ => rfl) empty

theorem isValid_combined_iff (h : ∀ outcome ∈ outcomes, outcome.IsFinished) :
    (combined subject outcomes).isValid = true ↔ ∀ outcome ∈ outcomes, outcome.isValid = true := by
  have hvalid : (combined subject outcomes).isValid = (combined subject outcomes).errors.isEmpty :=
    isFinished_finish _ _
  rw [hvalid, errors_combined, List.isEmpty_iff, List.flatMap_eq_nil_iff]
  refine forall₂_congr fun outcome hmem => ?_
  rw [h outcome hmem, List.isEmpty_iff]

end Combined

end RepoPolicy.Outcome
