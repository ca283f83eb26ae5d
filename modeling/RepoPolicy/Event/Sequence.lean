set_option autoImplicit false

/-! # Reports on sequences of events -/

namespace RepoPolicy

/-- What a check of a sequence of events has found. -/
structure SequenceReport where
  isValid : Bool
  violations : List String
  deriving DecidableEq, Repr

def SequenceReport.ofViolations (violations : List String) : SequenceReport :=
  ⟨violations.isEmpty, violations⟩

end RepoPolicy
