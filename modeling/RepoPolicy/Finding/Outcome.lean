set_option autoImplicit false

/-! # Outcomes of checks

A check of one subject collects errors and warnings. `Outcome.finish` writes its summary. -/

namespace RepoPolicy

/-- What a check of one subject has found. -/
structure Outcome where
  isValid : Bool := true
  summary : String := ""
  errors : List String := []
  warnings : List String := []
  deriving DecidableEq, Repr

namespace Outcome

def empty : Outcome := {}

def error (outcome : Outcome) (message : String) : Outcome :=
  { outcome with errors := outcome.errors ++ [message], isValid := false }

def warning (outcome : Outcome) (message : String) : Outcome :=
  { outcome with warnings := outcome.warnings ++ [message] }

def hasErrors (outcome : Outcome) : Bool := !outcome.errors.isEmpty

def isClean (outcome : Outcome) : Bool := outcome.errors.isEmpty && outcome.warnings.isEmpty

/-- The findings of both, those of the second one last. -/
def merge (outcome other : Outcome) : Outcome :=
  { outcome with
    isValid := outcome.isValid && other.errors.isEmpty
    errors := outcome.errors ++ other.errors
    warnings := outcome.warnings ++ other.warnings }

def countText (errors warnings : Nat) : String :=
  if errors = 0 then
    if warnings = 0 then "no issues" else toString warnings ++ " warning(s)"
  else if warnings = 0 then toString errors ++ " error(s)"
  else toString errors ++ " error(s), " ++ toString warnings ++ " warning(s)"

def finish (outcome : Outcome) (subject : String) : Outcome :=
  { outcome with
    isValid := outcome.errors.isEmpty
    summary := subject ++ ": " ++ countText outcome.errors.length outcome.warnings.length }

def ofErrors (subject : String) (messages : List String) : Outcome :=
  finish { errors := messages } subject

def ofWarnings (subject : String) (messages : List String) : Outcome :=
  finish { warnings := messages } subject

def clean (subject : String) : Outcome := finish {} subject

def combined (subject : String) (outcomes : List Outcome) : Outcome :=
  (outcomes.foldl merge empty).finish subject

end Outcome

/-- What a rule has found about a symbol in a file. -/
structure LocatedOutcome where
  filePath : String
  symbol : String
  outcome : Outcome
  deriving DecidableEq, Repr

def LocatedOutcome.error (filePath symbol message : String) : LocatedOutcome :=
  ⟨filePath, symbol, Outcome.empty.error message⟩

def LocatedOutcome.warning (filePath symbol message : String) : LocatedOutcome :=
  ⟨filePath, symbol, Outcome.empty.warning message⟩

end RepoPolicy
