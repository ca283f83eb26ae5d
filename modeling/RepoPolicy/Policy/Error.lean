import RepoPolicy.Finding.Rule
import RepoPolicy.Pattern.Error

set_option autoImplicit false

/-! # Errors in policies

A policy that is wrong is refused before anything runs. -/

namespace RepoPolicy

/-- Settings that contradict themselves. -/
inductive SettingsDefect where
  /-- A repository may import another one that does not exist. -/
  | unknownRepo (repo unknown : String)
  /-- No nesting is allowed at all. -/
  | depthZero
  deriving DecidableEq, Repr

def SettingsDefect.message : SettingsDefect → String
  | .unknownRepo repo unknown =>
    "repo '" ++ repo ++ "' may_import unknown repo '" ++ unknown ++ "'"
  | .depthZero => "max_depth must be at least 1"

/-- Why a policy cannot be used. -/
inductive PolicyError where
  /-- Its file cannot be read. -/
  | unreadable
  /-- It is not a document of the right shape. -/
  | malformed
  | unknownPreset (name : String)
  | invalidPattern (rule : Rule) (pattern : String) (cause : PatternError)
  | invalidRule (rule : Rule) (defect : SettingsDefect)
  | invalidBatchSize (size : Nat)
  deriving DecidableEq, Repr

namespace PolicyError

/-- What is wrong, without the details. -/
def headline : PolicyError → String
  | .unreadable => "Failed to read policy file"
  | .malformed => "Failed to parse policy"
  | .unknownPreset name => "Unknown policy preset '" ++ name ++ "'"
  | .invalidPattern rule pattern _ =>
    "Rule '" ++ rule.name ++ "' has an invalid pattern '" ++ pattern ++ "'"
  | .invalidRule rule defect => "Rule '" ++ rule.name ++ "' is misconfigured: " ++ defect.message
  | .invalidBatchSize size => "Batch size must be at least 1, got " ++ toString size

def detail? : PolicyError → Option String
  | .unreadable => some "there is no such file"
  | .malformed => some "not a policy"
  | .invalidPattern _ _ cause => some cause.message
  | _ => none

def message (error : PolicyError) : String :=
  error.headline ++ (error.detail?.elim "" (": " ++ ·))

end PolicyError

end RepoPolicy
