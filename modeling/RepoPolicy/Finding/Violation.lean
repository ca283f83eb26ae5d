import RepoPolicy.Digest.Fingerprint
import RepoPolicy.Finding.Rule

set_option autoImplicit false

/-! # Violations

A violation is one finding of a run. Reports list violations in an order that does not depend on
how they were found. -/

namespace RepoPolicy

structure Violation where
  rule : Rule
  filePath : String
  symbol : String
  severity : Severity
  message : String
  fingerprint : String
  deriving DecidableEq, Repr

namespace Violation

def new (rule : Rule) (filePath symbol : String) (severity : Severity) (message : String) :
    Violation :=
  { rule, filePath, symbol, severity, message,
    fingerprint := Digest.fingerprint rule.name filePath symbol }

def isError (violation : Violation) : Bool := violation.severity == .error

/-- The order of two texts: by code points. -/
def compareText (a b : String) : Ordering :=
  if a < b then .lt else if a = b then .eq else .gt

/-- The order of violations in a report: by rule, file, symbol, severity and message. -/
def order (v w : Violation) : Ordering :=
  (compare v.rule.index w.rule.index).then <|
    (compareText v.filePath w.filePath).then <|
      (compareText v.symbol w.symbol).then <|
        (compare v.severity.index w.severity.index).then (compareText v.message w.message)

def precedes (v w : Violation) : Bool := (order v w).isLE

def sort (violations : List Violation) : List Violation := violations.mergeSort precedes

end Violation

end RepoPolicy
