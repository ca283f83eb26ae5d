import RepoPolicy.Document.Decode
import RepoPolicy.Finding.Outcome
import RepoPolicy.Finding.Violation

set_option autoImplicit false

/-! # Findings as documents -/

namespace RepoPolicy

open RepoPolicy.Document

def Rule.decode : Decoder Rule := Decoder.oneOf (Rule.all.map fun rule => (rule.name, rule))

def Severity.decode : Decoder Severity := Decoder.oneOf Severity.names

def Outcome.decode : Decoder Outcome := fun value => do
  let f ← Decoder.fields value
  return {
    isValid := ← f.required "is_valid" Decoder.bool
    summary := ← f.required "summary" Decoder.string
    errors := ← f.required "errors" (Decoder.list Decoder.string)
    warnings := ← f.required "warnings" (Decoder.list Decoder.string) }

def Outcome.encode (outcome : Outcome) : Value :=
  .record [("is_valid", .bool outcome.isValid), ("summary", .string outcome.summary),
    ("errors", .list (outcome.errors.map .string)),
    ("warnings", .list (outcome.warnings.map .string))]

def LocatedOutcome.encode (located : LocatedOutcome) : Value :=
  .record [("file_path", .string located.filePath), ("symbol", .string located.symbol),
    ("result", located.outcome.encode)]

def Violation.encode (violation : Violation) : Value :=
  .record [("rule_id", .string violation.rule.name), ("file_path", .string violation.filePath),
    ("symbol", .string violation.symbol), ("severity", .string violation.severity.name),
    ("message", .string violation.message), ("fingerprint", .string violation.fingerprint)]

/-- Read what a violation is about. Unless it says otherwise it is an error without a message. -/
def Violation.decodeNew : Decoder Violation := fun value => do
  let f ← Decoder.fields value
  return Violation.new (← f.required "rule_id" Rule.decode)
    (← f.required "file_path" Decoder.string) (← f.required "symbol" Decoder.string)
    ((← f.optional "severity" Severity.decode).getD .error)
    ((← f.optional "message" Decoder.string).getD "")

end RepoPolicy
