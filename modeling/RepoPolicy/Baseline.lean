import RepoPolicy.Document.Decode
import RepoPolicy.Document.Json.Reader
import RepoPolicy.Document.Json.Writer
import RepoPolicy.Finding.Violation
import RepoPolicy.Text.NameSet

set_option autoImplicit false

/-! # Baselines

A baseline holds the violations that are already known, so that a run can tell new ones from them.
It is kept as a JSON document. Only fingerprints take part in the comparison; the rule, the file
and the symbol of an entry are for its readers. So a baseline keeps two records side by side: the set
of the fingerprints, which is all that is asked when something is compared, and the entries, which are
what is saved. -/

namespace RepoPolicy

open RepoPolicy.Document RepoPolicy.Text

/-- Why a baseline cannot be used. -/
inductive BaselineError where
  /-- Its file cannot be read or written. -/
  | inaccessible
  /-- It is not a JSON document of the right shape. -/
  | malformed
  | unsupportedVersion (version : Nat)
  | invalidFingerprint (text : String)
  deriving DecidableEq, Repr

def baselineVersion : Nat := 1

/-- What is wrong, without the details. -/
def BaselineError.headline : BaselineError → String
  | .inaccessible => "Failed to access baseline file"
  | .malformed => "Failed to parse baseline"
  | .unsupportedVersion version =>
    "Failed to parse baseline: unsupported baseline version " ++ toString version ++
      " (expected " ++ toString baselineVersion ++ ")"
  | .invalidFingerprint text =>
    "Invalid fingerprint '" ++ text ++ "' in baseline: expected 16 lowercase hex characters"

def BaselineError.detail? : BaselineError → Option String
  | .inaccessible => some "there is no such file"
  | .malformed => some "not a list of fingerprints or a versioned baseline"
  | _ => none

def BaselineError.message (error : BaselineError) : String :=
  error.headline ++ (error.detail?.elim "" (": " ++ ·))

/-- A known violation. -/
structure BaselineEntry where
  fingerprint : String
  ruleName : Option String := none
  filePath : Option String := none
  symbol : Option String := none
  deriving DecidableEq, Repr

/-- The known violations: their fingerprints as a set, and an entry for each of them, in the order in
which they were added. -/
structure Baseline where
  fingerprints : NameSet
  entries : List BaselineEntry
  /-- The set is one. -/
  sorted : fingerprints.Pairwise (· < ·)
  deriving DecidableEq, Repr

namespace Baseline

def empty : Baseline := ⟨[], [], .nil⟩

def contains (baseline : Baseline) (fingerprint : String) : Bool :=
  baseline.fingerprints.contains fingerprint

/-- The number of known fingerprints. -/
def size (baseline : Baseline) : Nat := baseline.fingerprints.length

def isEmpty (baseline : Baseline) : Bool := baseline.fingerprints.isEmpty

/-- The baseline with one more entry. An entry whose fingerprint is known is left out. -/
def insert (baseline : Baseline) (entry : BaselineEntry) : Baseline :=
  if baseline.contains entry.fingerprint then baseline
  else
    { fingerprints := baseline.fingerprints.insert entry.fingerprint
      entries := baseline.entries ++ [entry]
      sorted := NameSet.pairwise_insert baseline.sorted }

/-- The baseline with one more entry, unless its fingerprint has the wrong form. -/
def insertChecked (baseline : Baseline) (entry : BaselineEntry) : Except BaselineError Baseline :=
  if Digest.isFingerprint entry.fingerprint then .ok (baseline.insert entry)
  else .error (.invalidFingerprint entry.fingerprint)

def ofEntries (entries : List BaselineEntry) : Except BaselineError Baseline :=
  entries.foldlM insertChecked empty

def ofFingerprints (fingerprints : List String) : Except BaselineError Baseline :=
  ofEntries (fingerprints.map fun fingerprint => { fingerprint })

def entryOf (violation : Violation) : BaselineEntry where
  fingerprint := violation.fingerprint
  ruleName := some violation.rule.name
  filePath := some violation.filePath
  symbol := some violation.symbol

def ofViolations (violations : List Violation) : Baseline :=
  (violations.map entryOf).foldl insert empty

/-! ## Documents -/

def decodeEntry : Decoder BaselineEntry := fun value => do
  let f ← Decoder.fieldsInOrder ["fingerprint", "rule_id", "file_path", "symbol"] value
  return {
    fingerprint := ← f.required "fingerprint" Decoder.string
    ruleName := ← f.optional "rule_id" Decoder.string
    filePath := ← f.optional "file_path" Decoder.string
    symbol := ← f.optional "symbol" Decoder.string }

/-- An entry as a document, without what is absent. -/
def encodeEntry (entry : BaselineEntry) : Value :=
  .record <|
    ("fingerprint", .string entry.fingerprint) ::
      ([("rule_id", entry.ruleName), ("file_path", entry.filePath),
        ("symbol", entry.symbol)].filterMap fun (name, text) =>
          text.map fun text => (name, Value.string text))

def decodeVersioned : Decoder (Nat × List BaselineEntry) := fun value => do
  let f ← Decoder.fields value
  return (← f.required "version" (Decoder.natBelow (Nat.pow 2 32)),
    ← f.required "entries" (Decoder.list decodeEntry))

/-- The baseline that a document describes: a list of fingerprints, or a version and entries. -/
def ofDocument (value : Value) : Except BaselineError Baseline :=
  match Decoder.list Decoder.string value with
  | some fingerprints => ofFingerprints fingerprints
  | none =>
    match decodeVersioned value with
    | some (version, entries) =>
      if version = baselineVersion then ofEntries entries else .error (.unsupportedVersion version)
    | none => .error .malformed

def ofJson (text : String) : Except BaselineError Baseline :=
  match Json.parse text with
  | some value => ofDocument value
  | none => .error .malformed

/-- Read a baseline from the bytes of a file, if there is one. -/
def ofFile (content : Option ByteArray) : Except BaselineError Baseline :=
  match content.bind String.fromUTF8? with
  | some text => ofJson text
  | none => .error .inaccessible

def sortedEntries (baseline : Baseline) : List BaselineEntry :=
  baseline.entries.mergeSort fun a b => decide (a.fingerprint ≤ b.fingerprint)

def toDocument (baseline : Baseline) : Value :=
  .record [("version", .nat baselineVersion),
    ("entries", .list (baseline.sortedEntries.map encodeEntry))]

def toJson (baseline : Baseline) : String := Json.pretty baseline.toDocument

/-! ## Comparison with a run -/

def newViolations (baseline : Baseline) (violations : List Violation) : List Violation :=
  violations.filter fun violation => !baseline.contains violation.fingerprint

def persistentViolations (baseline : Baseline) (violations : List Violation) : List Violation :=
  violations.filter fun violation => baseline.contains violation.fingerprint

/-- The known fingerprints that no violation has, in increasing order. -/
def fixedFingerprints (baseline : Baseline) (violations : List Violation) : NameSet :=
  baseline.fingerprints.diff (violations.map (·.fingerprint))

end Baseline

end RepoPolicy
