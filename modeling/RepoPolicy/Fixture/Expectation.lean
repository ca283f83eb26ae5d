import RepoPolicy.Run.Report

set_option autoImplicit false

/-! # Expectations

What a report is expected to say, and what is said when it does not. -/

namespace RepoPolicy

inductive Expectation where
  /-- No violations. -/
  | clean
  /-- A violation of a rule by a symbol. -/
  | violation (rule : Rule) (symbol : String)
  /-- A violation whose message has a part. -/
  | message (part : String)
  deriving DecidableEq, Repr

/-- Whether one text occurs in another. -/
def hasPart (part : List Char) : List Char → Bool
  | [] => part.isEmpty
  | c :: rest => part.isPrefixOf (c :: rest) || hasPart part rest

namespace Expectation

def holds (violations : List Violation) : Expectation → Bool
  | .clean => violations.isEmpty
  | .violation rule symbol => violations.any fun v => v.rule == rule && v.symbol == symbol
  | .message part => violations.any fun v => hasPart part.toList v.message.toList

def complaint (violations : List Violation) : Expectation → String
  | .clean =>
    "Expected no violations, but got:\n" ++
      "\n".intercalate (violations.map fun v => "  - " ++ v.rule.name ++ ": " ++ v.message)
  | .violation rule symbol =>
    let found := "\n".intercalate (violations.map fun v =>
      "  - " ++ v.rule.name ++ " " ++ v.filePath ++ " " ++ v.symbol ++ ": " ++ v.message)
    "Expected violation of '" ++ rule.name ++ "' at '" ++ symbol ++ "', but got:\n" ++
      (if found.isEmpty then "  (no violations)" else found)
  | .message part =>
    "Expected violation containing '" ++ part ++ "', but got:\n" ++
      "\n".intercalate (violations.map (·.message))

def failure? (expectation : Expectation) (report : Report) : Option String :=
  if expectation.holds report.violations then none
  else some (expectation.complaint report.violations)

end Expectation

end RepoPolicy
