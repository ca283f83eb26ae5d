import RepoPolicy.Finding.Outcome
import RepoPolicy.Inputs.Declaration
import RepoPolicy.Policy.Settings

set_option autoImplicit false

/-! # Error types

Generic error types are not raised, and defined ones derive from a type of the taxonomy. -/

namespace RepoPolicy

/-- What is wrong with the use of an error type. -/
inductive TaxonomyProblem where
  | genericRaise (errorType : String)
  | outside (errorType : String) (base : Option String) (allowed : List String)
  deriving DecidableEq, Repr

def TaxonomyProblem.message : TaxonomyProblem → String
  | .genericRaise errorType =>
    "raises generic error '" ++ errorType ++ "'; raise a type from the error taxonomy instead"
  | .outside errorType base allowed =>
    "error type '" ++ errorType ++ "' derives from '" ++ base.getD "<none>" ++
      "', which is outside the taxonomy (" ++ ", ".intercalate allowed ++ ")"

/-- The name of a type without what qualifies it: `errors.PaymentDeclined` is
`PaymentDeclined`. -/
def unqualifiedType (name : String) : String :=
  String.ofList ((name.toList.reverse.takeWhile fun c => c != '.' && c != ':').reverse)

namespace ErrorSettings

def problem? (settings : ErrorSettings) (usage : ErrorUsage) : Option TaxonomyProblem :=
  match usage.kind with
  | .raise =>
    if settings.forbiddenRaises.contains (unqualifiedType usage.errorType) then
      some (.genericRaise usage.errorType)
    else none
  | .define =>
    let inTaxonomy :=
      usage.base.any fun base => settings.allowedBases.contains (unqualifiedType base)
    if settings.allowedBases.isEmpty || inTaxonomy then none
    else some (.outside usage.errorType usage.base settings.allowedBases)

/-- What is wrong with the uses of error types, in their order. -/
def findings (settings : ErrorSettings) (usages : List ErrorUsage) : List LocatedOutcome :=
  usages.filterMap fun usage =>
    (settings.problem? usage).map fun problem =>
      .error usage.filePath usage.errorType problem.message

end ErrorSettings

end RepoPolicy
