import RepoPolicy.Finding.Outcome
import RepoPolicy.Inputs.Declaration
import RepoPolicy.Policy.Settings

set_option autoImplicit false

/-! # Fields of contracts

Contracts have all required fields, and deprecated ones are pointed out. -/

namespace RepoPolicy

def ContractDocument.hasValue (contract : ContractDocument) (field : String) : Bool :=
  match contract.fields.lookup field with
  | none => false
  | some .null => false
  | some _ => true

/-- Whether a contract has a field, with a value or without. -/
def ContractDocument.hasField (contract : ContractDocument) (field : String) : Bool :=
  (contract.fields.lookup field).isSome

namespace SchemaSettings

def appliesTo (settings : SchemaSettings) (contract : ContractDocument) : Bool :=
  settings.kinds.isEmpty || contract.kind.any settings.kinds.contains

def missing (settings : SchemaSettings) (contract : ContractDocument) : List LocatedOutcome :=
  (settings.requiredFields.filter fun field => !contract.hasValue field).map fun field =>
    .error contract.filePath field
      ("contract '" ++ contract.name ++ "' is missing required field '" ++ field ++ "'")

def deprecated (settings : SchemaSettings) (contract : ContractDocument) : List LocatedOutcome :=
  (settings.deprecatedFields.filter contract.hasField).map fun field =>
    .warning contract.filePath field
      ("contract '" ++ contract.name ++ "' uses deprecated field '" ++ field ++ "'")

def findings (settings : SchemaSettings) (contracts : List ContractDocument) :
    List LocatedOutcome :=
  (contracts.filter settings.appliesTo).flatMap fun contract =>
    settings.missing contract ++ settings.deprecated contract

end SchemaSettings

end RepoPolicy
