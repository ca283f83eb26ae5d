set_option autoImplicit false

/-! # Database contracts

A repository of database operations declares the tables it uses, its SQL operations and the columns
they return. -/

namespace RepoPolicy

/-- Whether an operation returns rows or changes them. -/
inductive OperationMode where
  | read
  | write
  deriving DecidableEq, Repr

structure Returns where
  fields : Option (List String) := none
  /-- Whether a mismatch is an error. Unless it says so itself, an operation that declares fields is
  strict. -/
  strict : Option Bool := none
  allowSelectStar : Bool := false
  deriving DecidableEq, Repr

/-- The declared fields; none are declared when the list is missing. -/
def Returns.declaredFields (returns : Returns) : List String := returns.fields.getD []

def Returns.isStrict (returns : Returns) : Bool :=
  returns.strict.getD !returns.declaredFields.isEmpty

structure Operation where
  sql : String
  mode : OperationMode := .read
  returns : Returns := {}
  deriving DecidableEq, Repr

/-- The tables that may be used, and the operations, by name in increasing order. -/
structure RepositoryContract where
  tables : List String := []
  operations : List (String × Operation) := []
  deriving DecidableEq, Repr

structure RepositoryFile where
  filePath : String
  contract : RepositoryContract
  deriving DecidableEq, Repr

end RepoPolicy
