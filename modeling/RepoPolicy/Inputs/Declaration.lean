import RepoPolicy.Document.Value

set_option autoImplicit false

/-! # Declarations

What the files of a repository declare: event topics, error types and contracts. -/

namespace RepoPolicy

inductive TopicRole where
  | produce
  | consume
  deriving DecidableEq, Repr

/-- A topic that a file produces or consumes. -/
structure TopicDeclaration where
  filePath : String
  name : String
  role : TopicRole
  deriving DecidableEq, Repr

/-- What a file does with an error type. -/
inductive ErrorUsageKind where
  | raise
  | define
  deriving DecidableEq, Repr

structure ErrorUsage where
  filePath : String
  errorType : String
  /-- The type that a defined one derives from. -/
  base : Option String := none
  kind : ErrorUsageKind
  deriving DecidableEq, Repr

structure ContractDocument where
  filePath : String
  name : String
  kind : Option String := none
  fields : List (String × Document.Value) := []
  deriving Repr

end RepoPolicy
