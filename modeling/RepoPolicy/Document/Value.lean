set_option autoImplicit false

/-! # Documents

A document is a value put together from scalars, lists and records. JSON text and YAML text are
two ways to write one. They differ in their scalars: JSON says of each scalar what it is, while an
unquoted YAML scalar is only a piece of text, and whoever asks for it decides what it stands for. -/

namespace RepoPolicy.Document

inductive Value where
  | null
  | bool (value : Bool)
  /-- A natural number below 2^64. -/
  | nat (value : Nat)
  /-- Any other number, as it is written. -/
  | number (text : String)
  | string (text : String)
  /-- An unquoted scalar, of which the document does not say what it is. -/
  | plain (text : String)
  | list (items : List Value)
  /-- Names and values in the order in which they are written. -/
  | record (fields : List (String × Value))
  deriving Inhabited, Repr

/-- The number of values that 64 bits can hold. -/
def wordSize : Nat := Nat.pow 2 64

end RepoPolicy.Document
