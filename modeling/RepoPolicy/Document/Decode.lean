import RepoPolicy.Document.Value

set_option autoImplicit false

/-! # Reading typed data from documents

A `Decoder α` turns a value of a document into an `α`, or refuses it. A scalar that the document
leaves open (`Value.plain`) is read as what is asked for: as a text it is taken as it stands, as a
number it must be written like one, and where a value may be absent an empty one, `~` and `null`
mean that it is.

A record is read by the names of its fields. JSON readers also take a list of values in the place of
a record, each value for the field at its place: the entries of a baseline, which is always a JSON
document, are read so (`fieldsInOrder`). Policies, inputs and events, whose documents may be of
another format, are read from records only. -/

namespace RepoPolicy.Document

abbrev Decoder (α : Type) := Value → Option α

/-- The fields of a record, while they are being read. -/
abbrev Fields := List (String × Value)

namespace Decoder

def string : Decoder String
  | .string text => some text
  | .plain text => some text
  | _ => none

def bool : Decoder Bool
  | .bool b => some b
  | .plain "true" => some true
  | .plain "false" => some false
  | _ => none

/-! ## Natural numbers -/

def digitValue? (c : Char) : Option Nat :=
  if c.isDigit then some (c.toNat - 48)
  else if c.isLower then some (c.toNat - 87)
  else if c.isUpper then some (c.toNat - 55)
  else none

/-- The number that digits of a base write; there must be at least one digit. -/
def ofDigits (base : Nat) (digits : List Char) : Option Nat :=
  if digits.isEmpty then none
  else digits.foldlM (fun n d => do
    let d ← digitValue? d
    if d < base then some (n * base + d) else none) 0

/-- The natural number that an unquoted scalar writes: decimal without leading zeros, or with the
mark `0x`, `0o` or `0b` of another base; a plus sign may stand in front. -/
def scalarNat (text : String) : Option Nat :=
  let digits :=
    match text.toList with
    | '+' :: rest => rest
    | cs => cs
  match digits with
  | '0' :: 'x' :: rest => ofDigits 16 rest
  | '0' :: 'o' :: rest => ofDigits 8 rest
  | '0' :: 'b' :: rest => ofDigits 2 rest
  | '0' :: _ :: _ => none
  | _ => ofDigits 10 digits

def natBelow (bound : Nat) : Decoder Nat
  | .nat n => if n < bound then some n else none
  | .plain text => do
    let n ← scalarNat text
    if n < bound then some n else none
  | _ => none

def nat : Decoder Nat := natBelow wordSize

/-! ## Lists, options and records -/

def list {α : Type} (item : Decoder α) : Decoder (List α)
  | .list items => items.mapM item
  | .plain "" => some []
  | _ => none

def isAbsent : Value → Bool
  | .null => true
  | .plain text => text.isEmpty || ["~", "null", "Null", "NULL"].contains text
  | _ => false

def optional {α : Type} (item : Decoder α) : Decoder (Option α) := fun value =>
  if isAbsent value then some none else (item value).map some

def oneOf {α : Type} (names : List (String × α)) : Decoder α := fun value => do
  names.lookup (← string value)

def fields : Decoder Fields
  | .record fields => some fields
  | .plain "" => some []
  | _ => none

/-- The fields of a record with these names, which may also be given as a list of their values. Values
at the end of the list may be left out. -/
def fieldsInOrder (names : List String) : Decoder Fields
  | .list items => if items.length ≤ names.length then some (names.zip items) else none
  | value => fields value

/-- A mapping from names, sorted by name. Of two values with one name the later one counts. -/
def mapping {α : Type} (item : Decoder α) : Decoder (List (String × α)) := fun value => do
  let entries ← (← fields value).mapM fun (name, v) => do return (name, ← item v)
  return entries.foldl insert []
where
  /-- Put a value under a name into a sorted list. -/
  insert (sorted : List (String × α)) (entry : String × α) : List (String × α) :=
    match sorted with
    | [] => [entry]
    | first :: rest =>
      if entry.1 < first.1 then entry :: first :: rest
      else if entry.1 = first.1 then entry :: rest
      else first :: insert rest entry

end Decoder

namespace Fields

/-- The value of a field, if the record has it. A record that has it twice is refused. -/
def find (fields : Fields) (name : String) : Option (Option Value) :=
  match fields.filter (·.1 == name) with
  | [] => some none
  | [(_, value)] => some (some value)
  | _ => none

def required {α : Type} (fields : Fields) (name : String) (item : Decoder α) : Option α := do
  match ← fields.find name with
  | some value => item value
  | none => none

def withDefault {α : Type} (fields : Fields) (name : String) (default : α) (item : Decoder α) :
    Option α := do
  match ← fields.find name with
  | some value => item value
  | none => some default

def optional {α : Type} (fields : Fields) (name : String) (item : Decoder α) :
    Option (Option α) :=
  fields.withDefault name none (Decoder.optional item)

end Fields

end RepoPolicy.Document
