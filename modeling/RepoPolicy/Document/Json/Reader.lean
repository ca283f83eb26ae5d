import RepoPolicy.Document.Value

set_option autoImplicit false

/-! # Reading JSON

`parse` reads a JSON text. Lists and records may be nested 127 deep; a number that no double holds
is refused, and so is a surrogate that is not half of a pair. Records keep every field they are
written with, repeated names included. -/

namespace RepoPolicy.Document.Json

/-- Read something from the front of a text and return it with what is left. -/
abbrev Read (α : Type) := List Char → Option (α × List Char)

/-- The blanks that may stand between the tokens. -/
def isSeparator (c : Char) : Bool := c == ' ' || c == '\n' || c == '\t' || c == '\r'

def skipBlanks (text : List Char) : List Char := text.dropWhile isSeparator

/-! ## Strings -/

def hexValue? (c : Char) : Option Nat :=
  if c.isDigit then some (c.toNat - 48)
  else if 'a' ≤ c && c ≤ 'f' then some (c.toNat - 87)
  else if 'A' ≤ c && c ≤ 'F' then some (c.toNat - 55)
  else none

/-- Four hexadecimal digits. -/
def hex4 : Read Nat
  | a :: b :: c :: d :: rest => do
    let a ← hexValue? a
    let b ← hexValue? b
    let c ← hexValue? c
    let d ← hexValue? d
    return (((a * 16 + b) * 16 + c) * 16 + d, rest)
  | _ => none

/-- What follows `\u`: one code unit, or the two of a surrogate pair. -/
def unicodeEscape : Read Char := fun text => do
  let (unit, rest) ← hex4 text
  if 0xD800 ≤ unit ∧ unit ≤ 0xDBFF then
    match rest with
    | '\\' :: 'u' :: rest =>
      let (low, rest) ← hex4 rest
      if 0xDC00 ≤ low ∧ low ≤ 0xDFFF then
        return (Char.ofNat (0x10000 + (unit - 0xD800) * 0x400 + (low - 0xDC00)), rest)
      else none
    | _ => none
  else if 0xDC00 ≤ unit ∧ unit ≤ 0xDFFF then none
  else return (Char.ofNat unit, rest)

def escape : Read Char
  | '"' :: rest => some ('"', rest)
  | '\\' :: rest => some ('\\', rest)
  | '/' :: rest => some ('/', rest)
  | 'b' :: rest => some (Char.ofNat 8, rest)
  | 'f' :: rest => some (Char.ofNat 12, rest)
  | 'n' :: rest => some ('\n', rest)
  | 'r' :: rest => some ('\r', rest)
  | 't' :: rest => some ('\t', rest)
  | 'u' :: rest => unicodeEscape rest
  | _ => none

/-- The characters up to the closing quote. Every step takes a character off the text, so `fuel`
is enough when it exceeds the length of the text. -/
def stringTail : Nat → Read (List Char)
  | 0, _ => none
  | _ + 1, [] => none
  | fuel + 1, c :: rest =>
    if c == '"' then some ([], rest)
    else if c == '\\' then do
      let (c, rest) ← escape rest
      let (cs, rest) ← stringTail fuel rest
      return (c :: cs, rest)
    else if c.toNat < 32 then none
    else do
      let (cs, rest) ← stringTail fuel rest
      return (c :: cs, rest)

/-- A text whose opening quote has been read. -/
def stringBody : Read String := fun text => do
  let (cs, rest) ← stringTail (text.length + 1) text
  return (String.ofList cs, rest)

/-! ## Numbers -/

def decimalValue (digits : List Char) : Nat :=
  digits.foldl (fun n d => n * 10 + (d.toNat - 48)) 0

def takeDigits (text : List Char) : List Char × List Char :=
  (text.takeWhile Char.isDigit, text.dropWhile Char.isDigit)

/-- Digits before the point: a single zero, or digits that begin with another one. -/
def integerPart : Read (List Char)
  | '0' :: rest => some (['0'], rest)
  | text =>
    match takeDigits text with
    | ([], _) => none
    | (digits, rest) => some (digits, rest)

/-- The digits after a point, none if there is no point. -/
def fractionPart : Read (List Char)
  | '.' :: rest =>
    match takeDigits rest with
    | ([], _) => none
    | (digits, rest) => some (digits, rest)
  | text => some ([], text)

def exponentDigits : Read (Bool × List Char) := fun text =>
  let (negative, text) :=
    match text with
    | '+' :: rest => (false, rest)
    | '-' :: rest => (true, rest)
    | _ => (false, text)
  match takeDigits text with
  | ([], _) => none
  | (digits, rest) => some ((negative, digits), rest)

def exponentPart : Read (Option (Bool × List Char))
  | c :: rest =>
    if c == 'e' || c == 'E' then (exponentDigits rest).map fun (e, rest) => (some e, rest)
    else some (none, c :: rest)
  | [] => some (none, [])

/-- Whether `mantissa · 10^exponent` is so large that it rounds to no finite double. -/
def overflowsDouble (mantissa : Nat) (exponent : Int) : Bool :=
  let digits := (Nat.toDigits 10 mantissa).length
  if mantissa == 0 || digits + exponent < 300 then false
  else if digits + exponent > 400 then true
  else
    let limit := Nat.pow 2 1024 - Nat.pow 2 970
    if exponent < 0 then mantissa ≥ limit * Nat.pow 10 exponent.natAbs
    else mantissa * Nat.pow 10 exponent.toNat ≥ limit

def number : Read Value := fun text => do
  let (negative, afterSign) :=
    match text with
    | '-' :: rest => (true, rest)
    | _ => (false, text)
  let (whole, afterWhole) ← integerPart afterSign
  let (fraction, afterFraction) ← fractionPart afterWhole
  let (exponent, rest) ← exponentPart afterFraction
  let value := decimalValue whole
  if !negative && fraction.isEmpty && exponent.isNone && value < wordSize then
    return (.nat value, rest)
  else
    let shift : Int :=
      match exponent with
      | none => 0
      | some (false, digits) => decimalValue digits
      | some (true, digits) => -(decimalValue digits)
    if overflowsDouble (decimalValue (whole ++ fraction)) (shift - fraction.length) then none
    else return (.number (String.ofList (text.take (text.length - rest.length))), rest)

/-! ## Values -/

/-- Items up to the closing bracket, at least one. -/
def items (value : Read Value) : Nat → Read (List Value)
  | 0, _ => none
  | fuel + 1, text => do
    let (item, rest) ← value text
    match skipBlanks rest with
    | ',' :: rest =>
      let (more, rest) ← items value fuel rest
      return (item :: more, rest)
    | ']' :: rest => return ([item], rest)
    | _ => none

def member (value : Read Value) : Read (String × Value) := fun text =>
  match skipBlanks text with
  | '"' :: rest => do
    let (name, rest) ← stringBody rest
    match skipBlanks rest with
    | ':' :: rest =>
      let (v, rest) ← value rest
      return ((name, v), rest)
    | _ => none
  | _ => none

/-- Fields up to the closing brace, at least one. -/
def members (value : Read Value) : Nat → Read (List (String × Value))
  | 0, _ => none
  | fuel + 1, text => do
    let (field, rest) ← member value text
    match skipBlanks rest with
    | ',' :: rest =>
      let (more, rest) ← members value fuel rest
      return (field :: more, rest)
    | '\x7d' :: rest => return ([field], rest)
    | _ => none

/-- What follows an opening bracket. -/
def listTail (value : Read Value) : Read Value := fun text =>
  match skipBlanks text with
  | ']' :: rest => some (.list [], rest)
  | text => (items value text.length text).map fun (vs, rest) => (.list vs, rest)

/-- What follows an opening brace. -/
def recordTail (value : Read Value) : Read Value := fun text =>
  match skipBlanks text with
  | '\x7d' :: rest => some (.record [], rest)
  | text => (members value text.length text).map fun (fs, rest) => (.record fs, rest)

/-- A value in which lists and records are nested less than `depth` deep. -/
def valueWithin : Nat → Read Value
  | 0, _ => none
  | depth + 1, text =>
    match skipBlanks text with
    | 'n' :: 'u' :: 'l' :: 'l' :: rest => some (.null, rest)
    | 't' :: 'r' :: 'u' :: 'e' :: rest => some (.bool true, rest)
    | 'f' :: 'a' :: 'l' :: 's' :: 'e' :: rest => some (.bool false, rest)
    | '"' :: rest => (stringBody rest).map fun (s, rest) => (.string s, rest)
    | '[' :: rest => if depth = 0 then none else listTail (valueWithin depth) rest
    | '\x7b' :: rest => if depth = 0 then none else recordTail (valueWithin depth) rest
    | text => number text

/-- The levels of lists and records that a text may have, and one more. -/
def depthLimit : Nat := 128

def parse (text : String) : Option Value :=
  match valueWithin depthLimit text.toList with
  | some (value, rest) => if (skipBlanks rest).isEmpty then some value else none
  | none => none

end RepoPolicy.Document.Json
