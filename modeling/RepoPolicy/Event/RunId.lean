import RepoPolicy.Digest.Fingerprint

set_option autoImplicit false

/-! # Identifiers of runs

Streams of events that come from elsewhere name their runs by 128-bit numbers, written as 32
hexadecimal digits in groups of 8, 4, 4, 4 and 12. -/

namespace RepoPolicy

abbrev RunId := String

namespace RunId

def groupLengths : List Nat := [8, 4, 4, 4, 12]

/-- A character in lower case if it is a hexadecimal digit. -/
def hexLower? (c : Char) : Option Char :=
  if Digest.isHexChar c.toLower then some c.toLower else none

def hyphenated : List Nat → List Char → List Char
  | [], _ => []
  | [n], digits => digits.take n
  | n :: lengths, digits => digits.take n ++ '-' :: hyphenated lengths (digits.drop n)

/-- The digits of groups that are divided by hyphens. -/
def ungroup : List Nat → List Char → Option (List Char)
  | [], [] => some []
  | [], _ => none
  | [n], cs => if cs.length = n then some cs else none
  | n :: lengths, cs =>
    match cs.drop n with
    | '-' :: rest => do
      if (cs.take n).contains '-' then none else return cs.take n ++ (← ungroup lengths rest)
    | _ => none

/-- Read an identifier: 32 hexadecimal digits of either case, together or in groups. Groups may
stand in braces or after `urn:uuid:`. The result is in lower case with hyphens. -/
def ofText? (text : String) : Option RunId := do
  let cs := text.toList
  let digits ←
    if cs.length = 32 then some cs
    else
      match cs with
      | '\x7b' :: rest =>
        if rest.getLast? = some '\x7d' then ungroup groupLengths rest.dropLast else none
      | 'u' :: 'r' :: 'n' :: ':' :: 'u' :: 'u' :: 'i' :: 'd' :: ':' :: rest =>
        ungroup groupLengths rest
      | _ => ungroup groupLengths cs
  let digits ← digits.mapM hexLower?
  return String.ofList (hyphenated groupLengths digits)

end RunId

end RepoPolicy
