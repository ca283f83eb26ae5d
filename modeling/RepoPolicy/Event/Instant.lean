import RepoPolicy.Text.Blank

set_option autoImplicit false

/-! # Points in time

Events say when a run began, as in `2024-01-02T03:04:05Z`. The time itself takes no part in any
check, so that only its form matters here. -/

namespace RepoPolicy.Instant

open RepoPolicy.Text

/-- A reader of a part: what it reads and what is left. -/
abbrev Part (α : Type) := List Char → Option (α × List Char)

/-- The number that a list of decimal digits writes. -/
def ofDigits (digits : List Char) : Nat := digits.foldl (fun n d => 10 * n + (d.toNat - 48)) 0

/-- A number of at most so many digits. Blanks may stand before it. -/
def number (most : Nat) : Part Nat := fun cs =>
  let cs := trimStart cs
  let digits := (cs.take most).takeWhile Char.isDigit
  if digits.isEmpty then none else some (ofDigits digits, cs.drop digits.length)

/-- A year: four digits at most, or more than that behind a sign. -/
def year : Part Int := fun cs =>
  match trimStart cs with
  | '-' :: rest => (signed rest).map fun (n, rest) => (-(n : Int), rest)
  | '+' :: rest => (signed rest).map fun (n, rest) => ((n : Int), rest)
  | cs => (number 4 cs).map fun (n, rest) => ((n : Int), rest)
where
  /-- The digits behind a sign. -/
  signed (cs : List Char) : Option (Nat × List Char) :=
    let digits := cs.takeWhile Char.isDigit
    if digits.isEmpty then none else some (ofDigits digits, cs.drop digits.length)

/-- A given character. Blanks may stand before it. -/
def mark (c : Char) : Part Unit := fun cs =>
  match trimStart cs with
  | d :: rest => if d = c then some ((), rest) else none
  | [] => none

/-- A fraction of a second, if there is one: a point and digits. -/
def fraction : Part Unit
  | '.' :: rest =>
    let digits := rest.takeWhile Char.isDigit
    if digits.isEmpty then none else some ((), rest.drop digits.length)
  | cs => some ((), cs)

/-- The word `UTC` or the letter `Z`, in either case. -/
def universal : Part Unit
  | a :: b :: c :: rest =>
    if a.toUpper = 'U' ∧ b.toUpper = 'T' ∧ c.toUpper = 'C' then some ((), rest)
    else if a.toUpper = 'Z' then some ((), b :: c :: rest)
    else none
  | a :: rest => if a.toUpper = 'Z' then some ((), rest) else none
  | [] => none

/-- A difference from universal time: a sign and two digits each for hours and minutes, which are
divided by colons or blanks, or not at all. It is less than a day. -/
def difference : Part Unit
  | sign :: h1 :: h2 :: rest =>
    if (sign == '+' || sign == '-' || sign == '−') && h1.isDigit && h2.isDigit then
      match rest.dropWhile fun c => c == ':' || isBlank c with
      | m1 :: m2 :: rest =>
        if m1.isDigit && m2.isDigit && ofDigits [m1, m2] < 60 && ofDigits [h1, h2] < 24 then
          some ((), rest)
        else none
      | _ => none
    else none
  | _ => none

/-- Whether a year has a 29th of February. -/
def isLeapYear (year : Int) : Bool :=
  year % 4 == 0 && (year % 100 != 0 || year % 400 == 0)

def monthLength (year : Int) (month : Nat) : Nat :=
  if month = 2 then if isLeapYear year then 29 else 28
  else if [4, 6, 9, 11].contains month then 30
  else 31

/-- The years that can be represented. -/
def isYear (year : Int) : Bool := -262143 ≤ year && year ≤ 262142

/-- Whether a text is a point in time: a date, the letter `T` or a blank, a time, and the difference
from universal time. A minute may have a 61st second. -/
def isInstant (text : String) : Bool :=
  let result : Option Unit := do
    let (y, cs) ← year text.toList
    let (_, cs) ← mark '-' cs
    let (m, cs) ← number 2 cs
    let (_, cs) ← mark '-' cs
    let (d, cs) ← number 2 cs
    let cs ← match cs with
      | c :: rest => if c == 't' || c == 'T' || c == ' ' then some rest else none
      | [] => none
    let (hour, cs) ← number 2 cs
    let (_, cs) ← mark ':' cs
    let (minute, cs) ← number 2 cs
    let (_, cs) ← mark ':' cs
    let (second, cs) ← number 2 cs
    let (_, cs) ← fraction cs
    let cs := trimStart cs
    let (_, cs) ← (universal cs).or (difference cs)
    if isYear y && 1 ≤ m && m ≤ 12 && 1 ≤ d && d ≤ monthLength y m && hour < 24 && minute < 60 &&
        second ≤ 60 && (trimStart cs).isEmpty then
      some ()
    else none
  result.isSome

end RepoPolicy.Instant
