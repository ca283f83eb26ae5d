import RepoPolicy.Text.Blank
import RepoPolicy.Text.LetterCase

set_option autoImplicit false

/-! # Sets of characters

What one character of a text has to be. Of the properties that Unicode gives to characters there are
those for which there is a table: alphabetic, numeric, decimal digit and white space. The other
general categories, the scripts and the further properties have no set here, and a pattern that names
one of them is refused. -/

namespace RepoPolicy

open RepoPolicy.Text

inductive CharSet where
  | none
  /-- All characters from one to another. -/
  | span (low high : Char)
  | digit
  | blank
  | wordChar
  | alphabetic
  | numeric
  | union (left right : CharSet)
  | inter (left right : CharSet)
  | diff (left right : CharSet)
  | compl (set : CharSet)
  /-- The members whatever their case. -/
  | anyCase (set : CharSet)
  deriving DecidableEq, Repr

namespace CharSet

def contains : CharSet → Char → Bool
  | .none, _ => false
  | .span low high, c => low ≤ c && c ≤ high
  | .digit, c => isDecimal c
  | .blank, c => isBlank c
  | .wordChar, c => isWordChar c
  | .alphabetic, c => isAlphabetic c
  | .numeric, c => isNumeric c
  | .union left right, c => left.contains c || right.contains c
  | .inter left right, c => left.contains c && right.contains c
  | .diff left right, c => left.contains c && !right.contains c
  | .compl set, c => !set.contains c
  | .anyCase set, c => (foldMates c).any fun mate => set.contains mate

def only (c : Char) : CharSet := .span c c

def ofSpans (spans : List (Char × Char)) : CharSet :=
  spans.foldr (fun (low, high) set => .union (.span low high) set) .none

def any : CharSet := .compl .none

/-- All characters but the end of a line. -/
def inLine : CharSet := .compl (only '\n')

/-- All characters but those that end a line, the carriage return among them. -/
def inLineCrlf : CharSet := .compl (.union (only '\n') (only '\r'))

/-- The sets of plain characters that have a name. -/
def named : List (String × CharSet) := [
  ("alnum", ofSpans [('0', '9'), ('A', 'Z'), ('a', 'z')]),
  ("alpha", ofSpans [('A', 'Z'), ('a', 'z')]),
  ("ascii", ofSpans [(Char.ofNat 0, Char.ofNat 127)]),
  ("blank", ofSpans [('\t', '\t'), (' ', ' ')]),
  ("cntrl", ofSpans [(Char.ofNat 0, Char.ofNat 31), (Char.ofNat 127, Char.ofNat 127)]),
  ("digit", ofSpans [('0', '9')]),
  ("graph", ofSpans [('!', '~')]),
  ("lower", ofSpans [('a', 'z')]),
  ("print", ofSpans [(' ', '~')]),
  ("punct", ofSpans [('!', '/'), (':', '@'), ('[', Char.ofNat 96), ('\x7b', '~')]),
  ("space", ofSpans [('\t', '\r'), (' ', ' ')]),
  ("upper", ofSpans [('A', 'Z')]),
  ("word", ofSpans [('0', '9'), ('A', 'Z'), ('_', '_'), ('a', 'z')]),
  ("xdigit", ofSpans [('0', '9'), ('A', 'F'), ('a', 'f')])]

def properties : List (String × CharSet) := [
  ("alphabetic", .alphabetic), ("alpha", .alphabetic),
  ("whitespace", .blank), ("wspace", .blank), ("space", .blank),
  ("n", .numeric), ("number", .numeric),
  ("nd", .digit), ("decimalnumber", .digit), ("digit", .digit),
  ("any", any), ("ascii", ofSpans [(Char.ofNat 0, Char.ofNat 127)])]

end CharSet

end RepoPolicy
