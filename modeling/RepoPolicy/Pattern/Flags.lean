import RepoPolicy.Pattern.Escape

set_option autoImplicit false

/-! # Flags of patterns

Flags change what parts of a pattern stand for. They hold from where they are set to the end of the
group. -/

namespace RepoPolicy.Pattern

open RepoPolicy.Text

/-- The flags that hold at a point of a pattern. -/
structure Flags where
  /-- Letters stand for themselves in any case. -/
  anyCase : Bool := false
  /-- `^` and `$` stand for the start and the end of a line. -/
  multiLine : Bool := false
  /-- `.` stands for the end of a line too. -/
  dotAll : Bool := false
  /-- Lines may also end in a carriage return. -/
  crlf : Bool := false
  /-- Blanks and comments are left out. -/
  spaced : Bool := false
  deriving DecidableEq, Repr

namespace Flags

/-- Set the flag of a letter, or clear it. Whether repetitions are greedy makes no difference to
what a pattern matches, and that its characters are those of Unicode cannot be changed. -/
def set (flags : Flags) (letter : Char) (value : Bool) : Option Flags :=
  match letter with
  | 'i' => some { flags with anyCase := value }
  | 'm' => some { flags with multiLine := value }
  | 's' => some { flags with dotAll := value }
  | 'R' => some { flags with crlf := value }
  | 'x' => some { flags with spaced := value }
  | 'U' => some flags
  | 'u' => if value then some flags else none
  | _ => none

/-- Read letters of flags. A hyphen stands before those that are cleared. The letters end at a colon
or a closing parenthesis, and no letter comes twice. -/
def read (flags : Flags) (seen : List Char) (value : Bool) (last : Option Char) :
    List Char → Except PatternError (Reading Flags)
  | [] => .error .malformedFlags
  | c :: rest =>
    if c == ':' || c == ')' then
      if last = some '-' then .error .malformedFlags else .ok (flags, c :: rest)
    else if seen.contains c then .error .malformedFlags
    else if c == '-' then read flags (c :: seen) false (some c) rest
    else
      match flags.set c value with
      | some flags => read flags (c :: seen) value (some c) rest
      | none => .error .malformedFlags

/-- The text without the blanks and comments in front of it, or without the comment that it is
in. -/
def dropSpace : Bool → List Char → List Char
  | _, [] => []
  | true, c :: rest => dropSpace (c != '\n') rest
  | false, c :: rest =>
    if isBlank c then dropSpace false rest
    else if c == '#' then dropSpace true rest
    else c :: rest

/-- The text without what is left out in front of it. -/
def skip (flags : Flags) (cs : List Char) : List Char :=
  if flags.spaced then dropSpace false cs else cs

def dot (flags : Flags) : CharSet :=
  if flags.dotAll then .any else if flags.crlf then .inLineCrlf else .inLine

def lineStart (flags : Flags) : Assertion :=
  if flags.multiLine then if flags.crlf then .lineStartCrlf else .lineStart else .textStart

def lineEnd (flags : Flags) : Assertion :=
  if flags.multiLine then if flags.crlf then .lineEndCrlf else .lineEnd else .textEnd

def cased (flags : Flags) (set : CharSet) : CharSet := if flags.anyCase then .anyCase set else set

end Flags

end RepoPolicy.Pattern
