import RepoPolicy.Document.Decode
import RepoPolicy.Pattern.Error
import RepoPolicy.Pattern.Search

set_option autoImplicit false

/-! # Escapes in patterns

What a backslash and the characters after it stand for. -/

namespace RepoPolicy.Pattern

open RepoPolicy.Text

/-- A part that has been read, and what is left. -/
abbrev Reading (α : Type) := α × List Char

inductive Escape where
  | literal (c : Char)
  | set (set : CharSet)
  | assertion (assertion : Assertion)
  deriving DecidableEq, Repr

def controlLetters : List (Char × Char) :=
  [('a', Char.ofNat 7), ('f', Char.ofNat 12), ('t', '\t'), ('n', '\n'), ('r', '\r'),
    ('v', Char.ofNat 11)]

def setLetters : List (Char × CharSet) :=
  [('d', .digit), ('D', .compl .digit), ('s', .blank), ('S', .compl .blank), ('w', .wordChar),
    ('W', .compl .wordChar)]

def assertionLetters : List (Char × Assertion) :=
  [('A', .textStart), ('z', .textEnd), ('B', .noWordEdge), ('<', .wordStart), ('>', .wordEnd)]

/-- The conditions that can be named behind `\b`. -/
def wordAssertions : List (String × Assertion) :=
  [("start", .wordStart), ("end", .wordEnd), ("start-half", .noWordBefore),
    ("end-half", .noWordAfter)]

def standsForItself (c : Char) : Bool := c.toNat < 128 && !c.isAlphanum && c != '<' && c != '>'

/-! ## Character codes -/

def charOfCode (digits : List Char) : Except PatternError Char :=
  match Document.Decoder.ofDigits 16 digits with
  | some code => if code.isValidChar then .ok (Char.ofNat code) else .error .malformedCode
  | none => .error .malformedCode

/-- A code of so many digits, or one of any number of digits in braces. -/
def readCode (length : Nat) : List Char → Except PatternError (Reading Char)
  | '\x7b' :: rest =>
    match rest.dropWhile (· != '\x7d') with
    | _ :: after => do return (← charOfCode (rest.takeWhile (· != '\x7d')), after)
    | [] => .error .malformedCode
  | cs =>
    if cs.length < length then .error .malformedCode
    else do return (← charOfCode (cs.take length), cs.drop length)

/-! ## Properties and conditions -/

/-- The form in which names of properties are compared. -/
def propertyKey (name : List Char) : String :=
  String.ofList ((name.filter fun c => !(c == '_' || c == '-' || isBlank c)).map Char.toLower)

def propertySet (negated : Bool) (name : List Char) : Except PatternError CharSet :=
  let (negated, name) := match name with
    | '^' :: rest => (!negated, rest)
    | _ => (negated, name)
  match CharSet.properties.lookup (propertyKey name) with
  | some set => .ok (if negated then .compl set else set)
  | none => .error .unknownProperty

/-- A property: a name in braces, or a letter. -/
def readProperty (negated : Bool) : List Char → Except PatternError (Reading CharSet)
  | '\x7b' :: rest =>
    match rest.dropWhile (· != '\x7d') with
    | _ :: after => do return (← propertySet negated (rest.takeWhile (· != '\x7d')), after)
    | [] => .error .unknownProperty
  | c :: rest => do return (← propertySet negated [c], rest)
  | [] => .error .loneBackslash

/-- The condition that `\b` stands for. Braces behind it hold the name of another one, unless what
they hold cannot be a name. -/
def readWordEdge : List Char → Except PatternError (Reading Assertion)
  | '\x7b' :: rest =>
    let isNameChar (c : Char) : Bool := c.isAlpha || c == '-'
    match rest.takeWhile isNameChar with
    | [] => .ok (.wordEdge, '\x7b' :: rest)
    | name =>
      match rest.dropWhile isNameChar, wordAssertions.lookup (String.ofList name) with
      | '\x7d' :: after, some assertion => .ok (assertion, after)
      | _, _ => .error .unknownEscape
  | cs => .ok (.wordEdge, cs)

def readEscape : List Char → Except PatternError (Reading Escape)
  | [] => .error .loneBackslash
  | c :: rest =>
    if c.isDigit then .error .backReference
    else if c == 'x' then do
      let (c, rest) ← readCode 2 rest
      return (.literal c, rest)
    else if c == 'u' then do
      let (c, rest) ← readCode 4 rest
      return (.literal c, rest)
    else if c == 'U' then do
      let (c, rest) ← readCode 8 rest
      return (.literal c, rest)
    else if c == 'p' || c == 'P' then do
      let (set, rest) ← readProperty (c == 'P') rest
      return (.set set, rest)
    else if c == 'b' then do
      let (assertion, rest) ← readWordEdge rest
      return (.assertion assertion, rest)
    else if standsForItself c then .ok (.literal c, rest)
    else
      match controlLetters.lookup c, setLetters.lookup c, assertionLetters.lookup c with
      | some control, _, _ => .ok (.literal control, rest)
      | none, some set, _ => .ok (.set set, rest)
      | none, none, some assertion => .ok (.assertion assertion, rest)
      | none, none, none => .error .unknownEscape

end RepoPolicy.Pattern
