import RepoPolicy.Pattern.Bracket

set_option autoImplicit false

/-! # Reading patterns

Patterns are written with characters that stand for themselves, `.`, sets in brackets, escapes,
`^` and `$`, groups, alternatives and repetitions. What cannot be matched in linear time,
look-around and references to groups, is refused.

Two things are refused though they could be matched. A property `\p{…}` has to be one of
`CharSet.properties`, so that general categories such as `\p{L}` and scripts such as `\p{Greek}` are
unknown. And the flag `u` cannot be cleared (`Flags.set`), so that there is no `(?-u)`, with which
classes and letter case would be those of ASCII. -/

namespace RepoPolicy.Pattern

open RepoPolicy.Text

structure ReadState where
  flags : Flags := {}
  /-- The names of the groups so far. -/
  names : List String := []
  deriving DecidableEq, Repr

/-! ## Repetitions -/

/-- The largest number of repetitions that can be written. -/
def countBound : Nat := Nat.pow 2 32

/-- A number of repetitions, between blanks. -/
def readCount (cs : List Char) : Except PatternError (Reading Nat) :=
  let cs := trimStart cs
  let digits := cs.takeWhile Char.isDigit
  match Document.Decoder.ofDigits 10 digits with
  | some n =>
    if n < countBound then .ok (n, trimStart (cs.drop digits.length)) else .error .malformedCount
  | none => .error .malformedCount

/-- The bounds of a repetition, behind the opening brace. -/
def readBounds (cs : List Char) : Except PatternError (Reading (Nat × Option Nat)) := do
  let (least, rest) ← readCount cs
  match rest with
  | '\x7d' :: rest => return ((least, some least), rest)
  | ',' :: rest =>
    match trimStart rest with
    | '\x7d' :: rest => return ((least, none), rest)
    | _ =>
      let (most, rest) ← readCount rest
      match rest with
      | '\x7d' :: rest =>
        if least ≤ most then return ((least, some most), rest) else .error .reversedCount
      | _ => .error .malformedCount
  | _ => .error .malformedCount

/-- The text without the mark of a lazy repetition. -/
def dropLazy : List Char → List Char
  | '?' :: rest => rest
  | cs => cs

def readRepetitions (flags : Flags) :
    Nat → Pattern → List Char → Except PatternError (Reading Pattern)
  | 0, _, _ => .error .tooLarge
  | fuel + 1, part, cs =>
    match flags.skip cs with
    | '*' :: rest => readRepetitions flags fuel (.times part 0 none) (dropLazy rest)
    | '+' :: rest => readRepetitions flags fuel (.times part 1 none) (dropLazy rest)
    | '?' :: rest => readRepetitions flags fuel (.times part 0 (some 1)) (dropLazy rest)
    | '\x7b' :: rest => do
      let ((least, most), rest) ← readBounds rest
      readRepetitions flags fuel (.times part least most) (dropLazy rest)
    | cs => .ok (part, cs)

/-! ## Groups -/

/-- Whether a character can begin the name of a group. -/
def startsName (c : Char) : Bool := c == '_' || isAlphabetic c

def continuesName (c : Char) : Bool :=
  c == '_' || c == '.' || c == '[' || c == ']' || isAlphanumeric c

def readGroupName (names : List String) (cs : List Char) :
    Except PatternError (Reading (List String)) :=
  match cs.takeWhile (· != '>'), cs.dropWhile (· != '>') with
  | first :: others, '>' :: rest =>
    if startsName first && others.all continuesName then
      let name := String.ofList (first :: others)
      if names.contains name then .error .repeatedName else .ok (name :: names, rest)
    else .error .malformedName
  | _, _ => .error .malformedName

/-- What stands behind an opening parenthesis. -/
inductive GroupStart where
  /-- A group with these flags. -/
  | group (state : ReadState)
  /-- Flags for the rest of the group around it. -/
  | flags (state : ReadState)

def readGroupStart (state : ReadState) (cs : List Char) :
    Except PatternError (Reading GroupStart) := do
  match state.flags.skip cs with
  | '?' :: '=' :: _ => .error .lookAround
  | '?' :: '!' :: _ => .error .lookAround
  | '?' :: '<' :: '=' :: _ => .error .lookAround
  | '?' :: '<' :: '!' :: _ => .error .lookAround
  | '?' :: 'P' :: '<' :: rest =>
    let (names, rest) ← readGroupName state.names rest
    return (.group { state with names }, rest)
  | '?' :: '<' :: rest =>
    let (names, rest) ← readGroupName state.names rest
    return (.group { state with names }, rest)
  | '?' :: rest =>
    let (flags, after) ← Flags.read state.flags [] true none rest
    match after with
    | ':' :: after => return (.group { state with flags }, after)
    | ')' :: after =>
      if rest.head? = some ')' then .error .nothingToRepeat
      else return (.flags { state with flags }, after)
    | _ => .error .malformedFlags
  | rest => return (.group state, rest)

/-! ## Sequences and alternatives -/

/-- A part that is no group: a character, a set, an escape or a condition. -/
def readAtom (flags : Flags) : List Char → Except PatternError (Reading Pattern)
  | [] => .ok (.empty, [])
  | '.' :: rest => .ok (.char flags.dot, rest)
  | '^' :: rest => .ok (.assert flags.lineStart, rest)
  | '$' :: rest => .ok (.assert flags.lineEnd, rest)
  | '[' :: rest => do
    let (set, after) ← readBracket flags (2 * rest.length + 2) rest
    return (.char set, after)
  | '\\' :: rest => do
    match ← readEscape rest with
    | (.literal c, after) => return (.char (flags.cased (.only c)), after)
    | (.set set, after) => return (.char (flags.cased set), after)
    | (.assertion assertion, after) => return (.assert assertion, after)
  | c :: rest =>
    if c == '*' || c == '+' || c == '?' || c == '\x7b' then .error .nothingToRepeat
    else .ok (.char (flags.cased (.only c)), rest)

mutual

/-- Alternatives, up to a closing parenthesis or the end. -/
def readAlternatives :
    Nat → ReadState → List Char → Except PatternError (Reading (Pattern × ReadState))
  | 0, _, _ => .error .tooLarge
  | fuel + 1, state, cs => do
    let ((first, state), rest) ← readSequence fuel state cs
    match rest with
    | '|' :: rest =>
      let ((others, state), rest) ← readAlternatives fuel state rest
      return ((.either first others, state), rest)
    | rest => return ((first, state), rest)

/-- Parts one after the other, up to the next alternative, a closing parenthesis or the end. -/
def readSequence :
    Nat → ReadState → List Char → Except PatternError (Reading (Pattern × ReadState))
  | 0, _, _ => .error .tooLarge
  | fuel + 1, state, cs => do
    match state.flags.skip cs with
    | [] => return ((.empty, state), [])
    | '|' :: rest => return ((.empty, state), '|' :: rest)
    | ')' :: rest => return ((.empty, state), ')' :: rest)
    | '(' :: rest =>
      match ← readGroupStart state rest with
      | (.flags state, rest) => readSequence fuel state rest
      | (.group inner, rest) =>
        let ((group, inner), rest) ← readAlternatives fuel inner rest
        match rest with
        | ')' :: rest =>
          let (part, rest) ← readRepetitions state.flags (rest.length + 1) group rest
          let state := { state with names := inner.names }
          let ((others, state), rest) ← readSequence fuel state rest
          return ((.seq part others, state), rest)
        | _ => .error .unclosedGroup
    | cs =>
      let (atom, rest) ← readAtom state.flags cs
      let (part, rest) ← readRepetitions state.flags (rest.length + 1) atom rest
      let ((others, state), rest) ← readSequence fuel state rest
      return ((.seq part others, state), rest)

end

/-! ## The size of a pattern -/

/-- The number of parts of a pattern once its repetitions are written out. -/
def size : Pattern → Nat
  | .empty => 0
  | .char _ => 1
  | .assert _ => 1
  | .seq first second => first.size + second.size
  | .either first second => first.size + second.size + 1
  | .times part least most =>
    match most with
    | some most => (part.size + 1) * most
    | none => (part.size + 1) * (least + 1)

def sizeLimit : Nat := 400000

def read (text : String) : Except PatternError Pattern := do
  let cs := text.toList
  let ((pattern, _), rest) ← readAlternatives (2 * cs.length + 2) {} cs
  match rest with
  | [] => if pattern.size ≤ sizeLimit then .ok pattern else .error .tooLarge
  | _ => .error .unopenedGroup

end RepoPolicy.Pattern
