import RepoPolicy.Pattern.Flags

set_option autoImplicit false

/-! # Sets in brackets

Sets are written in brackets, as in `[a-z_]`, `[^\d]` or `[[:alpha:]--[aeiou]]`. -/

namespace RepoPolicy.Pattern

open RepoPolicy.Text

/-- A way to combine two sets. -/
inductive SetOperator where
  | inter
  | diff
  | symmDiff
  deriving DecidableEq, Repr

def SetOperator.apply : SetOperator → CharSet → CharSet → CharSet
  | .inter, left, right => .inter left right
  | .diff, left, right => .diff left right
  | .symmDiff, left, right => .union (.diff left right) (.diff right left)

/-- A set with a name between colons, behind its opening bracket: `:alpha:]` or `:^alpha:]`. -/
def readNamedSet : List Char → Option (CharSet × List Char)
  | ':' :: rest =>
    let (negated, rest) := match rest with
      | '^' :: rest => (true, rest)
      | _ => (false, rest)
    match rest.dropWhile (· != ':') with
    | ':' :: ']' :: after =>
      (CharSet.named.lookup (String.ofList (rest.takeWhile (· != ':')))).map fun set =>
        (if negated then .compl set else set, after)
    | _ => none
  | _ => none

def readItem : List Char → Except PatternError (Reading Escape)
  | [] => .error .unclosedClass
  | '\\' :: rest => readEscape rest
  | c :: rest => .ok (.literal c, rest)

def itemSet : Escape → Except PatternError CharSet
  | .literal c => .ok (.only c)
  | .set set => .ok set
  | .assertion _ => .error .conditionInClass

/-- An item of a set, or a span between two characters. A hyphen before the closing bracket or
before another hyphen makes no span. -/
def readSpan (flags : Flags) (cs : List Char) : Except PatternError (Reading CharSet) := do
  let (first, rest) ← readItem cs
  match flags.skip rest with
  | [] => .error .unclosedClass
  | '-' :: after =>
    match flags.skip after with
    | [] => .error .unclosedClass
    | ']' :: _ => return (← itemSet first, '-' :: after)
    | '-' :: _ => return (← itemSet first, '-' :: after)
    | next =>
      let (last, rest) ← readItem next
      match first, last with
      | .literal low, .literal high =>
        if low ≤ high then .ok (.span low high, rest) else .error .reversedSpan
      | _, _ => .error .spanOfSets
  | rest => return (← itemSet first, rest)

/-- The hyphens in front of a set, which stand for themselves. -/
def readHyphens (flags : Flags) : Nat → CharSet → List Char → CharSet × List Char
  | 0, set, cs => (set, cs)
  | fuel + 1, set, cs =>
    match flags.skip cs with
    | '-' :: rest => readHyphens flags fuel (.union set (.only '-')) rest
    | cs => (set, cs)

/-- A set that may be combined with what follows. -/
def combine (flags : Flags) (left : Option (SetOperator × CharSet)) (right : CharSet) : CharSet :=
  match left with
  | some (operator, left) => operator.apply (flags.cased left) (flags.cased right)
  | none => right

mutual

/-- A set, behind its opening bracket. A closing bracket that comes first stands for itself. -/
def readBracket (flags : Flags) : Nat → List Char → Except PatternError (Reading CharSet)
  | 0, _ => .error .tooLarge
  | fuel + 1, cs => do
    let (negated, cs) := match flags.skip cs with
      | '^' :: rest => (true, rest)
      | cs => (false, cs)
    let (hyphens, cs) := readHyphens flags cs.length .none cs
    let (start, cs) := match hyphens, cs with
      | .none, ']' :: rest => (.only ']', rest)
      | _, _ => (hyphens, cs)
    let (set, rest) ← readItems flags fuel none start cs
    let set := flags.cased set
    return (if negated then .compl set else set, rest)

/-- The items of a set up to its closing bracket, after those that have been read. -/
def readItems (flags : Flags) : Nat → Option (SetOperator × CharSet) → CharSet → List Char →
    Except PatternError (Reading CharSet)
  | 0, _, _, _ => .error .tooLarge
  | fuel + 1, left, items, cs => do
    match flags.skip cs with
    | [] => .error .unclosedClass
    | ']' :: rest => return (combine flags left items, rest)
    | '&' :: '&' :: rest =>
      readItems flags fuel (some (.inter, combine flags left items)) .none rest
    | '-' :: '-' :: rest => readItems flags fuel (some (.diff, combine flags left items)) .none rest
    | '~' :: '~' :: rest =>
      readItems flags fuel (some (.symmDiff, combine flags left items)) .none rest
    | '[' :: rest =>
      match readNamedSet rest with
      | some (set, rest) => readItems flags fuel left (.union items set) rest
      | none =>
        let (set, rest) ← readBracket flags fuel rest
        readItems flags fuel left (.union items set) rest
    | cs =>
      let (set, rest) ← readSpan flags cs
      readItems flags fuel left (.union items set) rest

end

end RepoPolicy.Pattern
