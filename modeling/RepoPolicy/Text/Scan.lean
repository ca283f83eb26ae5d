import RepoPolicy.Text.Blank
import RepoPolicy.Text.Letter
import RepoPolicy.Text.LetterCase

set_option autoImplicit false

/-! # Scanning a text

A `Place` is a point between two characters of a text. A `Scanner` says where a piece of text that
begins at a place may end: it lists the ends, the preferred one first, and no end means that
nothing of the kind begins there. Scanners are put together by sequence, choice and repetition, and
`occurrences` finds the pieces of a text from left to right, none of them overlapping. -/

namespace RepoPolicy.Text

/-- A point between two characters of a text: what lies before it, the nearest character first, and
what lies after it. -/
structure Place where
  before : List Char
  after : List Char
  deriving DecidableEq, Repr

namespace Place

def start (text : List Char) : Place := ⟨[], text⟩

/-- The characters between two places of one text, the second of which is not before the first. -/
def upTo (first last : Place) : List Char :=
  first.after.take (first.after.length - last.after.length)

/-- The place `n` characters further on, or the end of the text if it comes sooner. -/
def advance : Nat → Place → Place
  | 0, place => place
  | _ + 1, ⟨before, []⟩ => ⟨before, []⟩
  | n + 1, ⟨before, c :: rest⟩ => advance n ⟨c :: before, rest⟩

def atWordEdge (place : Place) : Bool :=
  let left := place.before.head?.any isWordChar
  let right := place.after.head?.any isWordChar
  left != right

end Place

/-- The ends of the pieces that begin at a place, the preferred end first. -/
abbrev Scanner := Place → List Place

namespace Scanner

def char (accept : Char → Bool) : Scanner := fun place =>
  match place.after with
  | c :: rest => if accept c then [⟨c :: place.before, rest⟩] else []
  | [] => []

def exactly (c : Char) : Scanner := char (· == c)

def andThen (first second : Scanner) : Scanner := fun place => (first place).flatMap second

def sequence (parts : List Scanner) : Scanner :=
  parts.foldr andThen fun place => [place]

/-- Either piece, the first one by preference. -/
def orElse (first second : Scanner) : Scanner := fun place => first place ++ second place

def optional (part : Scanner) : Scanner := fun place => part place ++ [place]

/-- The ends of a run of characters of a class that starts after `before`, the longest first. -/
def runFrom (accept : Char → Bool) (before : List Char) : List Char → List Place
  | [] => [⟨before, []⟩]
  | c :: rest =>
    if accept c then runFrom accept (c :: before) rest ++ [⟨before, c :: rest⟩]
    else [⟨before, c :: rest⟩]

/-- Any number of characters of a class, as many as possible by preference. -/
def many (accept : Char → Bool) : Scanner := fun place => runFrom accept place.before place.after

def many1 (accept : Char → Bool) : Scanner := andThen (char accept) (many accept)

def blanks : Scanner := many isBlank

def blanks1 : Scanner := many1 isBlank

/-- A word written in lower case, matched whatever the case of its letters. -/
def letters (word : String) : Scanner :=
  sequence (word.toList.map fun letter => char fun c => fold c == letter)

/-- Nothing, where a word begins or ends. -/
def wordEdge : Scanner := fun place => if place.atWordEdge then [place] else []

def keyword (word : String) : Scanner := andThen wordEdge (letters word)

def wholeWord (word : String) : Scanner := andThen (keyword word) wordEdge

/-- One of several pieces, the earlier ones by preference. -/
def oneOf (parts : List Scanner) : Scanner := fun place => parts.flatMap (· place)

end Scanner

/-- A piece of a text that a scanner has found. -/
structure Occurrence where
  start : Place
  stop : Place
  deriving DecidableEq, Repr

/-- The occurrences from a place on, once `skip` characters have been passed over. -/
def occurrencesFrom (scan : Scanner) : List Char → List Char → Nat → List Occurrence
  | before, [], skip =>
    if skip = 0 then
      match (scan ⟨before, []⟩).head? with
      | some stop => [⟨⟨before, []⟩, stop⟩]
      | none => []
    else []
  | before, c :: rest, skip + 1 => occurrencesFrom scan (c :: before) rest skip
  | before, c :: rest, 0 =>
    match (scan ⟨before, c :: rest⟩).head? with
    | some stop =>
      ⟨⟨before, c :: rest⟩, stop⟩ ::
        occurrencesFrom scan (c :: before) rest (rest.length - stop.after.length)
    | none => occurrencesFrom scan (c :: before) rest 0

/-- The occurrences of a piece in a text, from left to right. Each begins where no earlier one has
reached, and ends at its preferred end. -/
def occurrences (scan : Scanner) (text : List Char) : List Occurrence :=
  occurrencesFrom scan [] text 0

def occursIn (scan : Scanner) (text : List Char) : Bool := !(occurrences scan text).isEmpty

end RepoPolicy.Text
