import RepoPolicy.Pattern.CharSet
import RepoPolicy.Text.Scan

set_option autoImplicit false

/-! # Patterns

A pattern describes pieces of text. `Pattern.ends` says where pieces that begin at some places may
end. It works on sets of places, so that no place is looked at twice for the same part of a
pattern, however the parts are repeated. -/

namespace RepoPolicy

open RepoPolicy.Text

/-- A condition on a place in a text. -/
inductive Assertion where
  | textStart
  | textEnd
  | lineStart
  | lineEnd
  /-- The start of a line, where lines may also end in a carriage return. -/
  | lineStartCrlf
  /-- The end of a line, where lines may also end in a carriage return. -/
  | lineEndCrlf
  | wordEdge
  | noWordEdge
  | wordStart
  | wordEnd
  /-- No word ends or goes on here. -/
  | noWordBefore
  /-- No word begins or goes on here. -/
  | noWordAfter
  deriving DecidableEq, Repr

def Assertion.holds (assertion : Assertion) (place : Place) : Bool :=
  let previous := place.before.head?
  let next := place.after.head?
  let wordBefore := previous.any isWordChar
  let wordAfter := next.any isWordChar
  match assertion with
  | .textStart => previous.isNone
  | .textEnd => next.isNone
  | .lineStart => previous.all (· == '\n')
  | .lineEnd => next.all (· == '\n')
  | .lineStartCrlf => previous.all fun c => c == '\n' || (c == '\r' && next != some '\n')
  | .lineEndCrlf => next.all fun c => c == '\r' || (c == '\n' && previous != some '\r')
  | .wordEdge => wordBefore != wordAfter
  | .noWordEdge => wordBefore == wordAfter
  | .wordStart => !wordBefore && wordAfter
  | .wordEnd => wordBefore && !wordAfter
  | .noWordBefore => !wordBefore
  | .noWordAfter => !wordAfter

inductive Pattern where
  /-- Nothing. -/
  | empty
  /-- One character. -/
  | char (set : CharSet)
  /-- Nothing, where a condition holds. -/
  | assert (assertion : Assertion)
  /-- One piece after another. -/
  | seq (first second : Pattern)
  /-- Either piece. -/
  | either (first second : Pattern)
  /-- A number of pieces, between two bounds. -/
  | times (part : Pattern) (least : Nat) (most : Option Nat)
  deriving DecidableEq, Repr

namespace Pattern

def step? (set : CharSet) (place : Place) : Option Place :=
  match place.after with
  | c :: rest => if set.contains c then some ⟨c :: place.before, rest⟩ else none
  | [] => none

/-- The places of the first list, and those of the second that are not among them. -/
def join (places others : List Place) : List Place :=
  places ++ others.filter fun place => !places.contains place

def exactly (step : List Place → List Place) : Nat → List Place → List Place
  | 0, places => places
  | n + 1, places => exactly step n (step places)

/-- The places that are reached from the last ones in at most so many steps, and those seen
before. -/
def atMost (step : List Place → List Place) : Nat → List Place → List Place → List Place
  | 0, seen, _ => seen
  | n + 1, seen, last =>
    match (step last).filter fun place => !seen.contains place with
    | [] => seen
    | new => atMost step n (seen ++ new) new

/-- The number of characters that lie after a place, at most. -/
def reach (places : List Place) : Nat := places.foldr (fun place n => max place.after.length n) 0

/-- The places where pieces of text that begin at one of the places may end. Without an upper bound
on a repetition, each piece that leads to a new place takes up a character at least, so that the
number of the characters bounds the number of the pieces. -/
def ends : Pattern → List Place → List Place
  | .empty, places => places
  | .char set, places => places.filterMap (step? set)
  | .assert assertion, places => places.filter assertion.holds
  | .seq first second, places => second.ends (first.ends places)
  | .either first second, places => join (first.ends places) (second.ends places)
  | .times part least most, places =>
    let begun := exactly (fun places => part.ends places) least places
    let more := match most with
      | some most => most - least
      | none => reach begun + 1
    atMost (fun places => part.ends places) more begun begun

def placesFrom (before : List Char) : List Char → List Place
  | [] => [⟨before, []⟩]
  | c :: rest => ⟨before, c :: rest⟩ :: placesFrom (c :: before) rest

def isMatch (pattern : Pattern) (text : String) : Bool :=
  !(pattern.ends (placesFrom [] text.toList)).isEmpty

end Pattern

end RepoPolicy
