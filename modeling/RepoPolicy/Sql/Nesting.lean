import RepoPolicy.Text.Scan

set_option autoImplicit false

/-! # Nesting of parentheses

Parentheses count outside double quotes only, and a closing parenthesis with none open is
ignored. -/

namespace RepoPolicy.Sql

open RepoPolicy.Text

/-- How many parentheses are open, and whether a double quote is. -/
structure Nesting where
  depth : Nat
  quoted : Bool
  deriving DecidableEq, Repr

namespace Nesting

/-- No parenthesis and no quote open. -/
def outermost : Nesting := ⟨0, false⟩

def read (nesting : Nesting) (c : Char) : Nesting :=
  if c == '"' then { nesting with quoted := !nesting.quoted }
  else if nesting.quoted then nesting
  else if c == '(' then { nesting with depth := nesting.depth + 1 }
  else if c == ')' then { nesting with depth := nesting.depth - 1 }
  else nesting

def after (text : List Char) : Nesting := text.foldl read outermost

def atPlace (place : Place) : Nesting :=
  place.before.foldr (fun c nesting => nesting.read c) outermost

/-- The level of a character that is read in this state. Both parentheses of a pair are at the
level of what surrounds them. -/
def levelOf (nesting : Nesting) (c : Char) : Nat :=
  if c == ')' && !nesting.quoted then nesting.depth - 1 else nesting.depth

end Nesting

/-- The level of each character of a text, read in a state. -/
def levelsFrom (nesting : Nesting) : List Char → List Nat
  | [] => []
  | c :: rest => nesting.levelOf c :: levelsFrom (nesting.read c) rest

/-- The level of each character of a text: the number of parentheses around it. -/
def levels (text : List Char) : List Nat := levelsFrom .outermost text

def deepestLevel (text : List Char) : Nat := (levels text).foldl max 0

end RepoPolicy.Sql
