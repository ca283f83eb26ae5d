set_option autoImplicit false

/-! # Tokens of SQL

A SQL text is a sequence of words, literals, parameters and symbols. A word that is not quoted also
has a spelling as a keyword: its letters in upper case. -/

namespace RepoPolicy.Sql

/-- Why a text is not SQL. -/
inductive SyntaxError where
  /-- A quote or a comment is not closed, or an escape is malformed. -/
  | badToken
  /-- Something else was expected. -/
  | unexpected
  /-- Queries and expressions are nested more deeply than the reader goes. -/
  | tooDeep
  deriving DecidableEq, Repr

def SyntaxError.message : SyntaxError → String
  | .badToken => "unterminated or malformed token"
  | .unexpected => "unexpected token"
  | .tooDeep => "recursion limit exceeded"

inductive Token where
  /-- A word: its value, and its spelling as a keyword, which is empty for a quoted word. -/
  | word (value keyword : String)
  | number
  /-- A string in single quotes. It may also stand for a name. -/
  | string (value : String)
  /-- Any other literal. -/
  | literal
  /-- A parameter such as `$1` or `?`. -/
  | parameter
  | symbol (text : String)
  deriving DecidableEq, Repr

/-- The letters that a character contributes to a keyword. Besides the basic alphabet these are the
characters whose upper-case form consists of its letters. -/
def keywordLetters (c : Char) : List Char :=
  if c.toNat < 128 then [c.toUpper]
  else if c.toNat == 0xDF then ['S', 'S']
  else if c.toNat == 0x131 then ['I']
  else if c.toNat == 0x17F then ['S']
  else if c.toNat == 0xFB00 then ['F', 'F']
  else if c.toNat == 0xFB01 then ['F', 'I']
  else if c.toNat == 0xFB02 then ['F', 'L']
  else if c.toNat == 0xFB03 then ['F', 'F', 'I']
  else if c.toNat == 0xFB04 then ['F', 'F', 'L']
  else if c.toNat == 0xFB05 || c.toNat == 0xFB06 then ['S', 'T']
  else [c]

def Token.ofWord (value : List Char) : Token :=
  .word (String.ofList value) (String.ofList (value.flatMap keywordLetters))

def Token.isKeyword (keyword : String) : Token → Bool
  | .word _ spelling => spelling == keyword
  | _ => false

def Token.isOneOf (keywords : List String) : Token → Bool
  | .word _ spelling => keywords.contains spelling
  | _ => false

end RepoPolicy.Sql
