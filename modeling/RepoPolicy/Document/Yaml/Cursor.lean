set_option autoImplicit false

/-! # A point in a YAML text

Lines and columns carry meaning in YAML, so the reader keeps count of them. -/

namespace RepoPolicy.Document.Yaml

def isBreak (c : Char) : Bool :=
  c == '\n' || c == '\r' || c.toNat == 0x85 || c.toNat == 0x2028 || c.toNat == 0x2029

/-- A blank or a tab. -/
def isGap (c : Char) : Bool := c == ' ' || c == '\t'

/-- A blank, a tab or the end of a line. -/
def isSpace (c : Char) : Bool := isGap c || isBreak c

/-- Whether a text begins with a space, or is at its end. -/
def startsWithSpace : List Char → Bool
  | [] => true
  | c :: _ => isSpace c

/-- A character that a YAML text may hold: no control characters but tabs and ends of lines. -/
def isTextChar (c : Char) : Bool :=
  let code := c.toNat
  code == 9 || code == 10 || code == 13 || (32 ≤ code && code ≤ 126) || code == 0x85 ||
    (0xA0 ≤ code && code ≤ 0xFFFD) || 0x10000 ≤ code

/-- A point in a text: what lies after it, and where it is. -/
structure Cursor where
  rest : List Char
  index : Nat := 0
  line : Nat := 0
  column : Nat := 0
  deriving DecidableEq, Repr

namespace Cursor

/-- The point after the next character. A carriage return and a line feed end one line. -/
def next (cursor : Cursor) : Cursor :=
  match cursor.rest with
  | [] => cursor
  | c :: rest =>
    if isBreak c && !(c == '\r' && rest.head? == some '\n') then
      ⟨rest, cursor.index + 1, cursor.line + 1, 0⟩
    else ⟨rest, cursor.index + 1, cursor.line, cursor.column + 1⟩

/-- The point so many characters further on. -/
def advance : Nat → Cursor → Cursor
  | 0, cursor => cursor
  | n + 1, cursor => advance n cursor.next

/-- The point after all next characters of a class. -/
def skipWhile (accept : Char → Bool) (cursor : Cursor) : Cursor :=
  cursor.advance (cursor.rest.takeWhile accept).length

/-- The end of a line as it is read, and the point after it. -/
def readBreak (cursor : Cursor) : List Char × Cursor :=
  match cursor.rest with
  | '\r' :: '\n' :: _ => (['\n'], cursor.advance 2)
  | c :: _ => (if c.toNat == 0x2028 || c.toNat == 0x2029 then [c] else ['\n'], cursor.next)
  | [] => ([], cursor)

/-- Whether a line of three equal characters begins here, which divides documents. -/
def atDivider (cursor : Cursor) (mark : Char) : Bool :=
  cursor.column == 0 && cursor.rest.take 3 == [mark, mark, mark] &&
    startsWithSpace (cursor.rest.drop 3)

def atDocumentMark (cursor : Cursor) : Bool := cursor.atDivider '-' || cursor.atDivider '.'

/-- Whether the text begins with a character of a class. -/
def startsWith (cursor : Cursor) (accept : Char → Bool) : Bool := cursor.rest.head?.any accept

end Cursor

end RepoPolicy.Document.Yaml
