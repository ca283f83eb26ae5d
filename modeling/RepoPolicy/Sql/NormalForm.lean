import RepoPolicy.Text.Blank
import RepoPolicy.Text.Letter

set_option autoImplicit false

/-! # The normal form of a SQL text

Normalizing a SQL text takes away whatever could look like structure without being any: comments
are dropped, the contents of string literals are emptied, and every run of blanks becomes one
space. What stands between double quotes is kept as it is.

The text is read character by character. `Mode` says what the reader is inside of, including the
few characters (`-`, `/`, `$`, a quote in a literal) that cannot be placed before the next one is
seen; `step` reads one character; `scan` reads a whole text, and so `scan (a ++ b)` is the reading
of `b` that starts where the reading of `a` has stopped. -/

namespace RepoPolicy.Sql

open RepoPolicy.Text

/-- What stands just before a character outside quotes and comments. It decides whether a quote
opens a literal in which a backslash escapes. -/
inductive Preceding where
  /-- The start of the text, or a character that belongs to no word. -/
  | edge
  /-- A letter, a number, `_` or `$`. -/
  | word
  /-- A letter `E` that begins a word. -/
  | escapeLetter
  deriving DecidableEq, Repr

/-- Letters, numbers, `_` and `$`: the characters after which an `E` is no escape letter. -/
def isWordPart (c : Char) : Bool := isAlphanumeric c || c == '_' || c == '$'

/-- What stands before the next character once `c` has been read. -/
def Preceding.next (preceding : Preceding) (c : Char) : Preceding :=
  if (c == 'E' || c == 'e') && preceding == .edge then .escapeLetter
  else if isWordPart c then .word
  else .edge

/-- What the reader is inside of. -/
inductive Mode where
  | code (preceding : Preceding)
  /-- After a `-` that may open a comment. -/
  | dash
  /-- After a `/` that may open a comment. -/
  | slash
  /-- After a `$` that may open a dollar quote, and the tag so far, its last character first. -/
  | dollar (tag : List Char)
  | lineComment
  /-- In a block comment, and whether its last character was a `*`. -/
  | blockComment (star : Bool)
  /-- In a string literal, and whether a backslash escapes in it. -/
  | literal (escapes : Bool)
  /-- After a backslash in a literal in which it escapes. -/
  | escaped
  /-- After a quote in a literal, which ends it unless a second one follows. -/
  | literalQuote (escapes : Bool)
  /-- Between double quotes. -/
  | quotedName
  /-- In a dollar quote with this closing tag, and its contents so far, the last character
  first. -/
  | dollarQuoted (closing : List Char) (contents : List Char)
  deriving DecidableEq, Repr

/-- The state of the reader: what it is inside of, and what it has written, the last character
first. -/
structure Reading where
  mode : Mode
  written : List Char
  deriving DecidableEq, Repr

/-- The state before the first character. -/
def Reading.start : Reading := ⟨.code .edge, []⟩

/-- One more space, unless the text is empty or ends in a space. -/
def pushSpace : List Char → List Char
  | [] => []
  | c :: written => if c == ' ' then c :: written else ' ' :: c :: written

/-- Whether a character may stand in the tag of a dollar quote after the characters `tag`. -/
def continuesTag (tag : List Char) (c : Char) : Bool :=
  c.isAlpha || c == '_' || (!tag.isEmpty && c.isDigit)

/-- Read a character outside quotes and comments. -/
def stepCode (preceding : Preceding) (written : List Char) (c : Char) : Reading :=
  if c == '-' then ⟨.dash, written⟩
  else if c == '/' then ⟨.slash, written⟩
  else if c == '\'' then ⟨.literal (preceding == .escapeLetter), '\'' :: written⟩
  else if c == '"' then ⟨.quotedName, '"' :: written⟩
  else if c == '$' then ⟨.dollar [], written⟩
  else if isBlank c then ⟨.code .edge, pushSpace written⟩
  else ⟨.code (preceding.next c), c :: written⟩

def step (reading : Reading) (c : Char) : Reading :=
  let written := reading.written
  match reading.mode with
  | .code preceding => stepCode preceding written c
  | .dash => if c == '-' then ⟨.lineComment, written⟩ else stepCode .edge ('-' :: written) c
  | .slash =>
    if c == '*' then ⟨.blockComment false, written⟩ else stepCode .edge ('/' :: written) c
  | .dollar tag =>
    if c == '$' then ⟨.dollarQuoted ('$' :: tag.reverse ++ ['$']) [], '\'' :: '\'' :: written⟩
    else if continuesTag tag c then ⟨.dollar (c :: tag), written⟩
    else stepCode .word (tag ++ '$' :: written) c
  | .lineComment =>
    if c == '\n' then ⟨.code .edge, pushSpace written⟩ else ⟨.lineComment, written⟩
  | .blockComment star =>
    if star && c == '/' then ⟨.code .edge, pushSpace written⟩
    else ⟨.blockComment (c == '*'), written⟩
  | .literal escapes =>
    if escapes && c == '\\' then ⟨.escaped, written⟩
    else if c == '\'' then ⟨.literalQuote escapes, written⟩
    else ⟨.literal escapes, written⟩
  | .escaped => ⟨.literal true, written⟩
  | .literalQuote escapes =>
    if c == '\'' then ⟨.literal escapes, written⟩ else stepCode .edge ('\'' :: written) c
  | .quotedName => ⟨if c == '"' then .code .edge else .quotedName, c :: written⟩
  | .dollarQuoted closing contents =>
    let contents := c :: contents
    if closing.reverse.isPrefixOf contents then ⟨.code .word, written⟩
    else ⟨.dollarQuoted closing contents, written⟩

def readFrom (reading : Reading) (text : List Char) : Reading := text.foldl step reading

def scan (text : List Char) : Reading := readFrom .start text

/-- What has been written when the text ends, with the characters that were still waiting. -/
def Reading.finish (reading : Reading) : List Char :=
  match reading.mode with
  | .dash => '-' :: reading.written
  | .slash => '/' :: reading.written
  | .dollar tag => tag ++ '$' :: reading.written
  | .literalQuote _ => '\'' :: reading.written
  | _ => reading.written

def normalForm (text : List Char) : List Char := trim (scan text).finish.reverse

/-- The normal form of a SQL text: comments dropped, string literals emptied, blanks collapsed. -/
def normalize (sql : String) : String := String.ofList (normalForm sql.toList)

theorem toList_normalize (sql : String) : (normalize sql).toList = normalForm sql.toList := by
  rw [normalize, String.toList_ofList]

/-! ## Quotes left open -/

/-- A kind of quote or comment that a text may leave open at its end. -/
inductive OpenQuote where
  | stringLiteral
  | quotedName
  | blockComment
  | dollarQuoted
  deriving DecidableEq, Repr

def OpenQuote.label : OpenQuote → String
  | .stringLiteral => "string literal"
  | .quotedName => "quoted identifier"
  | .blockComment => "block comment"
  | .dollarQuoted => "dollar-quoted string"

/-- The quote or comment that the reader is inside of. A line comment ends with the text, and a
quote that may still be doubled closes its literal. -/
def Mode.openQuote : Mode → Option OpenQuote
  | .literal _ => some .stringLiteral
  | .escaped => some .stringLiteral
  | .quotedName => some .quotedName
  | .blockComment _ => some .blockComment
  | .dollarQuoted _ _ => some .dollarQuoted
  | _ => none

/-- The quote or comment that a SQL text leaves open at its end. What follows an open quote has no
structure, so such a text counts as one that cannot be read. -/
def openQuote (sql : String) : Option OpenQuote := (scan sql.toList).mode.openQuote

end RepoPolicy.Sql
