import RepoPolicy.Sql.Token
import RepoPolicy.Text.Blank
import RepoPolicy.Text.Letter

set_option autoImplicit false

/-! # Reading tokens

`tokenize` splits a SQL text into tokens and drops blanks and comments. Block comments nest. A
name may be in double quotes or backquotes, and a quote inside it is written twice. -/

namespace RepoPolicy.Sql

open RepoPolicy.Text

/-- What the reading of one token gives, and what is left of the text. -/
abbrev Lexed (α : Type) := Except SyntaxError (α × List Char)

/-! ## Comments -/

/-- What follows a block comment, when `depth` comments are open and `previous` is the character
before the text. -/
def skipComment : Nat → Char → List Char → Except SyntaxError (List Char)
  | _, _, [] => .error .badToken
  | depth, previous, c :: rest =>
    if previous == '/' && c == '*' then skipComment (depth + 1) c rest
    else if previous == '*' && c == '/' then
      if depth ≤ 1 then .ok rest else skipComment (depth - 1) c rest
    else skipComment depth c rest

/-! ## Quoted text -/

/-- The text up to a closing quote that is not written twice. -/
def readQuoted (quote : Char) : List Char → Lexed (List Char)
  | [] => .error .badToken
  | c :: rest =>
    if c == quote then
      match rest with
      | d :: rest' =>
        if d == quote then (readQuoted quote rest').map fun (cs, rest) => (c :: cs, rest)
        else .ok ([], d :: rest')
      | [] => .ok ([], [])
    else (readQuoted quote rest).map fun (cs, rest) => (c :: cs, rest)

def hexDigit? (c : Char) : Option Nat :=
  if c.isDigit then some (c.toNat - 48)
  else if 'a' ≤ c && c ≤ 'f' then some (c.toNat - 87)
  else if 'A' ≤ c && c ≤ 'F' then some (c.toNat - 55)
  else none

def octalDigit? (c : Char) : Option Nat :=
  if '0' ≤ c && c ≤ '7' then some (c.toNat - 48) else none

def upToDigits (digit? : Char → Option Nat) (base : Nat) : Nat → Nat → List Char → Nat × List Char
  | 0, value, text => (value, text)
  | _ + 1, value, [] => (value, [])
  | count + 1, value, c :: rest =>
    match digit? c with
    | some d => upToDigits digit? base count (value * base + d) rest
    | none => (value, c :: rest)

/-- Whether a code point may stand in a literal. -/
def isScalarCode (code : Nat) : Bool :=
  0 < code && (code < 0xD800 || (0xDFFF < code && code < 0x110000))

/-- What follows `\u` or `\U`: exactly `count` hexadecimal digits of a character. -/
def skipUnicodeEscape (count : Nat) (text : List Char) : Except SyntaxError (List Char) :=
  let digits := text.take count
  if digits.length == count && digits.all (hexDigit? · |>.isSome) &&
      isScalarCode (upToDigits hexDigit? 16 count 0 text).1 then .ok (text.drop count)
  else .error .badToken

/-- A byte given by its digits must be a character of the basic set, and not the null one. -/
def checkByte (value : Nat) (rest : List Char) : Except SyntaxError (List Char) :=
  let byte := value % 256
  if 0 < byte && byte ≤ 127 then .ok rest else .error .badToken

/-- What follows the character after a backslash in a string of the form `E'...'`. -/
def skipEscape (c : Char) (rest : List Char) : Except SyntaxError (List Char) :=
  if c == 'u' then skipUnicodeEscape 4 rest
  else if c == 'U' then skipUnicodeEscape 8 rest
  else if c == 'x' then
    match rest with
    | d :: _ =>
      if (hexDigit? d).isSome then
        let (value, rest) := upToDigits hexDigit? 16 2 0 rest
        checkByte value rest
      else .ok rest
    | [] => .ok []
  else if (octalDigit? c).isSome then
    let (value, rest) := upToDigits octalDigit? 8 3 0 (c :: rest)
    checkByte value rest
  else if c == Char.ofNat 0 then .error .badToken
  else .ok rest

/-- What follows a string of the form `E'...'` whose opening quote has been read. Every step takes a
character off the text, so `fuel` is enough when it exceeds the length of the text. -/
def skipEscaped : Nat → List Char → Except SyntaxError (List Char)
  | 0, _ => .error .badToken
  | _ + 1, [] => .error .badToken
  | fuel + 1, '\'' :: '\'' :: rest => skipEscaped fuel rest
  | _ + 1, '\'' :: rest => .ok rest
  | fuel + 1, '\\' :: c :: rest => do skipEscaped fuel (← skipEscape c rest)
  | _ + 1, ['\\'] => .error .badToken
  | fuel + 1, _ :: rest => skipEscaped fuel rest

/-! ## Dollar quotes and parameters -/

/-- What follows the next `$$`. -/
def skipDollars : List Char → Except SyntaxError (List Char)
  | '$' :: '$' :: rest => .ok rest
  | _ :: rest => skipDollars rest
  | [] => .error .badToken

/-- What follows the closing `$tag$`, of which `expected` has still to be read; `none` when the
reader is not inside a closing tag. A character that breaks a tag off is passed over, unless it
stands where the last `$` should. -/
def skipTagged (tag : List Char) : Option (List Char) → List Char → Except SyntaxError (List Char)
  | _, [] => .error .badToken
  | none, c :: rest => skipTagged tag (if c == '$' then some tag else none) rest
  | some (t :: expected), c :: rest => skipTagged tag (if c == t then some expected else none) rest
  | some [], c :: rest => if c == '$' then .ok rest else skipTagged tag none rest

/-- What a `$` begins: a dollar quote or a parameter. -/
def readDollar (text : List Char) : Lexed Token :=
  match text with
  | '$' :: rest => (skipDollars rest).map fun rest => (.literal, rest)
  | _ =>
    let isTagChar (c : Char) : Bool := isAlphanumeric c || c == '_'
    let tag := text.takeWhile isTagChar
    match text.dropWhile isTagChar with
    | '$' :: rest => (skipTagged tag none rest).map fun rest => (.literal, rest)
    | rest => .ok (.parameter, rest)

/-! ## Numbers -/

def skipExponent (text : List Char) : List Char :=
  match text with
  | c :: rest =>
    if c == 'e' || c == 'E' then
      let digits :=
        match rest with
        | '+' :: rest => rest
        | '-' :: rest => rest
        | _ => rest
      match digits with
      | d :: _ => if d.isDigit then digits.dropWhile Char.isDigit else text
      | [] => text
    else text
  | [] => []

/-- A number, or the point that looks like the start of one. -/
def readNumber (text : List Char) : Token × List Char :=
  let whole := text.takeWhile Char.isDigit
  match whole, text.dropWhile Char.isDigit with
  | ['0'], 'x' :: rest => (.literal, rest.dropWhile fun c => (hexDigit? c).isSome)
  | [], '.' :: rest =>
    match rest with
    | d :: _ =>
      if d.isDigit then (.number, skipSuffix (skipExponent (rest.dropWhile Char.isDigit)))
      else (.symbol ".", rest)
    | [] => (.symbol ".", [])
  | _, '.' :: rest => (.number, skipSuffix (skipExponent (rest.dropWhile Char.isDigit)))
  | _, rest => (.number, skipSuffix (skipExponent rest))
where
  /-- Leave out the mark of a long number. -/
  skipSuffix : List Char → List Char
    | 'L' :: rest => rest
    | rest => rest

/-! ## Words and symbols -/

/-- A character that a word may begin with. -/
def startsIdentifier (c : Char) : Bool := isAlphabetic c || c == '_' || c == '#' || c == '@'

/-- A character that may follow in a word. -/
def continuesIdentifier (c : Char) : Bool :=
  isAlphabetic c || c.isDigit || c == '@' || c == '$' || c == '#' || c == '_'

/-- A word, or the literal that a letter before a quote begins. -/
def readWordOrLiteral (c : Char) (rest : List Char) : Lexed Token :=
  let word : Token × List Char :=
    (.ofWord (c :: rest.takeWhile continuesIdentifier), rest.dropWhile continuesIdentifier)
  match rest with
  | '\'' :: body =>
    if c == 'e' || c == 'E' then
      (skipEscaped (body.length + 1) body).map fun rest => (.literal, rest)
    else if ['n', 'N', 'x', 'X', 'b', 'B', 'r', 'R'].contains c then
      (readQuoted '\'' body).map fun (_, rest) => (.literal, rest)
    else .ok word
  | '"' :: body =>
    if ['b', 'B', 'r', 'R'].contains c then
      (readQuoted '"' body).map fun (_, rest) => (.literal, rest)
    else .ok word
  | '&' :: '\'' :: body =>
    if c == 'u' || c == 'U' then (readQuoted '\'' body).map fun (_, rest) => (.literal, rest)
    else .ok word
  | _ => .ok word

/-- The symbols of more than one character, the longer ones before those they begin with. -/
def longSymbols : List String :=
  ["->>", "->", "//", "<=>", "<=", "<>", "<<", "<@", ">=", ">>", "=>", "==", "!=", "!!", "!~~*",
    "!~~", "!~*", "!~", "||/", "||", "|/", "&&", "::", ":=", "^@", "~~*", "~~", "~*", "@>", "@?",
    "#>>", "#>", "#-", "##"]

/-- Whether a character that may begin a word begins an operator here. -/
def startsOperator (c : Char) (rest : List Char) : Bool :=
  match c, rest with
  | '@', d :: _ => d == '>' || d == '?'
  | '#', d :: _ => d == '>' || d == '-' || d == '#'
  | _, _ => false

def readSymbol (c : Char) (rest : List Char) : Token × List Char :=
  match longSymbols.find? fun s => s.toList.isPrefixOf (c :: rest) with
  | some s => (.symbol s, (c :: rest).drop s.length)
  | none => (.symbol (String.ofList [c]), rest)

/-! ## The whole text -/

def readToken (c : Char) (rest : List Char) : Lexed (Option Token) :=
  let found (result : Lexed Token) : Lexed (Option Token) := result.map fun (t, r) => (some t, r)
  if isBlank c then .ok (none, rest)
  else
    match c, rest with
    | '-', '-' :: rest => .ok (none, rest.dropWhile (· != '\n'))
    | '/', '*' :: rest => (skipComment 1 ' ' rest).map fun rest => (none, rest)
    | '\'', _ =>
      found ((readQuoted '\'' rest).map fun (cs, rest) => (.string (String.ofList cs), rest))
    | '$', _ => found (readDollar rest)
    | '?', _ => .ok (some .parameter, rest.dropWhile isNumeric)
    | _, _ =>
      if c == '"' || c.toNat == 96 then
        found ((readQuoted c rest).map fun (cs, rest) => (.word (String.ofList cs) "", rest))
      else if startsIdentifier c && !startsOperator c rest then found (readWordOrLiteral c rest)
      else if c.isDigit || c == '.' then
        let (token, rest) := readNumber (c :: rest)
        .ok (some token, rest)
      else
        let (token, rest) := readSymbol c rest
        .ok (some token, rest)

/-- The tokens of a text. Every token takes a character, so `fuel` is enough when it is the length
of the text. -/
def tokens : Nat → List Char → Except SyntaxError (List Token)
  | _, [] => .ok []
  | 0, _ => .ok []
  | fuel + 1, c :: rest => do
    let (token?, rest) ← readToken c rest
    let more ← tokens fuel rest
    return token?.toList ++ more

def tokenize (sql : String) : Except SyntaxError (List Token) :=
  tokens sql.toList.length sql.toList

end RepoPolicy.Sql
