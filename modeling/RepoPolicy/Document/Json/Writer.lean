import RepoPolicy.Document.Value

set_option autoImplicit false

/-! # Writing JSON

Both writers put the text of a value in front of a rest: `writeOnto v rest` is the compact form and
`prettyOnto indent v rest` the one with a line for each item, two spaces for each level. -/

namespace RepoPolicy.Document.Json

/-- The hexadecimal digit, in lower case, of a number below 16. -/
def hexDigit (n : Nat) : Char :=
  if n < 10 then Char.ofNat (48 + n) else Char.ofNat (87 + n)

/-- A character as it stands between quotes. Quotes, backslashes and control characters are
escaped. -/
def escapeChar (c : Char) : List Char :=
  if c == '"' then ['\\', '"']
  else if c == '\\' then ['\\', '\\']
  else if c == Char.ofNat 8 then ['\\', 'b']
  else if c == Char.ofNat 12 then ['\\', 'f']
  else if c == '\n' then ['\\', 'n']
  else if c == '\r' then ['\\', 'r']
  else if c == '\t' then ['\\', 't']
  else if c.toNat < 32 then
    ['\\', 'u', '0', '0', hexDigit (c.toNat / 16), hexDigit (c.toNat % 16)]
  else [c]

/-- The characters of a text between quotes, the closing quote and the rest. -/
def quoteTail : List Char → List Char → List Char
  | [], rest => '"' :: rest
  | c :: cs, rest => escapeChar c ++ quoteTail cs rest

def quoteOnto (text : String) (rest : List Char) : List Char := '"' :: quoteTail text.toList rest

/-- A scalar that is written the same way in both forms. -/
def scalarOnto : Value → List Char → List Char
  | .null, rest => "null".toList ++ rest
  | .bool true, rest => "true".toList ++ rest
  | .bool false, rest => "false".toList ++ rest
  | .nat n, rest => Nat.toDigits 10 n ++ rest
  | .number text, rest => text.toList ++ rest
  | .string text, rest => quoteOnto text rest
  | .plain text, rest => quoteOnto text rest
  | .list _, rest => rest
  | .record _, rest => rest

/-! ## The compact form -/

mutual

def writeOnto : Value → List Char → List Char
  | .list [], rest => '[' :: ']' :: rest
  | .list (item :: items), rest => '[' :: writeOnto item (writeItems items rest)
  | .record [], rest => '\x7b' :: '\x7d' :: rest
  | .record ((name, value) :: fields), rest =>
    '\x7b' :: quoteOnto name (':' :: writeOnto value (writeFields fields rest))
  | .null, rest => scalarOnto .null rest
  | .bool b, rest => scalarOnto (.bool b) rest
  | .nat n, rest => scalarOnto (.nat n) rest
  | .number text, rest => scalarOnto (.number text) rest
  | .string text, rest => scalarOnto (.string text) rest
  | .plain text, rest => scalarOnto (.plain text) rest

/-- The items after the first one, and the closing bracket. -/
def writeItems : List Value → List Char → List Char
  | [], rest => ']' :: rest
  | item :: items, rest => ',' :: writeOnto item (writeItems items rest)

/-- The fields after the first one, and the closing brace. -/
def writeFields : List (String × Value) → List Char → List Char
  | [], rest => '\x7d' :: rest
  | (name, value) :: fields, rest =>
    ',' :: quoteOnto name (':' :: writeOnto value (writeFields fields rest))

end

def write (value : Value) : String := String.ofList (writeOnto value [])

/-! ## The indented form -/

def newLine (level : Nat) (rest : List Char) : List Char :=
  '\n' :: (List.replicate (2 * level) ' ' ++ rest)

mutual

def prettyOnto (level : Nat) : Value → List Char → List Char
  | .list [], rest => '[' :: ']' :: rest
  | .list (item :: items), rest =>
    '[' :: newLine (level + 1) (prettyOnto (level + 1) item (prettyItems level items rest))
  | .record [], rest => '\x7b' :: '\x7d' :: rest
  | .record ((name, value) :: fields), rest =>
    '\x7b' :: newLine (level + 1) (quoteOnto name
      (':' :: ' ' :: prettyOnto (level + 1) value (prettyFields level fields rest)))
  | .null, rest => scalarOnto .null rest
  | .bool b, rest => scalarOnto (.bool b) rest
  | .nat n, rest => scalarOnto (.nat n) rest
  | .number text, rest => scalarOnto (.number text) rest
  | .string text, rest => scalarOnto (.string text) rest
  | .plain text, rest => scalarOnto (.plain text) rest

/-- The items after the first one of a list at a level, and the closing bracket. -/
def prettyItems (level : Nat) : List Value → List Char → List Char
  | [], rest => newLine level (']' :: rest)
  | item :: items, rest =>
    ',' :: newLine (level + 1) (prettyOnto (level + 1) item (prettyItems level items rest))

/-- The fields after the first one of a record at a level, and the closing brace. -/
def prettyFields (level : Nat) : List (String × Value) → List Char → List Char
  | [], rest => newLine level ('\x7d' :: rest)
  | (name, value) :: fields, rest =>
    ',' :: newLine (level + 1) (quoteOnto name
      (':' :: ' ' :: prettyOnto (level + 1) value (prettyFields level fields rest)))

end

def pretty (value : Value) : String := String.ofList (prettyOnto 0 value [])

end RepoPolicy.Document.Json
