import RepoPolicy.Document.Decode
import RepoPolicy.Document.Yaml.Cursor

set_option autoImplicit false

/-! # YAML scalars

Scalars are written plain, in single or double quotes, or as blocks of lines. Where a plain or
quoted scalar goes over several lines, the end of a line stands for a blank, and each empty line
for the end of a line. -/

namespace RepoPolicy.Document.Yaml

/-! ## Space within scalars -/

/-- The space between two parts of a scalar. -/
structure Gap where
  /-- The blanks before the first end of a line. -/
  blanks : List Char := []
  /-- The first end of a line, if there is one. -/
  first : Option (List Char) := none
  /-- The ends of lines after it. -/
  others : List Char := []
  deriving DecidableEq, Repr

def Gap.text (gap : Gap) : List Char :=
  match gap.first with
  | none => gap.blanks
  | some first =>
    if first = ['\n'] then if gap.others.isEmpty then [' '] else gap.others
    else first ++ gap.others

/-- Read space. A tab must not stand among the blanks that indent a line, where `indent` says how
many they are. -/
def readGap (indent : Nat) : Nat → Gap → Cursor → Option (Gap × Cursor)
  | 0, gap, cursor => some (gap, cursor)
  | fuel + 1, gap, cursor =>
    match cursor.rest with
    | [] => some (gap, cursor)
    | c :: _ =>
      if isGap c then
        match gap.first with
        | none => readGap indent fuel { gap with blanks := gap.blanks ++ [c] } cursor.next
        | some _ =>
          if c == '\t' && cursor.column < indent then none
          else readGap indent fuel gap cursor.next
      else if isBreak c then
        let (text, after) := cursor.readBreak
        match gap.first with
        | none => readGap indent fuel { gap with first := some text } after
        | some _ => readGap indent fuel { gap with others := gap.others ++ text } after
      else some (gap, cursor)

/-! ## Plain scalars -/

/-- The characters of a plain scalar up to the next space. In a flow collection, brackets, braces
and commas end it. -/
def plainRun (flow : Bool) : List Char → Option (List Char)
  | [] => some []
  | c :: rest =>
    let ends (d : Char) : Bool := d == ',' || d == '[' || d == ']' || d == '\x7b' || d == '\x7d'
    if isSpace c then some []
    else if flow && c == ':' && rest.head?.any fun d => ends d || d == '?' then none
    else if c == ':' && startsWithSpace rest then some []
    else if flow && ends c then some []
    else (plainRun flow rest).map (c :: ·)

/-- Read a plain scalar after the text so far and a gap. Outside flow collections it ends with a
line that is indented less than `indent`. The result says whether a line has ended behind it. -/
def readPlain (flow : Bool) (indent : Nat) : Nat → List Char → Gap → Cursor →
    Option (List Char × Bool × Cursor)
  | 0, _, _, _ => none
  | fuel + 1, text, gap, cursor =>
    if cursor.atDocumentMark || cursor.startsWith (· == '#') then
      some (text, gap.first.isSome, cursor)
    else do
      let run ← plainRun flow cursor.rest
      if run.isEmpty then some (text, gap.first.isSome, cursor)
      else
        let text := text ++ gap.text ++ run
        let cursor := cursor.advance run.length
        if cursor.startsWith isSpace then
          let (gap, after) ← readGap indent (cursor.rest.length + 1) {} cursor
          if !flow && after.column < indent then some (text, gap.first.isSome, after)
          else readPlain flow indent fuel text gap after
        else some (text, false, cursor)

/-! ## Quoted scalars -/

def escapeLetters : List (Char × Nat) :=
  [('0', 0), ('a', 7), ('b', 8), ('t', 9), ('\t', 9), ('n', 10), ('v', 11), ('f', 12), ('r', 13),
    ('e', 27), (' ', 32), ('"', 34), ('/', 47), ('\\', 92), ('N', 0x85), ('_', 0xA0), ('L', 0x2028),
    ('P', 0x2029)]

/-- How many hexadecimal digits follow a letter behind a backslash. -/
def codeLengths : List (Char × Nat) := [('x', 2), ('u', 4), ('U', 8)]

/-- The character that is written behind a backslash, and how many characters write it. -/
def readEscape : List Char → Option (Char × Nat)
  | [] => none
  | c :: rest =>
    match escapeLetters.lookup c, codeLengths.lookup c with
    | some code, _ => some (Char.ofNat code, 1)
    | none, some length => do
      let digits := rest.take length
      let code ← Decoder.ofDigits 16 digits
      if digits.length = length ∧ code.isValidChar then some (Char.ofNat code, length + 1) else none
    | none, none => none

/-- Read a scalar in quotes after the text so far, up to the closing quote. -/
def readQuoted (quote : Char) : Nat → List Char → Cursor → Option (List Char × Cursor)
  | 0, _, _ => none
  | fuel + 1, text, cursor =>
    if cursor.atDocumentMark then none
    else
      match cursor.rest with
      | [] => none
      | c :: rest =>
        if c == quote then
          if quote == '\'' && rest.head? == some '\'' then
            readQuoted quote fuel (text ++ ['\'']) (cursor.advance 2)
          else some (text, cursor.next)
        else if quote == '"' && c == '\\' then
          if rest.head?.any isBreak then do
            let (_, after) := cursor.next.readBreak
            let (gap, after) ← readGap 0 (after.rest.length + 1) { first := some [] } after
            readQuoted quote fuel (text ++ gap.text) after
          else do
            let (d, length) ← readEscape rest
            readQuoted quote fuel (text ++ [d]) (cursor.advance (length + 1))
        else if isSpace c then do
          let (gap, after) ← readGap 0 (cursor.rest.length + 1) {} cursor
          readQuoted quote fuel (text ++ gap.text) after
        else readQuoted quote fuel (text ++ [c]) cursor.next

/-! ## Blocks of lines -/

/-- What becomes of the ends of lines behind a block. -/
inductive Chomping where
  /-- None is kept. -/
  | strip
  /-- One is kept. -/
  | clip
  /-- All are kept. -/
  | keep
  deriving DecidableEq, Repr

/-- The marks behind the character that opens a block: how it ends, and by how much more it is
indented. Each may be there once. -/
def readHeader : Nat → Option Chomping → Option Nat → Cursor →
    Option (Chomping × Option Nat × Cursor)
  | 0, _, _, _ => none
  | fuel + 1, chomping, increment, cursor =>
    match cursor.rest with
    | '+' :: _ =>
      if chomping.isSome then none else readHeader fuel (some .keep) increment cursor.next
    | '-' :: _ =>
      if chomping.isSome then none else readHeader fuel (some .strip) increment cursor.next
    | c :: _ =>
      if c.isDigit then
        if c == '0' || increment.isSome then none
        else readHeader fuel chomping (some (c.toNat - 48)) cursor.next
      else some (chomping.getD .clip, increment, cursor)
    | [] => some (chomping.getD .clip, increment, cursor)

/-- The rest of the line that opens a block: space and a comment. -/
def readHeaderEnd (cursor : Cursor) : Option Cursor :=
  let cursor := cursor.skipWhile isGap
  let cursor :=
    if cursor.startsWith (· == '#') then cursor.skipWhile fun c => !isBreak c else cursor
  if cursor.rest.isEmpty then some cursor
  else if cursor.startsWith isBreak then some cursor.readBreak.2
  else none

/-- Read the empty lines before the next line of a block and the blanks that indent it. Without a
known indentation all blanks count, and the largest column is reported. -/
def readIndents (indent : Option Nat) : Nat → Nat → List Char → Cursor →
    Option (Nat × List Char × Cursor)
  | 0, _, _, _ => none
  | fuel + 1, widest, breaks, cursor =>
    let blanks := (cursor.rest.takeWhile (· == ' ')).length
    let wanted := match indent with
      | some indent => min blanks (indent - cursor.column)
      | none => blanks
    let cursor := cursor.advance wanted
    let widest := max widest cursor.column
    let indenting := match indent with
      | some indent => decide (cursor.column < indent)
      | none => true
    if indenting && cursor.startsWith (· == '\t') then none
    else if cursor.startsWith isBreak then
      let (text, after) := cursor.readBreak
      readIndents indent fuel widest (breaks ++ text) after
    else some (widest, breaks, cursor)

/-- Read the lines of a block after the text so far, the end of the last line and the empty lines
after it. In a folded block the end of a line between two lines that begin without space stands for
a blank. -/
def readLines (folded : Bool) (indent : Nat) :
    Nat → List Char → List Char → List Char → Bool → Cursor →
    Option (List Char × List Char × List Char × Cursor)
  | 0, _, _, _, _, _ => none
  | fuel + 1, text, last, breaks, spaced, cursor =>
    if cursor.column == indent && !cursor.rest.isEmpty then do
      let nowSpaced := cursor.startsWith isGap
      let joint :=
        if folded && last == ['\n'] && !spaced && !nowSpaced then
          if breaks.isEmpty then [' '] else []
        else last
      let line := cursor.rest.takeWhile fun c => !isBreak c
      let (ending, after) := (cursor.advance line.length).readBreak
      let (_, newBreaks, after) ← readIndents (some indent) (after.rest.length + 1) 0 [] after
      let text := text ++ joint ++ breaks ++ line
      readLines folded indent fuel text ending newBreaks nowSpaced after
    else some (text, last, breaks, cursor)

/-- Read a block behind the character that opens it. `parent` is one more than the indentation of
what it belongs to. -/
def readBlock (folded : Bool) (parent : Nat) (cursor : Cursor) : Option (List Char × Cursor) := do
  let (chomping, increment, cursor) ← readHeader 4 none none cursor
  let cursor ← readHeaderEnd cursor
  let fuel := cursor.rest.length + 1
  let known := increment.map fun n => (parent - 1) + n
  let (widest, breaks, cursor) ← readIndents known fuel 0 [] cursor
  let indent := known.getD (max widest (max parent 1))
  let (text, last, breaks, cursor) ← readLines folded indent fuel [] [] breaks false cursor
  let tail := match chomping with
    | .strip => []
    | .clip => last
    | .keep => last ++ breaks
  return (text ++ tail, cursor)

end RepoPolicy.Document.Yaml
