import RepoPolicy.Document.Yaml.Scalar

set_option autoImplicit false

/-! # The outline of a YAML text

The outline is the text as a list of marks: scalars, the signs between them, and where block
collections begin and end, which only the indentation shows. A scalar or a flow collection turns
out to be a key when a colon follows it on the same line, so that the marks for the key and for the
mapping that it begins are put in front of it afterwards. -/

namespace RepoPolicy.Document.Yaml

inductive Mark where
  | documentStart
  | documentEnd
  | sequenceStart
  | mappingStart
  /-- The end of a block collection. -/
  | blockEnd
  | flowSequenceStart
  | flowSequenceEnd
  | flowMappingStart
  | flowMappingEnd
  /-- The hyphen before an item of a block sequence. -/
  | item
  | comma
  | key
  | value
  | scalar (value : Value)
  deriving Repr, Inhabited

/-- Something that may turn out to be a key. -/
structure KeyCandidate where
  /-- The number of marks before it. -/
  position : Nat
  /-- Whether nothing but a key can stand there. -/
  required : Bool
  index : Nat
  line : Nat
  column : Nat
  deriving DecidableEq, Repr

structure Outline where
  cursor : Cursor
  /-- The marks, the latest first. -/
  marks : List Mark := []
  /-- One more than the column of the innermost block collection; 0 outside of all. -/
  indent : Nat := 0
  /-- The same of the block collections around it. -/
  outer : List Nat := []
  /-- Whether a key may begin here. -/
  keyAllowed : Bool := true
  /-- The candidates of the flow collections around the point, the innermost first, and outside of
  them. -/
  candidates : List (Option KeyCandidate) := [none]
  deriving Repr

namespace Outline

def inFlow (outline : Outline) : Bool := outline.candidates.length > 1

def push (outline : Outline) (mark : Mark) : Outline :=
  { outline with marks := mark :: outline.marks }

/-- The outline with a mark put in after so many others. -/
def insert (outline : Outline) (position : Nat) (mark : Mark) : Outline :=
  let later := outline.marks.length - position
  { outline with marks := outline.marks.take later ++ mark :: outline.marks.drop later }

/-- The outline so many characters further on. -/
def advance (outline : Outline) (n : Nat) : Outline :=
  { outline with cursor := outline.cursor.advance n }

/-! ## Indentation -/

/-- End the block collections with an indentation above a bound, where `indent` is that of the
innermost and `outer` are those of the others. -/
def closeAbove (outline : Outline) (bound indent : Nat) (outer : List Nat) : Outline :=
  match outer with
  | next :: others =>
    if bound < indent then
      { outline.push .blockEnd with indent := next, outer := others }.closeAbove bound next others
    else outline
  | [] => outline

/-- End the block collections that are indented more than the point is. -/
def closeBlocks (outline : Outline) : Outline :=
  if outline.inFlow then outline
  else outline.closeAbove (outline.cursor.column + 1) outline.indent outline.outer

/-- End all block collections. -/
def closeAll (outline : Outline) : Outline := outline.closeAbove 0 outline.indent outline.outer

/-- Begin a block collection at a column, with its mark put in after so many others, unless the
innermost one has that column already. -/
def openBlock (outline : Outline) (column position : Nat) (mark : Mark) : Outline :=
  if !outline.inFlow && outline.indent < column + 1 then
    { outline.insert position mark with
      indent := column + 1
      outer := outline.indent :: outline.outer }
  else outline

/-! ## Keys -/

/-- Give up the candidate of the innermost flow collection. -/
def dropCandidate (outline : Outline) : Option Outline :=
  match outline.candidates with
  | some candidate :: others =>
    if candidate.required then none else some { outline with candidates := none :: others }
  | _ => some outline

/-- Take what begins here for a candidate, if a key may begin here. -/
def saveCandidate (outline : Outline) : Option Outline :=
  if outline.keyAllowed then do
    let outline ← outline.dropCandidate
    let candidate : KeyCandidate :=
      { position := outline.marks.length
        required := !outline.inFlow && outline.indent == outline.cursor.column + 1
        index := outline.cursor.index
        line := outline.cursor.line
        column := outline.cursor.column }
    return { outline with candidates := some candidate :: outline.candidates.drop 1 }
  else some outline

/-- The number of characters that a key can have. -/
def keyLimit : Nat := 1024

/-- Give up the candidates that are on another line or too far back. -/
def dropStale (outline : Outline) : Option Outline := do
  let candidates ← outline.candidates.mapM fun
    | some candidate =>
      if candidate.line = outline.cursor.line ∧
          outline.cursor.index ≤ candidate.index + keyLimit then
        some (some candidate)
      else if candidate.required then none
      else some none
    | none => some none
  return { outline with candidates }

/-! ## Marks -/

/-- Skip space, comments and ends of lines. Behind the end of a line outside flow collections a key
may begin. -/
def skipSpace : Nat → Outline → Outline
  | 0, outline => outline
  | fuel + 1, outline =>
    let tabs := outline.inFlow || !outline.keyAllowed
    let cursor := outline.cursor.skipWhile fun c => c == ' ' || (tabs && c == '\t')
    let cursor :=
      if cursor.startsWith (· == '#') then cursor.skipWhile fun c => !isBreak c else cursor
    if cursor.startsWith isBreak then
      skipSpace fuel
        { outline with
          cursor := cursor.readBreak.2
          keyAllowed := outline.keyAllowed || !outline.inFlow }
    else { outline with cursor }

def readDivider (outline : Outline) (mark : Mark) : Option Outline := do
  let outline ← outline.closeAll.dropCandidate
  return ({ outline with keyAllowed := false }.push mark).advance 3

def openFlow (outline : Outline) (mark : Mark) : Option Outline := do
  let outline ← outline.saveCandidate
  return ({ outline with keyAllowed := true, candidates := none :: outline.candidates }.push
    mark).advance 1

def closeFlow (outline : Outline) (mark : Mark) : Option Outline := do
  let outline ← outline.dropCandidate
  let candidates := if outline.inFlow then outline.candidates.drop 1 else outline.candidates
  return ({ outline with keyAllowed := false, candidates }.push mark).advance 1

/-- A comma between the items of a flow collection. -/
def readComma (outline : Outline) : Option Outline := do
  let outline ← outline.dropCandidate
  return ({ outline with keyAllowed := true }.push .comma).advance 1

def readItem (outline : Outline) : Option Outline := do
  if !outline.inFlow && !outline.keyAllowed then none
  else
    let outline := outline.openBlock outline.cursor.column outline.marks.length .sequenceStart
    let outline ← outline.dropCandidate
    return ({ outline with keyAllowed := true }.push .item).advance 1

def readKey (outline : Outline) : Option Outline := do
  if !outline.inFlow && !outline.keyAllowed then none
  else
    let outline := outline.openBlock outline.cursor.column outline.marks.length .mappingStart
    let outline ← outline.dropCandidate
    return ({ outline with keyAllowed := !outline.inFlow }.push .key).advance 1

/-- The colon before a value. It makes a key of the candidate, if there is one. -/
def readValue (outline : Outline) : Option Outline := do
  match outline.candidates with
  | some candidate :: others =>
    let outline := outline.insert candidate.position .key
    let outline := outline.openBlock candidate.column candidate.position .mappingStart
    let outline := { outline with keyAllowed := false, candidates := none :: others }
    return (outline.push .value).advance 1
  | _ =>
    if !outline.inFlow && !outline.keyAllowed then none
    else
      let outline := outline.openBlock outline.cursor.column outline.marks.length .mappingStart
      return ({ outline with keyAllowed := !outline.inFlow }.push .value).advance 1

def readBlockScalar (outline : Outline) (folded : Bool) : Option Outline := do
  let outline ← outline.dropCandidate
  let (text, cursor) ← readBlock folded outline.indent outline.cursor.next
  return { outline with cursor, keyAllowed := true }.push (.scalar (.string (String.ofList text)))

def readQuotedScalar (outline : Outline) (quote : Char) : Option Outline := do
  let outline ← outline.saveCandidate
  let cursor := outline.cursor.next
  let (text, cursor) ← readQuoted quote (cursor.rest.length + 1) [] cursor
  return { outline with cursor, keyAllowed := false }.push (.scalar (.string (String.ofList text)))

def readPlainScalar (outline : Outline) : Option Outline := do
  let outline ← outline.saveCandidate
  let (text, lineEnded, cursor) ←
    readPlain outline.inFlow outline.indent (outline.cursor.rest.length + 1) [] {} outline.cursor
  return { outline with cursor, keyAllowed := lineEnded }.push
    (.scalar (.plain (String.ofList text)))

/-- Characters that cannot begin a plain scalar. -/
def indicators : List Char :=
  ['-', '?', ':', ',', '[', ']', '\x7b', '\x7d', '#', '&', '*', '!', '|', '>', '\'', '"', '%', '@',
    Char.ofNat 96]

def startsPlain (outline : Outline) (c : Char) (rest : List Char) : Bool :=
  !(isSpace c || indicators.contains c) || (c == '-' && !rest.head?.any isGap) ||
    (!outline.inFlow && (c == '?' || c == ':') && !startsWithSpace rest)

/-- Read the next mark, which begins with these characters. -/
def readMark (outline : Outline) (c : Char) (rest : List Char) : Option Outline :=
  if outline.cursor.atDivider '-' then outline.readDivider .documentStart
  else if outline.cursor.atDivider '.' then outline.readDivider .documentEnd
  else if c == '[' then outline.openFlow .flowSequenceStart
  else if c == '\x7b' then outline.openFlow .flowMappingStart
  else if c == ']' then outline.closeFlow .flowSequenceEnd
  else if c == '\x7d' then outline.closeFlow .flowMappingEnd
  else if c == ',' then outline.readComma
  else if c == '-' && startsWithSpace rest then outline.readItem
  else if c == '?' && (outline.inFlow || startsWithSpace rest) then outline.readKey
  else if c == ':' && (outline.inFlow || startsWithSpace rest) then outline.readValue
  else if (c == '|' || c == '>') && !outline.inFlow then outline.readBlockScalar (c == '>')
  else if c == '\'' || c == '"' then outline.readQuotedScalar c
  else if outline.startsPlain c rest then outline.readPlainScalar
  else none

def readMarks : Nat → Outline → Option (List Mark)
  | 0, _ => none
  | fuel + 1, outline => do
    let outline := outline.skipSpace (outline.cursor.rest.length + 1)
    let outline ← outline.dropStale
    let outline := outline.closeBlocks
    match outline.cursor.rest with
    | [] =>
      let outline ← outline.closeAll.dropCandidate
      return outline.marks.reverse
    | c :: rest => readMarks fuel (← outline.readMark c rest)

end Outline

def outlineOf (text : String) : Option (List Mark) :=
  let cs := match text.toList with
    | c :: rest => if c.toNat == 0xFEFF then rest else c :: rest
    | [] => []
  if cs.all isTextChar then Outline.readMarks (cs.length + 1) { cursor := { rest := cs } } else none

end RepoPolicy.Document.Yaml
