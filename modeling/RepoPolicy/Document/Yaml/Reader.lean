import RepoPolicy.Document.Yaml.Outline

set_option autoImplicit false

/-! # Reading YAML

`Yaml.parse` reads a text with one document. Mappings are records, whose names are the texts of
scalars. -/

namespace RepoPolicy.Document.Yaml

def missing : Value := .plain ""

def nameOf? : Value → Option String
  | .plain text => some text
  | .string text => some text
  | _ => none

def fieldsOf? (entries : List (Value × Value)) : Option (List (String × Value)) :=
  entries.mapM fun (name, value) => do return (← nameOf? name, value)

/-- Whether the next mark shows that a value is missing in a block collection. -/
def missesInBlock : List Mark → Bool
  | .key :: _ => true
  | .value :: _ => true
  | .blockEnd :: _ => true
  | _ => false

/-- Whether the next mark shows that a value is missing in a flow mapping. -/
def missesInFlow : List Mark → Bool
  | .comma :: _ => true
  | .flowMappingEnd :: _ => true
  | _ => false

/-- Whether the next mark shows that a value is missing in a pair of a flow sequence. -/
def missesInPair : List Mark → Bool
  | .comma :: _ => true
  | .flowSequenceEnd :: _ => true
  | _ => false

mutual

/-- Read a value. Block collections are only read where they are allowed, and so are sequences that
are not indented more than the key they belong to. -/
def readValue : Nat → Bool → Bool → List Mark → Option (Value × List Mark)
  | 0, _, _, _ => none
  | fuel + 1, block, unindented, marks =>
    match marks with
    | .scalar value :: rest => some (value, rest)
    | .flowSequenceStart :: rest => readFlowItems fuel true rest
    | .flowMappingStart :: rest => do
      let (entries, rest) ← readFlowFields fuel true rest
      return (.record (← fieldsOf? entries), rest)
    | .sequenceStart :: rest => if block then readItems fuel rest else none
    | .mappingStart :: rest =>
      if block then do
        let (entries, rest) ← readFields fuel rest
        return (.record (← fieldsOf? entries), rest)
      else none
    | .item :: rest => if unindented then readUnindented fuel (.item :: rest) else none
    | _ => none

def readItems : Nat → List Mark → Option (Value × List Mark)
  | 0, _ => none
  | fuel + 1, marks =>
    match marks with
    | .blockEnd :: rest => some (.list [], rest)
    | .item :: .item :: rest => do
      let (items, rest) ← readItems fuel (.item :: rest)
      prepend missing items rest
    | .item :: .blockEnd :: rest => some (.list [missing], rest)
    | .item :: rest => do
      let (first, rest) ← readValue fuel true false rest
      let (items, rest) ← readItems fuel rest
      prepend first items rest
    | _ => none

/-- Read the items of a sequence that ends where its hyphens end. -/
def readUnindented : Nat → List Mark → Option (Value × List Mark)
  | 0, _ => none
  | fuel + 1, marks =>
    match marks with
    | .item :: .item :: rest => do
      let (items, rest) ← readUnindented fuel (.item :: rest)
      prepend missing items rest
    | .item :: rest =>
      if missesInBlock rest then some (.list [missing], rest)
      else do
        let (first, rest) ← readValue fuel true false rest
        let (items, rest) ← readUnindented fuel rest
        prepend first items rest
    | rest => some (.list [], rest)

def readFields : Nat → List Mark → Option (List (Value × Value) × List Mark)
  | 0, _ => none
  | fuel + 1, marks =>
    match marks with
    | .blockEnd :: rest => some ([], rest)
    | .key :: rest => do
      let (name, rest) ←
        if missesInBlock rest then some (missing, rest) else readValue fuel true true rest
      let (value, rest) ←
        match rest with
        | .value :: rest =>
          if missesInBlock rest then some (missing, rest) else readValue fuel true true rest
        | rest => some (missing, rest)
      let (others, rest) ← readFields fuel rest
      return ((name, value) :: others, rest)
    | _ => none

/-- Read the items of a flow sequence up to its end. Commas stand between them, and one may stand
behind the last. -/
def readFlowItems : Nat → Bool → List Mark → Option (Value × List Mark)
  | 0, _, _ => none
  | fuel + 1, first, marks =>
    match marks with
    | .flowSequenceEnd :: rest => some (.list [], rest)
    | _ => do
      let marks ←
        if first then some marks
        else
          match marks with
          | .comma :: rest => some rest
          | _ => none
      match marks with
      | .flowSequenceEnd :: rest => some (.list [], rest)
      | .key :: rest =>
        let (name, rest) ←
          match rest with
          | .value :: _ => some (missing, rest)
          | _ =>
            if missesInPair rest then some (missing, rest) else readValue fuel false false rest
        let (value, rest) ←
          match rest with
          | .value :: rest =>
            if missesInPair rest then some (missing, rest) else readValue fuel false false rest
          | rest => some (missing, rest)
        let (items, rest) ← readFlowItems fuel false rest
        prepend (.record (← fieldsOf? [(name, value)])) items rest
      | marks =>
        let (item, rest) ← readValue fuel false false marks
        let (items, rest) ← readFlowItems fuel false rest
        prepend item items rest

def readFlowFields : Nat → Bool → List Mark → Option (List (Value × Value) × List Mark)
  | 0, _, _ => none
  | fuel + 1, first, marks =>
    match marks with
    | .flowMappingEnd :: rest => some ([], rest)
    | _ => do
      let marks ←
        if first then some marks
        else
          match marks with
          | .comma :: rest => some rest
          | _ => none
      match marks with
      | .flowMappingEnd :: rest => some ([], rest)
      | .key :: rest =>
        let (name, rest) ←
          match rest with
          | .value :: _ => some (missing, rest)
          | _ =>
            if missesInFlow rest then some (missing, rest) else readValue fuel false false rest
        let (value, rest) ←
          match rest with
          | .value :: rest =>
            if missesInFlow rest then some (missing, rest) else readValue fuel false false rest
          | rest => some (missing, rest)
        let (others, rest) ← readFlowFields fuel false rest
        return ((name, value) :: others, rest)
      | marks =>
        let (name, rest) ← readValue fuel false false marks
        let (others, rest) ← readFlowFields fuel false rest
        return ((name, missing) :: others, rest)

def prepend (item items : Value) (rest : List Mark) : Option (Value × List Mark) :=
  match items with
  | .list others => some (.list (item :: others), rest)
  | _ => none

end

def readContent (fuel : Nat) (marks : List Mark) : Option (Value × List Mark) :=
  match marks with
  | [] => some (missing, [])
  | .documentStart :: _ => some (missing, marks)
  | .documentEnd :: _ => some (missing, marks)
  | _ => readValue fuel true false marks

/-- The marks without those that end a document in front of them. -/
def dropDocumentEnds : List Mark → List Mark
  | .documentEnd :: rest => dropDocumentEnds rest
  | marks => marks

def parse (text : String) : Option Value := do
  let marks ← outlineOf text
  let fuel := 2 * marks.length + 2
  let (value, rest) ←
    match marks with
    | [] => none
    | .documentStart :: rest => readContent fuel rest
    | marks => readValue fuel true false marks
  match dropDocumentEnds rest with
  | [] => some value
  | _ => none

end RepoPolicy.Document.Yaml
