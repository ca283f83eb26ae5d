import RepoPolicy.Document.Decode
import RepoPolicy.Inputs

set_option autoImplicit false

/-! # Inputs as documents

How the inputs of a run are written in JSON. -/

namespace RepoPolicy

open RepoPolicy.Document

def encodeTexts (texts : List String) : Value := .list (texts.map .string)

/-- A text that may be absent as a document. -/
def encodeText? : Option String → Value
  | some text => .string text
  | none => .null

def decodeTexts : Decoder (List String) := Decoder.list Decoder.string

/-! ## Imports -/

def ImportEdge.decode : Decoder ImportEdge := fun value => do
  let f ← Decoder.fields value
  return {
    repo := ← f.required "repo" Decoder.string
    filePath := ← f.required "file_path" Decoder.string
    module := ← f.required "module" Decoder.string
    sourceModule := ← f.optional "source_module" Decoder.string
    line := ← f.optional "line" Decoder.nat }

/-- An import as a document, without what is absent. -/
def ImportEdge.encode (edge : ImportEdge) : Value :=
  .record <|
    [("repo", .string edge.repo), ("file_path", .string edge.filePath),
      ("module", .string edge.module)] ++
    (edge.sourceModule.map fun module => ("source_module", Value.string module)).toList ++
    (edge.line.map fun line => ("line", Value.nat line)).toList

/-! ## Declarations -/

def TopicRole.names : List (String × TopicRole) := [("produce", .produce), ("consume", .consume)]

def TopicRole.name : TopicRole → String
  | .produce => "produce"
  | .consume => "consume"

def TopicDeclaration.decode : Decoder TopicDeclaration := fun value => do
  let f ← Decoder.fields value
  return {
    filePath := ← f.required "file_path" Decoder.string
    name := ← f.required "name" Decoder.string
    role := ← f.required "role" (Decoder.oneOf TopicRole.names) }

def TopicDeclaration.encode (topic : TopicDeclaration) : Value :=
  .record [("file_path", .string topic.filePath), ("name", .string topic.name),
    ("role", .string topic.role.name)]

def ErrorUsageKind.names : List (String × ErrorUsageKind) :=
  [("raise", .raise), ("define", .define)]

def ErrorUsageKind.name : ErrorUsageKind → String
  | .raise => "raise"
  | .define => "define"

def ErrorUsage.decode : Decoder ErrorUsage := fun value => do
  let f ← Decoder.fields value
  return {
    filePath := ← f.required "file_path" Decoder.string
    errorType := ← f.required "error_type" Decoder.string
    base := ← f.optional "base" Decoder.string
    kind := ← f.required "kind" (Decoder.oneOf ErrorUsageKind.names) }

def ErrorUsage.encode (usage : ErrorUsage) : Value :=
  .record [("file_path", .string usage.filePath), ("error_type", .string usage.errorType),
    ("base", encodeText? usage.base), ("kind", .string usage.kind.name)]

def ContractDocument.decode : Decoder ContractDocument := fun value => do
  let f ← Decoder.fields value
  return {
    filePath := ← f.required "file_path" Decoder.string
    name := ← f.required "name" Decoder.string
    kind := ← f.optional "kind" Decoder.string
    fields := ← f.withDefault "fields" [] (Decoder.mapping some) }

def ContractDocument.encode (contract : ContractDocument) : Value :=
  .record [("file_path", .string contract.filePath), ("name", .string contract.name),
    ("kind", encodeText? contract.kind), ("fields", .record contract.fields)]

/-! ## Database contracts -/

def OperationMode.names : List (String × OperationMode) := [("read", .read), ("write", .write)]

def OperationMode.name : OperationMode → String
  | .read => "read"
  | .write => "write"

def Returns.decode : Decoder Returns := fun value => do
  let f ← Decoder.fields value
  return {
    fields := ← f.optional "fields" decodeTexts
    strict := ← f.optional "strict" Decoder.bool
    allowSelectStar := ← f.withDefault "allow_select_star" false Decoder.bool }

def Returns.encode (returns : Returns) : Value :=
  .record [("fields", returns.fields.elim .null encodeTexts),
    ("strict", returns.strict.elim .null .bool),
    ("allow_select_star", .bool returns.allowSelectStar)]

def Operation.decode : Decoder Operation := fun value => do
  let f ← Decoder.fields value
  return {
    sql := ← f.required "sql" Decoder.string
    mode := ← f.withDefault "mode" .read (Decoder.oneOf OperationMode.names)
    returns := ← f.withDefault "returns" {} Returns.decode }

def Operation.encode (operation : Operation) : Value :=
  .record [("sql", .string operation.sql), ("mode", .string operation.mode.name),
    ("returns", operation.returns.encode)]

def RepositoryContract.decode : Decoder RepositoryContract := fun value => do
  let f ← Decoder.fields value
  return {
    tables := ← f.withDefault "tables" [] decodeTexts
    operations := ← f.withDefault "ops" [] (Decoder.mapping Operation.decode) }

def RepositoryContract.encode (contract : RepositoryContract) : Value :=
  .record [("tables", encodeTexts contract.tables),
    ("ops", .record (contract.operations.map fun (name, operation) => (name, operation.encode)))]

def RepositoryFile.decode : Decoder RepositoryFile := fun value => do
  let f ← Decoder.fields value
  return {
    filePath := ← f.required "file_path" Decoder.string
    contract := ← f.required "contract" RepositoryContract.decode }

def RepositoryFile.encode (file : RepositoryFile) : Value :=
  .record [("file_path", .string file.filePath), ("contract", file.contract.encode)]

/-! ## All inputs -/

/-- Read the list of imports, which stands in a record of its own. -/
def Inputs.decodeImports : Decoder (List ImportEdge) := fun value => do
  let f ← Decoder.fields value
  f.withDefault "edges" [] (Decoder.list ImportEdge.decode)

def Inputs.decode : Decoder Inputs := fun value => do
  let f ← Decoder.fields value
  return {
    imports := ← f.withDefault "imports" [] Inputs.decodeImports
    topics := ← f.withDefault "topics" [] (Decoder.list TopicDeclaration.decode)
    errors := ← f.withDefault "errors" [] (Decoder.list ErrorUsage.decode)
    contracts := ← f.withDefault "contracts" [] (Decoder.list ContractDocument.decode)
    repositories := ← f.withDefault "db_contracts" [] (Decoder.list RepositoryFile.decode) }

def Inputs.encode (inputs : Inputs) : Value :=
  .record [("imports", .record [("edges", .list (inputs.imports.map ImportEdge.encode))]),
    ("topics", .list (inputs.topics.map TopicDeclaration.encode)),
    ("errors", .list (inputs.errors.map ErrorUsage.encode)),
    ("contracts", .list (inputs.contracts.map ContractDocument.encode)),
    ("db_contracts", .list (inputs.repositories.map RepositoryFile.encode))]

end RepoPolicy
