import RepoPolicy.Finding.Codec
import RepoPolicy.Inputs.Codec
import RepoPolicy.Policy.Basic

set_option autoImplicit false

/-! # Policies as documents -/

namespace RepoPolicy

open RepoPolicy.Document

/-! ## Settings -/

/-- Read what the settings of every rule say. -/
def CommonSettings.decode (f : Fields) : Option CommonSettings := do
  return {
    enabled := ← f.withDefault "enabled" true Decoder.bool
    severity := ← f.withDefault "severity" .error Severity.decode }

def CommonSettings.fields (settings : CommonSettings) : Fields :=
  [("enabled", .bool settings.enabled), ("severity", .string settings.severity.name)]

def Ownership.decode : Decoder Ownership := fun value => do
  let f ← Decoder.fields value
  return {
    owns := ← f.withDefault "owns" [] decodeTexts
    mayImport := ← f.withDefault "may_import" [] decodeTexts }

def Ownership.encode (ownership : Ownership) : Value :=
  .record [("owns", encodeTexts ownership.owns), ("may_import", encodeTexts ownership.mayImport)]

def Layer.decode : Decoder Layer := fun value => do
  let f ← Decoder.fields value
  return {
    name := ← f.required "name" Decoder.string
    prefixes := ← f.withDefault "prefixes" [] decodeTexts }

def Layer.encode (layer : Layer) : Value :=
  .record [("name", .string layer.name), ("prefixes", encodeTexts layer.prefixes)]

def BoundarySettings.decode : Decoder BoundarySettings := fun value => do
  let f ← Decoder.fields value
  return {
    toCommonSettings := ← CommonSettings.decode f
    repos := ← f.withDefault "repos" [] (Decoder.mapping Ownership.decode)
    layers := ← f.withDefault "layers" [] (Decoder.list Layer.decode) }

def BoundarySettings.encode (settings : BoundarySettings) : Value :=
  .record (settings.toCommonSettings.fields ++
    [("repos", .record (settings.repos.map fun (name, ownership) => (name, ownership.encode))),
      ("layers", .list (settings.layers.map Layer.encode))])

def ImportSettings.decode : Decoder ImportSettings := fun value => do
  let f ← Decoder.fields value
  return {
    toCommonSettings := ← CommonSettings.decode f
    deny := ← f.withDefault "deny" [] decodeTexts
    allow := ← f.withDefault "allow" [] decodeTexts
    exemptPaths := ← f.withDefault "exempt_paths" [] decodeTexts }

def ImportSettings.encode (settings : ImportSettings) : Value :=
  .record (settings.toCommonSettings.fields ++
    [("deny", encodeTexts settings.deny), ("allow", encodeTexts settings.allow),
      ("exempt_paths", encodeTexts settings.exemptPaths)])

def TopicSettings.decode : Decoder TopicSettings := fun value => do
  let f ← Decoder.fields value
  return {
    toCommonSettings := ← CommonSettings.decode f
    pattern := ← f.withDefault "pattern" defaultTopicPattern Decoder.string
    allowedPrefixes := ← f.withDefault "allowed_prefixes" [] decodeTexts }

def TopicSettings.encode (settings : TopicSettings) : Value :=
  .record (settings.toCommonSettings.fields ++
    [("pattern", .string settings.pattern),
      ("allowed_prefixes", encodeTexts settings.allowedPrefixes)])

def ErrorSettings.decode : Decoder ErrorSettings := fun value => do
  let f ← Decoder.fields value
  return {
    toCommonSettings := ← CommonSettings.decode f
    allowedBases := ← f.withDefault "allowed_bases" [] decodeTexts
    forbiddenRaises := ← f.withDefault "forbidden_raises" [] decodeTexts }

def ErrorSettings.encode (settings : ErrorSettings) : Value :=
  .record (settings.toCommonSettings.fields ++
    [("allowed_bases", encodeTexts settings.allowedBases),
      ("forbidden_raises", encodeTexts settings.forbiddenRaises)])

def SchemaSettings.decode : Decoder SchemaSettings := fun value => do
  let f ← Decoder.fields value
  return {
    toCommonSettings := ← CommonSettings.decode f
    requiredFields := ← f.withDefault "required_fields" [] decodeTexts
    deprecatedFields := ← f.withDefault "deprecated_fields" [] decodeTexts
    kinds := ← f.withDefault "kinds" [] decodeTexts }

def SchemaSettings.encode (settings : SchemaSettings) : Value :=
  .record (settings.toCommonSettings.fields ++
    [("required_fields", encodeTexts settings.requiredFields),
      ("deprecated_fields", encodeTexts settings.deprecatedFields),
      ("kinds", encodeTexts settings.kinds)])

def AccessSettings.decode : Decoder AccessSettings := fun value => do
  let f ← Decoder.fields value
  return {
    toCommonSettings := ← CommonSettings.decode f
    maxDepth := ← f.withDefault "max_depth" Sql.defaultDepthLimit Decoder.nat }

def AccessSettings.encode (settings : AccessSettings) : Value :=
  .record (settings.toCommonSettings.fields ++ [("max_depth", .nat settings.maxDepth)])

def ProjectionSettings.decode : Decoder ProjectionSettings := fun value => do
  let f ← Decoder.fields value
  return { toCommonSettings := ← CommonSettings.decode f }

/-- Settings for returned columns as a document. -/
def ProjectionSettings.encode (settings : ProjectionSettings) : Value :=
  .record settings.toCommonSettings.fields

/-! ## Sets of rules -/

def RuleSet.decode : Decoder RuleSet := fun value => do
  let f ← Decoder.fields value
  return {
    repoBoundaries := ← f.optional Rule.repoBoundaries.name BoundarySettings.decode
    forbiddenImports := ← f.optional Rule.forbiddenImports.name ImportSettings.decode
    topicNaming := ← f.optional Rule.topicNaming.name TopicSettings.decode
    errorTaxonomy := ← f.optional Rule.errorTaxonomy.name ErrorSettings.decode
    contractSchemaValid := ← f.optional Rule.contractSchemaValid.name SchemaSettings.decode
    dbTableAccess := ← f.optional Rule.dbTableAccess.name AccessSettings.decode
    dbProjection := ← f.optional Rule.dbProjection.name ProjectionSettings.decode }

def RuleSet.encodeRule? (rules : RuleSet) : Rule → Option Value
  | .repoBoundaries => rules.repoBoundaries.map BoundarySettings.encode
  | .forbiddenImports => rules.forbiddenImports.map ImportSettings.encode
  | .topicNaming => rules.topicNaming.map TopicSettings.encode
  | .errorTaxonomy => rules.errorTaxonomy.map ErrorSettings.encode
  | .contractSchemaValid => rules.contractSchemaValid.map SchemaSettings.encode
  | .dbTableAccess => rules.dbTableAccess.map AccessSettings.encode
  | .dbProjection => rules.dbProjection.map ProjectionSettings.encode

/-- The settings of rules as a document, without those that have none. -/
def RuleSet.encode (rules : RuleSet) : Value :=
  .record (Rule.all.filterMap fun rule =>
    (rules.encodeRule? rule).map fun value => (rule.name, value))

/-! ## Policies -/

def Policy.decode : Decoder Policy := fun value => do
  let f ← Decoder.fields value
  return {
    name := ← f.required "name" Decoder.string
    repoId := ← f.withDefault "repo_id" "" Decoder.string
    rootPath := ← f.withDefault "root_path" "." Decoder.string
    batchSize := ← f.withDefault "batch_size" defaultBatchSize Decoder.nat
    preset := ← f.optional "extends" Decoder.string
    rules := ← f.withDefault "rules" {} RuleSet.decode }

def Policy.encode (policy : Policy) : Value :=
  .record <|
    [("name", .string policy.name), ("repo_id", .string policy.repoId),
      ("root_path", .string policy.rootPath), ("batch_size", .nat policy.batchSize)] ++
    (policy.preset.map fun name => ("extends", Value.string name)).toList ++
    [("rules", policy.rules.encode)]

end RepoPolicy
