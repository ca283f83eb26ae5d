import RepoPolicy.Policy.Load
import RepoPolicy.Proofs.Check.Faults
import RepoPolicy.Proofs.Document.JsonText
import RepoPolicy.Proofs.Document.Mappings

set_option autoImplicit false

/-! # Policies survive serialization

A policy that was read from a document has numbers that are words, and repositories in the order of
their names (`Policy.WellFormed`). These are exactly the policies that are read back from what is
written of them, as a document and as JSON text (`Policy.Survives`). The settings of a preset are
well-formed too, so that a resolved policy survives, and it is resolved as it is
(`policies_survive_serialization`). -/

namespace RepoPolicy

open Document

/-! ## Well-formed policies -/

/-- The repositories are in increasing order of their names, and the depth is a word. -/
structure RuleSet.WellFormed (rules : RuleSet) : Prop where
  repos : ∀ settings ∈ rules.repoBoundaries, Decoder.Ordered settings.repos
  maxDepth : ∀ settings ∈ rules.dbTableAccess, settings.maxDepth < wordSize

structure Policy.WellFormed (policy : Policy) : Prop where
  batchSize : policy.batchSize < wordSize
  rules : policy.rules.WellFormed

theorem BoundarySettings.ordered_of_decode {value : Value} {settings : BoundarySettings}
    (h : decode value = some settings) : Decoder.Ordered settings.repos := by
  simp only [decode, Option.bind_eq_bind, Option.bind_eq_some_iff, Option.pure_def,
    Option.some.injEq] at h
  obtain ⟨fields, -, common, -, repos, hrepos, layers, -, rfl⟩ := h
  rcases Fields.of_withDefault_eq_some hrepos with rfl | ⟨written, hwritten⟩
  · exact List.Pairwise.nil
  · exact Decoder.ordered_of_mapping hwritten

theorem AccessSettings.lt_of_decode {value : Value} {settings : AccessSettings}
    (h : decode value = some settings) : settings.maxDepth < wordSize := by
  simp only [decode, Option.bind_eq_bind, Option.bind_eq_some_iff, Option.pure_def,
    Option.some.injEq] at h
  obtain ⟨fields, -, common, -, depth, hdepth, rfl⟩ := h
  exact Fields.nat_lt_of_withDefault (by decide) hdepth

theorem RuleSet.wellFormed_of_decode {value : Value} {rules : RuleSet}
    (h : decode value = some rules) : rules.WellFormed := by
  simp only [decode, Option.bind_eq_bind, Option.bind_eq_some_iff, Option.pure_def,
    Option.some.injEq] at h
  obtain ⟨fields, -, boundaries, hboundaries, imports, -, topics, -, errors, -, schema, -, access,
    haccess, projection, -, rfl⟩ := h
  refine ⟨?_, ?_⟩
  · intro settings hsettings
    obtain ⟨written, hwritten⟩ := Fields.of_optional_eq_some hboundaries settings hsettings
    exact BoundarySettings.ordered_of_decode hwritten
  · intro settings hsettings
    obtain ⟨written, hwritten⟩ := Fields.of_optional_eq_some haccess settings hsettings
    exact AccessSettings.lt_of_decode hwritten

theorem RuleSet.wellFormed_empty : ({} : RuleSet).WellFormed := ⟨nofun, nofun⟩

theorem RuleSet.wellFormed_recommended : recommended.WellFormed := by
  refine ⟨?_, ?_⟩
  · rintro settings ⟨⟩
    exact List.Pairwise.nil
  · rintro settings ⟨⟩
    decide

/-- Whatever is read from a document is well-formed. -/
theorem Policy.wellFormed_of_decode {value : Value} {policy : Policy}
    (h : decode value = some policy) : policy.WellFormed := by
  simp only [decode, Option.bind_eq_bind, Option.bind_eq_some_iff, Option.pure_def,
    Option.some.injEq] at h
  obtain ⟨fields, -, name, -, repoId, -, rootPath, -, batchSize, hbatchSize, preset, -, rules,
    hrules, rfl⟩ := h
  refine ⟨Fields.nat_lt_of_withDefault (by decide) hbatchSize, ?_⟩
  rcases Fields.of_withDefault_eq_some hrules with rfl | ⟨written, hwritten⟩
  · exact RuleSet.wellFormed_empty
  · exact RuleSet.wellFormed_of_decode hwritten

theorem RuleSet.WellFormed.mergedOver {rules base : RuleSet} (hrules : rules.WellFormed)
    (hbase : base.WellFormed) : (rules.mergedOver base).WellFormed := by
  refine ⟨?_, ?_⟩
  · intro settings hsettings
    rcases Option.or_eq_some_iff.1 hsettings with hown | ⟨-, hother⟩
    · exact hrules.repos settings hown
    · exact hbase.repos settings hother
  · intro settings hsettings
    rcases Option.or_eq_some_iff.1 hsettings with hown | ⟨-, hother⟩
    · exact hrules.maxDepth settings hown
    · exact hbase.maxDepth settings hother

/-- The settings of a preset do not change this. -/
theorem Policy.WellFormed.resolve {policy resolved : Policy} (h : policy.WellFormed)
    (hresolve : policy.resolve = .ok resolved) : resolved.WellFormed := by
  obtain rfl := eq_of_resolve policy hresolve
  refine ⟨h.batchSize, h.rules.mergedOver ?_⟩
  -- there is one preset; a policy that extends none is merged over no settings at all
  rw [base]
  split
  · exact RuleSet.wellFormed_recommended
  · exact RuleSet.wellFormed_empty

/-! ## Documents -/

theorem decodeTexts_encodeTexts (texts : List String) :
    decodeTexts (encodeTexts texts) = some texts :=
  Decoder.list_map fun _ _ => rfl

theorem Severity.decode_name (severity : Severity) :
    Severity.decode (.string severity.name) = some severity := by
  cases severity <;> decide

/-! ### Settings -/

namespace CommonSettings

variable {settings : CommonSettings} {others : Fields}

/-- What the settings of every rule say is read from the front of a record. -/
theorem decode_fields (henabled : ∀ field ∈ others, field.1 ≠ "enabled")
    (hseverity : ∀ field ∈ others, field.1 ≠ "severity") :
    decode (settings.fields ++ others) = some settings := by
  have hfirst : Fields.find (settings.fields ++ others) "enabled"
      = some (some (.bool settings.enabled)) :=
    Fields.find_cons_self (List.forall_mem_cons.2 ⟨by simp, henabled⟩)
  have hsecond : Fields.find (settings.fields ++ others) "severity"
      = some (some (.string settings.severity.name)) :=
    (Fields.find_cons_of_ne (by decide)).trans (Fields.find_cons_self hseverity)
  rw [decode, Fields.withDefault_of_find hfirst, Fields.withDefault_of_find hsecond,
    Severity.decode_name]
  rfl

theorem find_fields {name : String} (henabled : "enabled" ≠ name) (hseverity : "severity" ≠ name) :
    Fields.find (settings.fields ++ others) name = others.find name := by
  rw [fields, List.cons_append, Fields.find_cons_of_ne henabled, List.cons_append,
    Fields.find_cons_of_ne hseverity, List.nil_append]

end CommonSettings

theorem Ownership.decode_encode (ownership : Ownership) :
    decode ownership.encode = some ownership := by
  simp [decode, encode, Decoder.fields, Fields.withDefault, decodeTexts_encodeTexts]

theorem Layer.decode_encode (layer : Layer) : decode layer.encode = some layer := by
  simp [decode, encode, Decoder.fields, Fields.withDefault, Fields.required, Decoder.string,
    decodeTexts_encodeTexts]

theorem BoundarySettings.decode_encode {settings : BoundarySettings}
    (h : Decoder.Ordered settings.repos) : decode settings.encode = some settings := by
  have hrepos := Decoder.mapping_map h fun entry _ => entry.2.decode_encode
  have hlayers := Decoder.list_map fun layer (_ : layer ∈ settings.layers) => layer.decode_encode
  simp [decode, encode, Decoder.fields, Fields.withDefault, CommonSettings.decode_fields,
    CommonSettings.find_fields, hrepos, hlayers]

theorem ImportSettings.decode_encode (settings : ImportSettings) :
    decode settings.encode = some settings := by
  simp [decode, encode, Decoder.fields, Fields.withDefault, CommonSettings.decode_fields,
    CommonSettings.find_fields, decodeTexts_encodeTexts]

theorem TopicSettings.decode_encode (settings : TopicSettings) :
    decode settings.encode = some settings := by
  simp [decode, encode, Decoder.fields, Fields.withDefault, CommonSettings.decode_fields,
    CommonSettings.find_fields, Decoder.string, decodeTexts_encodeTexts]

theorem ErrorSettings.decode_encode (settings : ErrorSettings) :
    decode settings.encode = some settings := by
  simp [decode, encode, Decoder.fields, Fields.withDefault, CommonSettings.decode_fields,
    CommonSettings.find_fields, decodeTexts_encodeTexts]

theorem SchemaSettings.decode_encode (settings : SchemaSettings) :
    decode settings.encode = some settings := by
  simp [decode, encode, Decoder.fields, Fields.withDefault, CommonSettings.decode_fields,
    CommonSettings.find_fields, decodeTexts_encodeTexts]

theorem AccessSettings.decode_encode {settings : AccessSettings}
    (h : settings.maxDepth < wordSize) : decode settings.encode = some settings := by
  simp [decode, encode, Decoder.fields, Fields.withDefault, CommonSettings.decode_fields,
    CommonSettings.find_fields, Decoder.nat_of_lt h]

theorem ProjectionSettings.decode_encode (settings : ProjectionSettings) :
    decode settings.encode = some settings := by
  have hcommon : CommonSettings.decode (settings.toCommonSettings.fields ++ [])
      = some settings.toCommonSettings := CommonSettings.decode_fields (by simp) (by simp)
  rw [List.append_nil] at hcommon
  simp [decode, encode, Decoder.fields, hcommon]

/-! ### Rules -/

theorem Rule.ofName?_name (rule : Rule) : ofName? rule.name = some rule := by
  cases rule <;> decide

theorem Rule.name_injective : Function.Injective Rule.name := by
  intro rule other h
  rw [← Option.some.injEq, ← ofName?_name, h, ofName?_name]

namespace RuleSet

variable {rules : RuleSet}

/-- The settings of a rule are read if they are written under its name. -/
theorem optional_encode {α : Type} {item : Decoder α} {encode : α → Value} {settings : Option α}
    (rule : Rule) (hrule : rules.encodeRule? rule = settings.map encode)
    (hpresent : ∀ x, Decoder.isAbsent (encode x) = false)
    (hread : ∀ x ∈ settings, item (encode x) = some x) :
    Fields.optional (Rule.all.filterMap fun rule =>
      (rules.encodeRule? rule).map fun value => (rule.name, value)) rule.name item
        = some settings := by
  have hfind := Fields.find_filterMap Rule.name_injective rules.encodeRule?
    (show Rule.all.Nodup by decide) (show rule ∈ Rule.all by cases rule <;> decide)
  exact Fields.optional_of_find (hfind.trans (congrArg some hrule)) hpresent hread

theorem decode_encode (h : rules.WellFormed) : decode rules.encode = some rules := by
  -- each rule is found under its own name, whichever of the others are there
  have hboundaries := rules.optional_encode .repoBoundaries rfl (fun _ => rfl)
    fun settings hsettings => BoundarySettings.decode_encode (h.repos settings hsettings)
  have himports := rules.optional_encode .forbiddenImports rfl (fun _ => rfl)
    fun settings _ => settings.decode_encode
  have htopics := rules.optional_encode .topicNaming rfl (fun _ => rfl)
    fun settings _ => settings.decode_encode
  have herrors := rules.optional_encode .errorTaxonomy rfl (fun _ => rfl)
    fun settings _ => settings.decode_encode
  have hschema := rules.optional_encode .contractSchemaValid rfl (fun _ => rfl)
    fun settings _ => settings.decode_encode
  have haccess := rules.optional_encode .dbTableAccess rfl (fun _ => rfl)
    fun settings hsettings => AccessSettings.decode_encode (h.maxDepth settings hsettings)
  have hprojection := rules.optional_encode .dbProjection rfl (fun _ => rfl)
    fun settings _ => settings.decode_encode
  simp only [decode, encode, Decoder.fields, Option.bind_eq_bind, Option.bind_some, hboundaries,
    himports, htopics, herrors, hschema, haccess, hprojection]
  rfl

end RuleSet

/-- **A well-formed policy is read from its document.** -/
theorem Policy.decode_encode {policy : Policy} (h : policy.WellFormed) :
    decode policy.encode = some policy := by
  obtain ⟨name, repoId, rootPath, batchSize, preset, rules⟩ := policy
  have hrules := RuleSet.decode_encode h.rules
  have hbatchSize := Decoder.nat_of_lt h.batchSize
  cases preset with
  | none =>
      simp [decode, encode, Decoder.fields, Fields.required, Fields.withDefault, Fields.optional,
        Decoder.string, hbatchSize, hrules]
  | some preset =>
      simp [decode, encode, Decoder.fields, Fields.required, Fields.withDefault, Fields.optional,
        Decoder.optional, Decoder.isAbsent, Decoder.string, hbatchSize, hrules]

/-! ## Texts -/

section Expressible

variable {depth : Nat}

theorem expressible_encodeTexts (texts : List String) :
    Json.Expressible (depth + 1) (encodeTexts texts) :=
  .list (List.forall_mem_map.2 fun text _ => .string text)

theorem Ownership.expressible_encode (ownership : Ownership) :
    Json.Expressible (depth + 2) ownership.encode :=
  .record (by simp [expressible_encodeTexts])

theorem Layer.expressible_encode (layer : Layer) : Json.Expressible (depth + 2) layer.encode :=
  .record (by simp [expressible_encodeTexts, Json.Expressible.string])

theorem CommonSettings.expressible_fields (settings : CommonSettings) {others : Fields}
    (h : ∀ field ∈ others, Json.Expressible depth field.2) :
    Json.Expressible (depth + 1) (.record (settings.fields ++ others)) :=
  .record (List.forall_mem_cons.2 ⟨.bool _, List.forall_mem_cons.2 ⟨.string _, h⟩⟩)

/-- The settings of a rule are nested as deeply as those of boundaries. -/
theorem RuleSet.expressible_encodeRule? {rules : RuleSet} (h : rules.WellFormed) {rule : Rule}
    {value : Value} (hvalue : rules.encodeRule? rule = some value) :
    Json.Expressible 4 value := by
  cases rule with
  | repoBoundaries =>
      obtain ⟨settings, -, rfl⟩ := Option.map_eq_some_iff.1 hvalue
      refine CommonSettings.expressible_fields _
        (List.forall_mem_cons.2 ⟨?_, List.forall_mem_singleton.2 ?_⟩)
      · exact .record (List.forall_mem_map.2 fun entry _ => entry.2.expressible_encode)
      · exact .list (List.forall_mem_map.2 fun layer _ => layer.expressible_encode)
  | forbiddenImports =>
      obtain ⟨settings, -, rfl⟩ := Option.map_eq_some_iff.1 hvalue
      exact CommonSettings.expressible_fields _ (by simp [expressible_encodeTexts])
  | topicNaming =>
      obtain ⟨settings, -, rfl⟩ := Option.map_eq_some_iff.1 hvalue
      exact CommonSettings.expressible_fields _
        (by simp [expressible_encodeTexts, Json.Expressible.string])
  | errorTaxonomy =>
      obtain ⟨settings, -, rfl⟩ := Option.map_eq_some_iff.1 hvalue
      exact CommonSettings.expressible_fields _ (by simp [expressible_encodeTexts])
  | contractSchemaValid =>
      obtain ⟨settings, -, rfl⟩ := Option.map_eq_some_iff.1 hvalue
      exact CommonSettings.expressible_fields _ (by simp [expressible_encodeTexts])
  | dbTableAccess =>
      obtain ⟨settings, hsettings, rfl⟩ := Option.map_eq_some_iff.1 hvalue
      exact CommonSettings.expressible_fields _
        (by simp [Json.Expressible.nat (h.maxDepth settings hsettings)])
  | dbProjection =>
      obtain ⟨settings, -, rfl⟩ := Option.map_eq_some_iff.1 hvalue
      have hcommon : Json.Expressible 4 (.record (settings.toCommonSettings.fields ++ [])) :=
        CommonSettings.expressible_fields _ (by simp)
      rw [List.append_nil] at hcommon
      exact hcommon

theorem RuleSet.expressible_encode {rules : RuleSet} (h : rules.WellFormed) :
    Json.Expressible 5 rules.encode := by
  refine .record ?_
  intro field hfield
  obtain ⟨rule, -, hrule⟩ := List.mem_filterMap.1 hfield
  obtain ⟨value, hvalue, rfl⟩ := Option.map_eq_some_iff.1 hrule
  exact expressible_encodeRule? h hvalue

theorem Policy.expressible_encode {policy : Policy} (h : policy.WellFormed) :
    Json.Expressible 6 policy.encode := by
  have hrules := RuleSet.expressible_encode h.rules
  have hbatchSize : Json.Expressible 5 (.nat policy.batchSize) := .nat h.batchSize
  refine .record ?_
  cases policy.preset <;> simp [hrules, hbatchSize, Json.Expressible.string]

end Expressible

namespace Policy

def ofJson (text : String) : Option Policy := (Json.parse text).bind decode

/-- The policy is read back from what is written of it. -/
structure Survives (policy : Policy) : Prop where
  document : decode policy.encode = some policy
  compact : ofJson (Json.write policy.encode) = some policy
  indented : ofJson (Json.pretty policy.encode) = some policy

theorem WellFormed.survives {policy : Policy} (h : policy.WellFormed) : policy.Survives := by
  have hdocument := decode_encode h
  have hexpressible := expressible_encode h
  refine ⟨hdocument, ?_, ?_⟩
  · rw [ofJson, Json.parse_write hexpressible (by decide), Option.bind_some, hdocument]
  · rw [ofJson, Json.parse_pretty hexpressible (by decide), Option.bind_some, hdocument]

/-- **Policies survive serialization.** The policies that are read back are the well-formed ones,
and so are all that can be read at all. If such a policy is resolved, what is read back of the
result is resolved without any change. -/
theorem policies_survive_serialization (policy : Policy) :
    (policy.Survives ↔ policy.WellFormed) ∧
      (policy.WellFormed ↔ ∃ value, decode value = some policy) ∧
      ∀ resolved, policy.WellFormed → policy.resolve = .ok resolved →
        resolved.Survives ∧ resolved.resolve = .ok resolved := by
  refine ⟨⟨fun h => wellFormed_of_decode h.document, WellFormed.survives⟩,
    ⟨fun h => ⟨_, h.survives.document⟩, fun ⟨_, h⟩ => wellFormed_of_decode h⟩, ?_⟩
  intro resolved h hresolve
  exact ⟨(h.resolve hresolve).survives, (resolve_resolve policy hresolve).trans hresolve⟩

/-- Settings for two of the rules, and those of the preset for the others. -/
def twoRepos : Policy where
  name := "\"shop\"\n"
  batchSize := wordSize - 1
  preset := some recommendedPreset
  rules :=
    { repoBoundaries := some
        { severity := .warning
          repos := [("api", { owns := ["api"] }), ("core", { mayImport := ["api"] })]
          layers := [⟨"", []⟩] }
      dbTableAccess := some { enabled := false, maxDepth := 0 } }

theorem two_repos_survive :
    twoRepos.WellFormed ∧ twoRepos.Survives ∧
      ∃ resolved, twoRepos.resolve = .ok resolved ∧ resolved.Survives ∧
        resolved.resolve = .ok resolved := by
  have hrules : twoRepos.rules.WellFormed := by
    refine ⟨?_, ?_⟩
    · rintro settings ⟨⟩
      exact List.pairwise_pair.2 (by decide)
    · rintro settings ⟨⟩
      decide
  have hwellFormed : twoRepos.WellFormed := ⟨by decide, hrules⟩
  obtain ⟨hsurvives, -, hresolved⟩ := policies_survive_serialization twoRepos
  exact ⟨hwellFormed, hsurvives.2 hwellFormed, _, rfl, hresolved _ hwellFormed rfl⟩

end Policy

end RepoPolicy
