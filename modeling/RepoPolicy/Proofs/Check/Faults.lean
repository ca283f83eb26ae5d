import Mathlib.Data.String.Basic
import RepoPolicy.Proofs.Check.Compilation

set_option autoImplicit false

/-! # The faults of a policy

`Policy.faults` lists all that is wrong with a policy, in the order in which it counts: its preset,
the size of its batches, and then the settings of its enabled rules, one rule after another. Making
an engine stops at the first of them (`failure?_ofPolicy`), so it succeeds for the policies without
a fault (`Policy.faults_eq_nil_iff`), and then all enabled rules run, in their order
(`Check.map_rule_compileAll`). A policy that has been resolved is resolved already, and makes the
same engine (`Policy.resolve_resolve`). -/

namespace RepoPolicy

/-! ## Results that stop at the first fault -/

def failure? {ε α : Type} : Except ε α → Option ε
  | .error error => some error
  | .ok _ => none

section Failure

variable {ε α β : Type}

theorem failure?_eq_some_iff {result : Except ε α} {error : ε} :
    failure? result = some error ↔ result = .error error := by
  cases result with
  | error other => simp [failure?]
  | ok value => simp [failure?]

theorem failure?_eq_none_iff {result : Except ε α} :
    failure? result = none ↔ ∃ value, result = .ok value := by
  cases result with
  | error error => simp [failure?]
  | ok value => simp [failure?]

theorem failure?_map (f : α → β) (result : Except ε α) :
    failure? (result.map f) = failure? result := by
  cases result <;> rfl

theorem failure?_bind {result : Except ε α} {next : α → Except ε β} {later : Option ε}
    (h : ∀ value, result = .ok value → failure? (next value) = later) :
    failure? (result >>= next) = (failure? result).or later := by
  cases result with
  | error error => rfl
  | ok value => exact h value rfl

theorem failure?_bind_pure (result : Except ε α) (f : α → β) :
    failure? (result >>= fun value => pure (f value)) = failure? result := by
  cases result <;> rfl

/-- Of many results, the first one that fails counts. -/
theorem failure?_mapM (f : α → Except ε β) (list : List α) :
    failure? (list.mapM f) = list.findSome? fun a => failure? (f a) := by
  induction list with
  | nil => rfl
  | cons a rest ih =>
      have hrest : ∀ value, f a = .ok value →
          failure? (rest.mapM f >>= fun values => pure (value :: values))
            = rest.findSome? fun a => failure? (f a) := by
        intro value _
        rw [failure?_bind_pure, ih]
      rw [List.mapM_cons, failure?_bind hrest, List.findSome?_cons]
      cases failure? (f a) <;> rfl

end Failure

/-! ## Faults of settings -/

def patternFault? (rule : Rule) (text : String) : Option PolicyError :=
  match Pattern.read text with
  | .ok _ => none
  | .error cause => some (.invalidPattern rule text cause)

/-- A repository names one that does not exist: in the order of the repositories, and for each in
the order in which it names others. -/
def BoundarySettings.faults (settings : BoundarySettings) : List PolicyError :=
  settings.repos.flatMap fun (repo, ownership) =>
    (ownership.mayImport.filter (· ∉ settings.repos.map Prod.fst)).map fun unknown =>
      .invalidRule .repoBoundaries (.unknownRepo repo unknown)

/-- A text is no pattern: first among those that forbid, then among those that allow. -/
def ImportSettings.faults (settings : ImportSettings) : List PolicyError :=
  (settings.deny ++ settings.allow).filterMap (patternFault? .forbiddenImports)

def TopicSettings.faults (settings : TopicSettings) : List PolicyError :=
  (patternFault? .topicNaming settings.pattern).toList

/-- No nesting is allowed. -/
def AccessSettings.faults (settings : AccessSettings) : List PolicyError :=
  if settings.maxDepth = 0 then [.invalidRule .dbTableAccess .depthZero] else []

/-- The faults of the settings of a rule, if it has some. The settings of the other rules are always
right. -/
def RuleSet.faultsOf (rules : RuleSet) : Rule → List PolicyError
  | .repoBoundaries => rules.repoBoundaries.elim [] BoundarySettings.faults
  | .forbiddenImports => rules.forbiddenImports.elim [] ImportSettings.faults
  | .topicNaming => rules.topicNaming.elim [] TopicSettings.faults
  | .errorTaxonomy => []
  | .contractSchemaValid => []
  | .dbTableAccess => rules.dbTableAccess.elim [] AccessSettings.faults
  | .dbProjection => []

/-- The set with the settings of one rule, and none for the others. -/
def RuleSet.restrictedTo (rules : RuleSet) : Rule → RuleSet
  | .repoBoundaries => { repoBoundaries := rules.repoBoundaries }
  | .forbiddenImports => { forbiddenImports := rules.forbiddenImports }
  | .topicNaming => { topicNaming := rules.topicNaming }
  | .errorTaxonomy => { errorTaxonomy := rules.errorTaxonomy }
  | .contractSchemaValid => { contractSchemaValid := rules.contractSchemaValid }
  | .dbTableAccess => { dbTableAccess := rules.dbTableAccess }
  | .dbProjection => { dbProjection := rules.dbProjection }

namespace Policy

def base (policy : Policy) : RuleSet :=
  if policy.preset = some recommendedPreset then .recommended else {}

/-- The settings that count: those of the policy, and those of its preset for the other rules. -/
def settings (policy : Policy) : RuleSet := policy.rules.mergedOver policy.base

/-- The rules that are to run, in the order of their evaluation: those that the policy enables, and
those that it has no settings for and its preset enables. -/
def enabledRules (policy : Policy) : List Rule :=
  Rule.all.filter fun rule =>
    ((policy.rules.common rule).or (policy.base.common rule)).any (·.enabled)

def presetFaults (policy : Policy) : List PolicyError :=
  match policy.preset with
  | some name => if name = recommendedPreset then [] else [.unknownPreset name]
  | none => []

def batchFaults (policy : Policy) : List PolicyError :=
  if policy.batchSize = 0 then [.invalidBatchSize 0] else []

/-- All that is wrong with a policy, in the order in which it counts. -/
def faults (policy : Policy) : List PolicyError :=
  policy.presetFaults ++ policy.batchFaults ++
    policy.enabledRules.flatMap policy.settings.faultsOf

end Policy

/-! ## Making a check stops at the first fault of its settings -/

theorem failure?_read (rule : Rule) (text : String) :
    failure? (WrittenPattern.read rule text) = patternFault? rule text := by
  rw [WrittenPattern.read, patternFault?]
  cases Pattern.read text <;> rfl

theorem failure?_readAll (rule : Rule) (texts : List String) :
    failure? (WrittenPattern.readAll rule texts) = texts.findSome? (patternFault? rule) := by
  rw [WrittenPattern.readAll, failure?_mapM]
  simp only [failure?_read]

theorem BoundarySettings.isNone_lookup {settings : BoundarySettings} {name : String} :
    (settings.repos.lookup name).isNone = decide (name ∉ settings.repos.map Prod.fst) := by
  rw [Bool.eq_iff_iff, Option.isNone_iff_eq_none, List.lookup_eq_none_iff, decide_eq_true_eq]
  simp only [bne_iff_ne, List.mem_map, not_exists, not_and]
  exact ⟨fun h entry hentry heq => h entry hentry heq.symm, fun h entry hentry heq =>
    h entry hentry heq.symm⟩

namespace Check

variable (method : Sql.Method)

theorem failure?_ofBoundaries (settings : BoundarySettings) :
    failure? (ofBoundaries settings) = settings.faults.head? := by
  have hdefect : settings.faults.head?
      = settings.defect?.map (PolicyError.invalidRule .repoBoundaries) := by
    rw [BoundarySettings.faults, BoundarySettings.defect?, List.head?_flatMap, List.map_findSome?]
    simp only [List.head?_map, List.head?_filter, BoundarySettings.isNone_lookup]
    congr 1
    funext entry
    simp only [Function.comp_apply, Option.map_map]
    rfl
  rw [hdefect, ofBoundaries]
  cases settings.defect? <;> rfl

theorem failure?_ofImports (settings : ImportSettings) :
    failure? (ImportCheck.ofSettings settings) = settings.faults.head? := by
  rw [ImportCheck.ofSettings, ImportSettings.faults, List.head?_filterMap, List.findSome?_append,
    ← failure?_readAll, ← failure?_readAll]
  exact failure?_bind fun deny _ => failure?_bind_pure _ _

theorem failure?_ofTopics (settings : TopicSettings) :
    failure? (TopicCheck.ofSettings settings) = settings.faults.head? := by
  rw [TopicCheck.ofSettings, failure?_bind_pure, failure?_read, TopicSettings.faults]
  cases patternFault? .topicNaming settings.pattern <;> rfl

theorem failure?_ofAccess (settings : AccessSettings) :
    failure? (ofAccess method settings) = settings.faults.head? := by
  rw [ofAccess, AccessSettings.faults]
  split <;> rfl

/-- The check of a rule is made from its settings, or stops at their first fault. -/
theorem failure?_ofSettings? (rules : RuleSet) (rule : Rule) :
    (ofSettings? method rules rule).bind failure? = (rules.faultsOf rule).head? := by
  -- three of the rules have nothing to be compiled, so their settings have no faults
  cases rule with
  | repoBoundaries =>
      cases hsettings : rules.repoBoundaries with
      | none => simp [ofSettings?, RuleSet.faultsOf, hsettings]
      | some settings => simp [ofSettings?, RuleSet.faultsOf, hsettings, failure?_ofBoundaries]
  | forbiddenImports =>
      cases hsettings : rules.forbiddenImports with
      | none => simp [ofSettings?, RuleSet.faultsOf, hsettings]
      | some settings =>
          simp [ofSettings?, RuleSet.faultsOf, hsettings, failure?_map, failure?_ofImports]
  | topicNaming =>
      cases hsettings : rules.topicNaming with
      | none => simp [ofSettings?, RuleSet.faultsOf, hsettings]
      | some settings =>
          simp [ofSettings?, RuleSet.faultsOf, hsettings, failure?_map, failure?_ofTopics]
  | errorTaxonomy => cases hsettings : rules.errorTaxonomy <;> simp [ofSettings?, hsettings] <;> rfl
  | contractSchemaValid =>
      cases hsettings : rules.contractSchemaValid <;> simp [ofSettings?, hsettings] <;> rfl
  | dbTableAccess =>
      cases hsettings : rules.dbTableAccess with
      | none => simp [ofSettings?, RuleSet.faultsOf, hsettings]
      | some settings => simp [ofSettings?, RuleSet.faultsOf, hsettings, failure?_ofAccess]
  | dbProjection => cases hsettings : rules.dbProjection <;> simp [ofSettings?, hsettings] <;> rfl

/-- Of the enabled rules, the first one with a fault stops all. -/
theorem failure?_compileAll (rules : RuleSet) :
    failure? (compileAll method rules) = (rules.enabled.flatMap rules.faultsOf).head? := by
  rw [compileAll, failure?_mapM, List.head?_flatMap, RuleSet.enabled]
  -- both sides go through the rules in the same order and pass over the disabled ones
  induction Rule.all with
  | nil => rfl
  | cons rule rest ih =>
      have hrule := failure?_ofSettings? method rules rule
      by_cases henabled : rules.isEnabled rule = true
      · rw [List.filter_cons_of_pos henabled, List.findSome?_cons, ← hrule, ← ih,
          List.filterMap_cons, compile?, if_pos henabled]
        cases ofSettings? method rules rule <;> rfl
      · rw [List.filter_cons_of_neg henabled, ← ih, List.filterMap_cons, compile?, if_neg henabled]

/-! ## The rules that run -/

theorem isSome_ofSettings? {rules : RuleSet} {rule : Rule} (h : rules.isEnabled rule = true) :
    (ofSettings? method rules rule).isSome = true := by
  have hsome : (rules.common rule).isSome = true := by
    cases hcommon : rules.common rule with
    | none => simp [RuleSet.isEnabled, hcommon] at h
    | some settings => rfl
  cases rule <;> simpa [RuleSet.common, ofSettings?] using hsome

/-- Each enabled rule has a check, and the checks are in the order of the rules. -/
theorem map_rule_compileAll {rules : RuleSet} {checks : List Check}
    (h : compileAll method rules = .ok checks) : checks.map Check.rule = rules.enabled := by
  rw [compileAll] at h
  rw [RuleSet.enabled]
  -- which rules there are does not matter, only their order
  generalize Rule.all = list at h ⊢
  induction list generalizing checks with
  | nil =>
      cases h
      rfl
  | cons rule rest ih =>
      by_cases henabled : rules.isEnabled rule = true
      · obtain ⟨result, hresult⟩ := Option.isSome_iff_exists.1 (isSome_ofSettings? method henabled)
        have hcompile : compile? method rules rule = some result := by
          rw [compile?, if_pos henabled, hresult]
        rw [List.filterMap_cons, hcompile, List.mapM_cons] at h
        obtain ⟨check, hcheck, h⟩ := exists_of_bind_eq_ok h
        obtain ⟨others, hothers, h⟩ := exists_of_bind_eq_ok h
        cases h
        obtain rfl : result = .ok check := hcheck
        rw [List.filter_cons_of_pos henabled, List.map_cons, ih hothers, (of_compile? hcompile).1]
      · rw [List.filterMap_cons, compile?, if_neg henabled] at h
        rw [List.filter_cons_of_neg henabled]
        exact ih h

end Check

/-! ## Policies -/

theorem put_or {σ : Type} (put : Option σ → RuleSet) (common : σ → CommonSettings)
    (own other : Option σ) :
    put (own.or other) = if (own.map common).isSome then put own else put other := by
  cases own <;> rfl

/-- Of two sets that are merged, the settings of a rule are taken as a whole from the first, or from
the second if the first has none. -/
theorem RuleSet.restrictedTo_mergedOver (rules base : RuleSet) (rule : Rule) :
    (rules.mergedOver base).restrictedTo rule
      = if (rules.common rule).isSome then rules.restrictedTo rule else base.restrictedTo rule := by
  cases rule with
  | repoBoundaries => exact put_or (fun settings => { repoBoundaries := settings }) _ _ _
  | forbiddenImports => exact put_or (fun settings => { forbiddenImports := settings }) _ _ _
  | topicNaming => exact put_or (fun settings => { topicNaming := settings }) _ _ _
  | errorTaxonomy => exact put_or (fun settings => { errorTaxonomy := settings }) _ _ _
  | contractSchemaValid => exact put_or (fun settings => { contractSchemaValid := settings }) _ _ _
  | dbTableAccess => exact put_or (fun settings => { dbTableAccess := settings }) _ _ _
  | dbProjection => exact put_or (fun settings => { dbProjection := settings }) _ _ _

theorem RuleSet.mergedOver_empty (rules : RuleSet) : rules.mergedOver {} = rules := by
  simp [mergedOver]

theorem RuleSet.mergedOver_mergedOver (rules base : RuleSet) :
    (rules.mergedOver base).mergedOver base = rules.mergedOver base := by
  simp [mergedOver, Option.or_assoc]

namespace Policy

variable (policy : Policy)

theorem enabled_settings : policy.settings.enabled = policy.enabledRules := by
  rw [RuleSet.enabled, enabledRules]
  congr 1
  funext rule
  rw [RuleSet.isEnabled, settings, RuleSet.common_mergedOver]

theorem extendedRules_eq :
    policy.extendedRules = policy.presetFaults.head?.elim (.ok policy.settings) .error := by
  rw [extendedRules, settings, base, presetFaults]
  cases hpreset : policy.preset with
  | none => simp [RuleSet.mergedOver_empty]
  | some name =>
      by_cases hname : name = recommendedPreset <;> simp [presetRules, hname]

/-- A policy without a fault in its preset and its batches is resolved. -/
theorem resolve_eq :
    policy.resolve = (policy.presetFaults ++ policy.batchFaults).head?.elim
      (.ok { policy with rules := policy.settings }) .error := by
  rw [resolve, extendedRules_eq, batchFaults, List.head?_append]
  cases policy.presetFaults.head? with
  | some fault => rfl
  | none =>
      by_cases hsize : policy.batchSize = 0 <;> simp [hsize, bind, Except.bind]

theorem eq_of_resolve {resolved : Policy} (h : policy.resolve = .ok resolved) :
    resolved = { policy with rules := policy.settings } := by
  rw [resolve_eq] at h
  cases hfault : (policy.presetFaults ++ policy.batchFaults).head? with
  | some fault =>
      rw [hfault] at h
      cases h
  | none =>
      rw [hfault] at h
      exact (Except.ok.inj h).symm

theorem resolve_resolve {resolved : Policy} (h : policy.resolve = .ok resolved) :
    resolved.resolve = policy.resolve := by
  obtain rfl := eq_of_resolve policy h
  have hsettings : settings { policy with rules := policy.settings } = policy.settings :=
    RuleSet.mergedOver_mergedOver policy.rules policy.base
  rw [resolve_eq, hsettings, resolve_eq]
  rfl

end Policy

/-- **Making an engine stops at the first fault of the policy.** -/
theorem failure?_ofPolicy (policy : Policy) (method : Sql.Method) :
    failure? (Engine.ofPolicy policy method) = policy.faults.head? := by
  have hchecks : ∀ resolved, policy.resolve = .ok resolved →
      failure? (Check.compileAll method resolved.rules >>= fun checks => pure ⟨resolved, checks⟩ :
          Except PolicyError Engine)
        = (policy.enabledRules.flatMap policy.settings.faultsOf).head? := by
    intro resolved hresolved
    obtain rfl := Policy.eq_of_resolve policy hresolved
    rw [failure?_bind_pure, Check.failure?_compileAll, Policy.enabled_settings]
  rw [Engine.ofPolicy, failure?_bind hchecks, Policy.faults, List.head?_append, Policy.resolve_eq]
  cases (policy.presetFaults ++ policy.batchFaults).head? <;> rfl

/-! ## Policies without a fault -/

theorem patternFault?_eq_none_iff {rule : Rule} {text : String} :
    patternFault? rule text = none ↔ ∃ pattern, Pattern.read text = .ok pattern := by
  rw [← failure?_eq_none_iff, ← failure?_read, WrittenPattern.read]
  cases Pattern.read text <;> simp [failure?]

theorem BoundarySettings.faults_eq_nil_iff {settings : BoundarySettings} :
    settings.faults = [] ↔ ∀ entry ∈ settings.repos, ∀ other ∈ entry.2.mayImport,
      other ∈ settings.repos.map Prod.fst := by
  simp only [faults, List.flatMap_eq_nil_iff, List.map_eq_nil_iff, List.filter_eq_nil_iff,
    decide_eq_true_eq, Decidable.not_not]

theorem ImportSettings.faults_eq_nil_iff {settings : ImportSettings} :
    settings.faults = [] ↔ ∀ text ∈ settings.deny ++ settings.allow,
      ∃ pattern, Pattern.read text = .ok pattern := by
  simp only [faults, List.filterMap_eq_nil_iff, patternFault?_eq_none_iff]

theorem TopicSettings.faults_eq_nil_iff {settings : TopicSettings} :
    settings.faults = [] ↔ ∃ pattern, Pattern.read settings.pattern = .ok pattern := by
  rw [faults, Option.toList_eq_nil_iff, patternFault?_eq_none_iff]

theorem AccessSettings.faults_eq_nil_iff {settings : AccessSettings} :
    settings.faults = [] ↔ 1 ≤ settings.maxDepth := by
  rw [faults]
  split <;> simp <;> omega

theorem enabled_faults_iff {σ : Type} {settings? : Option σ} {common : σ → CommonSettings}
    {faults : σ → List PolicyError} :
    ((settings?.map common).any (·.enabled) = true → settings?.elim [] faults = []) ↔
      ∀ settings, settings? = some settings → (common settings).enabled = true →
        faults settings = [] := by
  cases settings? <;> simp

/-- An engine can be made of the policy: its preset exists, its batches are not empty, and the
settings of the rules that are enabled are right. -/
structure Policy.Usable (policy : Policy) : Prop where
  preset : policy.preset = none ∨ policy.preset = some recommendedPreset
  batchSize : 1 ≤ policy.batchSize
  /-- Repositories import from repositories that exist. -/
  repoBoundaries : ∀ settings, policy.settings.repoBoundaries = some settings →
    settings.enabled = true → ∀ entry ∈ settings.repos, ∀ other ∈ entry.2.mayImport,
      other ∈ settings.repos.map Prod.fst
  forbiddenImports : ∀ settings, policy.settings.forbiddenImports = some settings →
    settings.enabled = true → ∀ text ∈ settings.deny ++ settings.allow,
      ∃ pattern, Pattern.read text = .ok pattern
  topicNaming : ∀ settings, policy.settings.topicNaming = some settings →
    settings.enabled = true → ∃ pattern, Pattern.read settings.pattern = .ok pattern
  dbTableAccess : ∀ settings, policy.settings.dbTableAccess = some settings →
    settings.enabled = true → 1 ≤ settings.maxDepth

namespace Policy

variable {policy : Policy}

theorem presetFaults_eq_nil_iff :
    policy.presetFaults = [] ↔ policy.preset = none ∨ policy.preset = some recommendedPreset := by
  rw [presetFaults]
  cases policy.preset with
  | none => simp
  | some name => by_cases hname : name = recommendedPreset <;> simp [hname]

theorem batchFaults_eq_nil_iff : policy.batchFaults = [] ↔ 1 ≤ policy.batchSize := by
  rw [batchFaults]
  split <;> simp <;> omega

theorem mem_enabledRules {rule : Rule} :
    rule ∈ policy.enabledRules ↔ policy.settings.isEnabled rule = true := by
  rw [← enabled_settings, RuleSet.enabled, List.mem_filter]
  have hall : rule ∈ Rule.all := by cases rule <;> decide
  simp [hall]

/-- **A policy has no fault exactly if it is usable.** -/
theorem faults_eq_nil_iff : policy.faults = [] ↔ policy.Usable := by
  rw [faults, List.append_eq_nil_iff, List.append_eq_nil_iff, presetFaults_eq_nil_iff,
    batchFaults_eq_nil_iff, List.flatMap_eq_nil_iff]
  -- usable settings are stated rule by rule, faults by going over the enabled rules
  simp only [mem_enabledRules]
  constructor
  · rintro ⟨⟨hpreset, hbatch⟩, hrules⟩
    exact {
      preset := hpreset
      batchSize := hbatch
      repoBoundaries := fun settings hsettings henabled => BoundarySettings.faults_eq_nil_iff.1
        (enabled_faults_iff.1 (hrules .repoBoundaries) settings hsettings henabled)
      forbiddenImports := fun settings hsettings henabled => ImportSettings.faults_eq_nil_iff.1
        (enabled_faults_iff.1 (hrules .forbiddenImports) settings hsettings henabled)
      topicNaming := fun settings hsettings henabled => TopicSettings.faults_eq_nil_iff.1
        (enabled_faults_iff.1 (hrules .topicNaming) settings hsettings henabled)
      dbTableAccess := fun settings hsettings henabled => AccessSettings.faults_eq_nil_iff.1
        (enabled_faults_iff.1 (hrules .dbTableAccess) settings hsettings henabled) }
  · intro husable
    refine ⟨⟨husable.preset, husable.batchSize⟩, fun rule => ?_⟩
    cases rule with
    | repoBoundaries =>
        exact enabled_faults_iff.2 fun settings hsettings henabled =>
          BoundarySettings.faults_eq_nil_iff.2 (husable.repoBoundaries settings hsettings henabled)
    | forbiddenImports =>
        exact enabled_faults_iff.2 fun settings hsettings henabled =>
          ImportSettings.faults_eq_nil_iff.2 (husable.forbiddenImports settings hsettings henabled)
    | topicNaming =>
        exact enabled_faults_iff.2 fun settings hsettings henabled =>
          TopicSettings.faults_eq_nil_iff.2 (husable.topicNaming settings hsettings henabled)
    | dbTableAccess =>
        exact enabled_faults_iff.2 fun settings hsettings henabled =>
          AccessSettings.faults_eq_nil_iff.2 (husable.dbTableAccess settings hsettings henabled)
    | errorTaxonomy => exact fun _ => rfl
    | contractSchemaValid => exact fun _ => rfl
    | dbProjection => exact fun _ => rfl

end Policy

/-! ## What an error names -/

def PolicyError.rule? : PolicyError → Option Rule
  | .invalidPattern rule _ _ => some rule
  | .invalidRule rule _ => some rule
  | _ => none

theorem rule?_of_patternFault? {rule : Rule} {text : String} {error : PolicyError}
    (h : patternFault? rule text = some error) : error.rule? = some rule := by
  rw [patternFault?] at h
  split at h <;> cases h
  rfl

theorem RuleSet.rule?_of_mem_faultsOf {rules : RuleSet} {rule : Rule} {error : PolicyError}
    (h : error ∈ rules.faultsOf rule) : error.rule? = some rule := by
  cases rule with
  | repoBoundaries =>
      cases hsettings : rules.repoBoundaries with
      | none => simp [faultsOf, hsettings] at h
      | some settings =>
          simp only [faultsOf, hsettings, Option.elim_some, BoundarySettings.faults, List.mem_flatMap,
            List.mem_map] at h
          obtain ⟨entry, -, unknown, -, rfl⟩ := h
          rfl
  | forbiddenImports =>
      cases hsettings : rules.forbiddenImports with
      | none => simp [faultsOf, hsettings] at h
      | some settings =>
          simp only [faultsOf, hsettings, Option.elim_some, ImportSettings.faults,
            List.mem_filterMap] at h
          obtain ⟨text, -, hfault⟩ := h
          exact rule?_of_patternFault? hfault
  | topicNaming =>
      cases hsettings : rules.topicNaming with
      | none => simp [faultsOf, hsettings] at h
      | some settings =>
          simp only [faultsOf, hsettings, Option.elim_some, TopicSettings.faults,
            Option.mem_toList] at h
          exact rule?_of_patternFault? h
  | dbTableAccess =>
      cases hsettings : rules.dbTableAccess with
      | none => simp [faultsOf, hsettings] at h
      | some settings =>
          simp only [faultsOf, hsettings, Option.elim_some, AccessSettings.faults] at h
          split at h
          · obtain rfl := List.mem_singleton.1 h
            rfl
          · cases h
  | errorTaxonomy => cases h
  | contractSchemaValid => cases h
  | dbProjection => cases h

namespace Policy

variable {policy : Policy}

/-- The preset and the batches belong to no rule. -/
theorem rule?_of_mem_early {fault : PolicyError}
    (h : fault ∈ policy.presetFaults ++ policy.batchFaults) : fault.rule? = none := by
  rcases List.mem_append.1 h with hfault | hfault
  · rw [presetFaults] at hfault
    split at hfault
    · split at hfault
      · cases hfault
      · obtain rfl := List.mem_singleton.1 hfault
        rfl
    · cases hfault
  · rw [batchFaults] at hfault
    split at hfault
    · obtain rfl := List.mem_singleton.1 hfault
      rfl
    · cases hfault

/-- A first fault that names a rule is the first one of the rule, and the rule is enabled. -/
theorem head?_faults_of_rule? {error : PolicyError} {rule : Rule}
    (h : policy.faults.head? = some error) (hrule : error.rule? = some rule) :
    rule ∈ policy.enabledRules ∧ (policy.settings.faultsOf rule).head? = some error := by
  rw [faults, List.head?_append] at h
  cases hearly : (policy.presetFaults ++ policy.batchFaults).head? with
  | some fault =>
      rw [hearly, Option.some_or, Option.some.injEq] at h
      subst h
      rw [rule?_of_mem_early (List.mem_of_mem_head? hearly)] at hrule
      cases hrule
  | none =>
      rw [hearly, Option.none_or, List.head?_flatMap] at h
      obtain ⟨other, hmem, hfault⟩ := List.exists_of_findSome?_eq_some h
      have hother := RuleSet.rule?_of_mem_faultsOf (List.mem_of_mem_head? hfault)
      obtain rfl : other = rule := Option.some.inj (hother.symm.trans hrule)
      exact ⟨hmem, hfault⟩

end Policy

/-- Of repositories in the order of their names, the first one that names an unknown one is
reported. -/
theorem BoundarySettings.known_before_fault {settings : BoundarySettings} {repo unknown : String}
    (hsorted : settings.repos.Pairwise (·.1 < ·.1))
    (h : settings.faults.head? = some (.invalidRule .repoBoundaries (.unknownRepo repo unknown))) :
    ∀ entry ∈ settings.repos, entry.1 < repo → ∀ other ∈ entry.2.mayImport,
      other ∈ settings.repos.map Prod.fst := by
  rw [faults, List.head?_flatMap, List.findSome?_eq_some_iff] at h
  obtain ⟨earlier, first, later, hrepos, hfirst, hearlier⟩ := h
  obtain rfl : first.1 = repo := by
    simp only [List.head?_map, Option.map_eq_some_iff, PolicyError.invalidRule.injEq,
      SettingsDefect.unknownRepo.injEq, true_and] at hfirst
    obtain ⟨_, -, hname, -⟩ := hfirst
    exact hname
  intro entry hentry hlt
  -- entries with smaller names stand before the first one with a fault
  have hmem : entry ∈ earlier := by
    rw [hrepos, List.pairwise_append, List.pairwise_cons] at hsorted
    rw [hrepos, List.mem_append, List.mem_cons] at hentry
    rcases hentry with hentry | rfl | hentry
    · exact hentry
    · exact absurd hlt (lt_irrefl _)
    · exact absurd hlt (hsorted.2.1.1 entry hentry).asymm
  have hnone := hearlier entry hmem
  simpa [List.head?_eq_none_iff, List.filter_eq_nil_iff] using hnone

/-! ## Making an engine -/

theorem Engine.of_ofPolicy_eq_ok {policy : Policy} {method : Sql.Method} {engine : Engine}
    (h : ofPolicy policy method = .ok engine) :
    engine.policy = { policy with rules := policy.settings } ∧
      engine.rules = policy.enabledRules := by
  obtain ⟨resolved, hresolved, hengine⟩ := exists_of_bind_eq_ok h
  obtain ⟨checks, hchecks, hengine⟩ := exists_of_bind_eq_ok hengine
  cases hengine
  obtain rfl := Policy.eq_of_resolve policy hresolved
  refine ⟨rfl, ?_⟩
  rw [rules, Check.map_rule_compileAll method hchecks, Policy.enabled_settings]

/-- **An engine is made of a policy, or the first fault of the policy is reported.**
* It is made exactly of the usable policies.
* Otherwise the error is the first fault: of the preset, of the batches, of the enabled rules.
* An error that names a rule names an enabled one, so rules that are disabled or have no settings
  cause none.
* Of repositories in the order of their names, the first one that is wrong is reported.
* The engine has the merged settings, and its rules are the enabled ones, in their order. The settings
  of each rule are those of the policy as a whole, or those of the preset if the policy has none.
* A policy that has been resolved before makes the same engine, or the same error. -/
theorem engine_is_made_or_first_fault_is_reported (policy : Policy) (method : Sql.Method) :
    ((∃ engine, Engine.ofPolicy policy method = .ok engine) ↔ policy.Usable) ∧
      (∀ error, Engine.ofPolicy policy method = .error error ↔
        policy.faults.head? = some error) ∧
      (∀ error rule, Engine.ofPolicy policy method = .error error → error.rule? = some rule →
        rule ∈ policy.enabledRules) ∧
      (∀ settings repo unknown, policy.settings.repoBoundaries = some settings →
        settings.repos.Pairwise (·.1 < ·.1) →
        Engine.ofPolicy policy method
          = .error (.invalidRule .repoBoundaries (.unknownRepo repo unknown)) →
        ∀ entry ∈ settings.repos, entry.1 < repo → ∀ other ∈ entry.2.mayImport,
          other ∈ settings.repos.map Prod.fst) ∧
      (∀ engine, Engine.ofPolicy policy method = .ok engine →
        engine.policy = { policy with rules := policy.settings } ∧
          engine.rules = policy.enabledRules) ∧
      (∀ rule, policy.settings.restrictedTo rule =
        if (policy.rules.common rule).isSome then policy.rules.restrictedTo rule
        else policy.base.restrictedTo rule) ∧
      ∀ resolved, policy.resolve = .ok resolved →
        Engine.ofPolicy resolved method = Engine.ofPolicy policy method := by
  have hfirst : ∀ error, Engine.ofPolicy policy method = .error error ↔
      policy.faults.head? = some error := by
    intro error
    rw [← failure?_eq_some_iff, failure?_ofPolicy]
  refine ⟨?_, hfirst, ?_, ?_, fun engine => Engine.of_ofPolicy_eq_ok,
    RuleSet.restrictedTo_mergedOver policy.rules policy.base, ?_⟩
  · rw [← failure?_eq_none_iff, failure?_ofPolicy, List.head?_eq_none_iff,
      Policy.faults_eq_nil_iff]
  · intro error rule herror hrule
    exact (Policy.head?_faults_of_rule? ((hfirst error).1 herror) hrule).1
  · intro settings repo unknown hsettings hsorted herror
    have hfault := (Policy.head?_faults_of_rule? ((hfirst _).1 herror) rfl).2
    rw [RuleSet.faultsOf, hsettings] at hfault
    exact BoundarySettings.known_before_fault hsorted hfault
  · intro resolved hresolved
    rw [Engine.ofPolicy, Engine.ofPolicy, Policy.resolve_resolve policy hresolved]

/-- Of these repositories, the last two name unknown ones. -/
def linkedRepos : BoundarySettings where
  repos := [("api", { mayImport := ["core"] }), ("core", {}),
    ("web", { mayImport := ["api", "db", "cache"] }), ("zip", { mayImport := ["tar"] })]

/-- A policy with several faults, one of them in settings that are disabled. -/
def faultyPolicy : Policy where
  name := "faulty"
  preset := some recommendedPreset
  rules := {
    repoBoundaries := some linkedRepos
    forbiddenImports := some { enabled := false, deny := ["("] }
    dbTableAccess := some { maxDepth := 0 } }

def disablingPolicy : Policy where
  name := "disabling"
  preset := some recommendedPreset
  rules := {
    forbiddenImports := some { enabled := false, deny := ["("] }
    dbTableAccess := some { enabled := false, maxDepth := 0 } }

theorem engine_of_disablingPolicy :
    Engine.ofPolicy faultyPolicy .keywords
        = .error (.invalidRule .repoBoundaries (.unknownRepo "web" "db")) ∧
      Rule.repoBoundaries ∈ faultyPolicy.enabledRules ∧
      linkedRepos.repos.Pairwise (·.1 < ·.1) ∧
      (∀ entry ∈ linkedRepos.repos, entry.1 < "web" → ∀ other ∈ entry.2.mayImport,
        other ∈ linkedRepos.repos.map Prod.fst) ∧
      (∃ engine, Engine.ofPolicy disablingPolicy .keywords = .ok engine ∧
        engine.rules = [.repoBoundaries, .topicNaming, .errorTaxonomy, .contractSchemaValid,
          .dbProjection]) ∧
      ∃ resolved, disablingPolicy.resolve = .ok resolved ∧
        Engine.ofPolicy resolved .keywords = Engine.ofPolicy disablingPolicy .keywords := by
  obtain ⟨-, hfirst, hrule, hnames, -⟩ :=
    engine_is_made_or_first_fault_is_reported faultyPolicy .keywords
  obtain ⟨-, -, -, -, hengine, -, hresolve⟩ :=
    engine_is_made_or_first_fault_is_reported disablingPolicy .keywords
  have herror := (hfirst (.invalidRule .repoBoundaries (.unknownRepo "web" "db"))).2
    (by decide +kernel)
  have hsorted : linkedRepos.repos.Pairwise (·.1 < ·.1) := by decide +kernel
  obtain ⟨engine, hmade⟩ : ∃ engine, Engine.ofPolicy disablingPolicy .keywords = .ok engine :=
    failure?_eq_none_iff.1 (by decide +kernel)
  obtain ⟨resolved, hresolved⟩ : ∃ resolved, disablingPolicy.resolve = .ok resolved :=
    failure?_eq_none_iff.1 (by decide +kernel)
  refine ⟨herror, hrule _ .repoBoundaries herror rfl, hsorted,
    hnames linkedRepos "web" "db" rfl hsorted herror, ⟨engine, hmade, ?_⟩,
    resolved, hresolved, hresolve resolved hresolved⟩
  rw [(hengine engine hmade).2]
  decide +kernel

end RepoPolicy
