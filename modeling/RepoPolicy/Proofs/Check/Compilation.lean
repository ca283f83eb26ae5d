import RepoPolicy.Run.Engine

set_option autoImplicit false

/-! # Checks have the severity of their settings

An engine holds checks that were made from the settings of its policy, one rule after another. So
each check has the severity that the settings of its rule say (`Engine.severity_of_mem_checks`), and
the settings of a policy count before those of its preset (`Engine.common_of_ofPolicy`). -/

namespace RepoPolicy

/-! ## Results -/

theorem exists_of_bind_eq_ok {ε α β : Type} {result : Except ε α} {next : α → Except ε β} {b : β}
    (h : (result >>= next) = .ok b) : ∃ a, result = .ok a ∧ next a = .ok b := by
  cases result with
  | error _ => cases h
  | ok a => exact ⟨a, rfl, h⟩

theorem exists_of_map_eq_ok {ε α β : Type} {result : Except ε α} {f : α → β} {b : β}
    (h : result.map f = .ok b) : ∃ a, result = .ok a ∧ f a = b := by
  cases result with
  | error _ => cases h
  | ok a => exact ⟨a, rfl, Except.ok.inj h⟩

theorem mem_of_mapM_id {ε α : Type} {results : List (Except ε α)} {values : List α} {value : α}
    (h : results.mapM id = .ok values) (hvalue : value ∈ values) : .ok value ∈ results := by
  induction results generalizing values with
  | nil =>
      cases h
      simp at hvalue
  | cons first rest ih =>
      rw [List.mapM_cons] at h
      obtain ⟨a, hfirst, h⟩ := exists_of_bind_eq_ok h
      obtain ⟨others, hrest, h⟩ := exists_of_bind_eq_ok h
      cases h
      rcases List.mem_cons.1 hvalue with rfl | hother
      · exact List.mem_cons.2 (.inl hfirst.symm)
      · exact List.mem_cons_of_mem _ (ih hrest hother)

/-! ## Checks -/

theorem ImportCheck.settings_of_ofSettings {settings : ImportSettings} {check : ImportCheck}
    (h : ofSettings settings = .ok check) : check.settings = settings := by
  obtain ⟨_, -, h⟩ := exists_of_bind_eq_ok h
  obtain ⟨_, -, h⟩ := exists_of_bind_eq_ok h
  cases h
  rfl

theorem TopicCheck.settings_of_ofSettings {settings : TopicSettings} {check : TopicCheck}
    (h : ofSettings settings = .ok check) : check.settings = settings := by
  obtain ⟨_, -, h⟩ := exists_of_bind_eq_ok h
  cases h
  rfl

namespace Check

variable {method : Sql.Method} {rules : RuleSet} {check : Check}

/-- The check that is made for a rule has the severity of the settings of the rule. -/
theorem of_compile? {rule : Rule} (h : compile? method rules rule = some (.ok check)) :
    check.rule = rule ∧
      ∃ settings, rules.common rule = some settings ∧ check.severity = settings.severity := by
  rw [compile?, Option.ite_none_right_eq_some] at h
  cases rule
  all_goals
    obtain ⟨settings, hsettings, hok⟩ := Option.map_eq_some_iff.1 h.2
    suffices hcheck : check.rule = _ ∧ check.severity = settings.severity from
      ⟨hcheck.1, settings.toCommonSettings, by rw [RuleSet.common, hsettings]; rfl, hcheck.2⟩
  case repoBoundaries =>
    rw [ofBoundaries] at hok
    split at hok <;> cases hok
    exact ⟨rfl, rfl⟩
  case forbiddenImports =>
    obtain ⟨made, hread, rfl⟩ := exists_of_map_eq_ok hok
    obtain rfl := ImportCheck.settings_of_ofSettings hread
    exact ⟨rfl, rfl⟩
  case topicNaming =>
    obtain ⟨made, hread, rfl⟩ := exists_of_map_eq_ok hok
    obtain rfl := TopicCheck.settings_of_ofSettings hread
    exact ⟨rfl, rfl⟩
  case dbTableAccess =>
    rw [ofAccess] at hok
    split at hok <;> cases hok
    exact ⟨rfl, rfl⟩
  -- The settings of the others are always right.
  all_goals
    cases hok
    exact ⟨rfl, rfl⟩

theorem severity_of_mem_compileAll {checks : List Check} (h : compileAll method rules = .ok checks)
    (hcheck : check ∈ checks) :
    ∃ settings, rules.common check.rule = some settings ∧
      check.severity = settings.severity := by
  obtain ⟨rule, -, hmade⟩ := List.mem_filterMap.1 (mem_of_mapM_id h hcheck)
  obtain ⟨rfl, hsettings⟩ := of_compile? hmade
  exact hsettings

end Check

/-! ## Policies -/

/-- The settings of the first set count, and those of the second for rules without. -/
theorem RuleSet.common_mergedOver (rules base : RuleSet) (rule : Rule) :
    (rules.mergedOver base).common rule = (rules.common rule).or (base.common rule) := by
  cases rule <;> exact Option.map_or

namespace Engine

variable {policy : Policy} {method : Sql.Method} {engine : Engine}

theorem of_ofPolicy (h : ofPolicy policy method = .ok engine) :
    policy.extendedRules = .ok engine.policy.rules ∧
      Check.compileAll method engine.policy.rules = .ok engine.checks := by
  obtain ⟨resolved, hresolved, h⟩ := exists_of_bind_eq_ok h
  obtain ⟨checks, hchecks, h⟩ := exists_of_bind_eq_ok h
  cases h
  obtain ⟨rules, hrules, h⟩ := exists_of_bind_eq_ok hresolved
  split at h <;> cases h
  exact ⟨hrules, hchecks⟩

/-- The settings of a policy count in its engine. -/
theorem common_of_ofPolicy (h : ofPolicy policy method = .ok engine) {rule : Rule}
    {settings : CommonSettings} (hsettings : policy.rules.common rule = some settings) :
    engine.policy.rules.common rule = some settings := by
  have hrules := (of_ofPolicy h).1
  rw [Policy.extendedRules] at hrules
  split at hrules
  · obtain ⟨base, -, hmerged⟩ := exists_of_bind_eq_ok hrules
    rw [← Except.ok.inj hmerged, RuleSet.common_mergedOver, hsettings, Option.some_or]
  · rw [← Except.ok.inj hrules]
    exact hsettings

/-- **Each check of an engine has the severity that the policy gives its rule.** -/
theorem severity_of_mem_checks (h : ofPolicy policy method = .ok engine) {check : Check}
    (hcheck : check ∈ engine.checks) :
    ∃ settings, engine.policy.rules.common check.rule = some settings ∧
      check.severity = settings.severity :=
  Check.severity_of_mem_compileAll (of_ofPolicy h).2 hcheck

end Engine

end RepoPolicy
