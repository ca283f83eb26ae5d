import RepoPolicy.Policy.Error
import RepoPolicy.Policy.Settings

set_option autoImplicit false

/-! # Policies

A policy names the repository that it is for and holds the settings of its rules. It may extend a
preset, whose settings count for the rules that it has none for itself. -/

namespace RepoPolicy

def defaultBatchSize : Nat := 100

def recommendedPreset : String := "crossguard:recommended"

structure Policy where
  name : String
  repoId : String := ""
  rootPath : String := "."
  batchSize : Nat := defaultBatchSize
  /-- The name of the preset that the policy extends. -/
  preset : Option String := none
  rules : RuleSet := {}
  deriving DecidableEq, Repr

namespace Policy

def presetRules (name : String) : Except PolicyError RuleSet :=
  if name = recommendedPreset then .ok .recommended else .error (.unknownPreset name)

def extendedRules (policy : Policy) : Except PolicyError RuleSet :=
  match policy.preset with
  | some name => do return policy.rules.mergedOver (← presetRules name)
  | none => .ok policy.rules

/-- The policy with the rules of its preset, if it is right. -/
def resolve (policy : Policy) : Except PolicyError Policy := do
  let rules ← policy.extendedRules
  if policy.batchSize = 0 then .error (.invalidBatchSize policy.batchSize)
  else .ok { policy with rules }

end Policy

end RepoPolicy
