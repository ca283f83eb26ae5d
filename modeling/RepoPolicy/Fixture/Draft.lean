import RepoPolicy.Inputs
import RepoPolicy.Run.Engine

set_option autoImplicit false

/-! # Drafts

Policies, inputs and contracts for trying out rules, put together step by step. -/

namespace RepoPolicy

/-! ## Policies -/

/-- A policy that is being put together, and how tables are to be found. -/
structure PolicyDraft where
  policy : Policy
  capability : Sql.Capability := .detect
  deriving DecidableEq, Repr

namespace PolicyDraft

def named (name : String) : PolicyDraft := { policy := { name, repoId := "test-repo" } }

def mapRules (draft : PolicyDraft) (change : RuleSet → RuleSet) : PolicyDraft :=
  { draft with policy := { draft.policy with rules := change draft.policy.rules } }

def withRepoId (draft : PolicyDraft) (repoId : String) : PolicyDraft :=
  { draft with policy := { draft.policy with repoId } }

def withBatchSize (draft : PolicyDraft) (batchSize : Nat) : PolicyDraft :=
  { draft with policy := { draft.policy with batchSize } }

def extendingRecommended (draft : PolicyDraft) : PolicyDraft :=
  { draft with policy := { draft.policy with preset := some recommendedPreset } }

/-- Find tables by keywords only. -/
def keywordsOnly (draft : PolicyDraft) : PolicyDraft :=
  { draft with capability := .keywordsOnly }

def forbidImports (draft : PolicyDraft) (deny : List String) : PolicyDraft :=
  draft.mapRules fun rules => { rules with forbiddenImports := some { deny } }

def checkTopics (draft : PolicyDraft) : PolicyDraft :=
  draft.mapRules fun rules => { rules with topicNaming := some {} }

def forbidRaises (draft : PolicyDraft) (forbiddenRaises : List String) : PolicyDraft :=
  draft.mapRules fun rules => { rules with errorTaxonomy := some { forbiddenRaises } }

def requireFields (draft : PolicyDraft) (requiredFields : List String) : PolicyDraft :=
  draft.mapRules fun rules => { rules with contractSchemaValid := some { requiredFields } }

def checkDatabases (draft : PolicyDraft) : PolicyDraft :=
  draft.mapRules fun rules => { rules with dbTableAccess := some {}, dbProjection := some {} }

def withRules (draft : PolicyDraft) (rules : RuleSet) : PolicyDraft := draft.mapRules fun _ => rules

def engine (draft : PolicyDraft) : Except PolicyError Engine :=
  Engine.ofPolicy draft.policy draft.capability.method

end PolicyDraft

/-! ## Contracts -/

namespace RepositoryContract

/-- Put an operation under a name into a list that is sorted by name. -/
def insertOperation (name : String) (operation : Operation) :
    List (String × Operation) → List (String × Operation)
  | [] => [(name, operation)]
  | first :: rest =>
    if name < first.1 then (name, operation) :: first :: rest
    else if name = first.1 then (name, operation) :: rest
    else first :: insertOperation name operation rest

/-- Add an operation. It takes the place of one with the same name. -/
def withOperation (contract : RepositoryContract) (name : String) (operation : Operation) :
    RepositoryContract :=
  { contract with operations := insertOperation name operation contract.operations }

def reading (contract : RepositoryContract) (name sql : String) (fields : List String) :
    RepositoryContract :=
  contract.withOperation name { sql, mode := .read, returns := { fields := some fields } }

def writing (contract : RepositoryContract) (name sql : String) : RepositoryContract :=
  contract.withOperation name { sql, mode := .write }

end RepositoryContract

/-! ## Inputs -/

namespace Inputs

def withImport (inputs : Inputs) (repo filePath module : String) : Inputs :=
  { inputs with imports := inputs.imports ++ [{ repo, filePath, module }] }

def withTopic (inputs : Inputs) (filePath name : String) : Inputs :=
  { inputs with topics := inputs.topics ++ [{ filePath, name, role := .produce }] }

def withRaise (inputs : Inputs) (filePath errorType : String) : Inputs :=
  { inputs with errors := inputs.errors ++ [{ filePath, errorType, kind := .raise }] }

/-- Add a contract. A value that is no record makes a contract without fields. -/
def withContract (inputs : Inputs) (filePath name : String) (fields : Document.Value) : Inputs :=
  let fields := match fields with
    | .record fields => fields
    | _ => []
  { inputs with contracts := inputs.contracts ++ [{ filePath, name, fields }] }

def withRepository (inputs : Inputs) (filePath : String) (contract : RepositoryContract) : Inputs :=
  { inputs with repositories := inputs.repositories ++ [{ filePath, contract }] }

end Inputs

end RepoPolicy
