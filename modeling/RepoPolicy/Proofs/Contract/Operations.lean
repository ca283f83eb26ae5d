import RepoPolicy.Check.Basic
import RepoPolicy.Inputs.Codec
import RepoPolicy.Proofs.Document.Mappings
import RepoPolicy.Proofs.Finding.Outcomes

set_option autoImplicit false

/-! # Operations are checked one by one

A contract is checked as a whole, operation by operation, or as one of the files of a run. All three
say the same (`OneByOne`), since a check of an operation sees only this operation and the tables of
its contract. So an edit of one operation does not show in what is found about the others, and this
holds for the check of tables and for that of columns (`operations_are_checked_one_by_one`). -/

namespace RepoPolicy

open Document

/-! ## Edits of contracts -/

namespace RepositoryContract

/-- The operations are in increasing order of their names. -/
def IsOrdered (contract : RepositoryContract) : Prop := Decoder.Ordered contract.operations

theorem isOrdered_of_decode {value : Value} {contract : RepositoryContract}
    (h : decode value = some contract) : contract.IsOrdered := by
  simp only [decode, Option.bind_eq_bind, Option.bind_eq_some_iff, Option.pure_def,
    Option.some.injEq] at h
  obtain ⟨fields, -, tables, -, operations, hoperations, rfl⟩ := h
  rcases Fields.of_withDefault_eq_some hoperations with rfl | ⟨written, hwritten⟩
  · exact List.Pairwise.nil
  · exact Decoder.ordered_of_mapping hwritten

end RepositoryContract

/-- One operation of a contract is added, changed or removed. -/
structure Edit where
  name : String
  /-- The operation that is put under the name; none is left there otherwise. -/
  operation : Option Operation

namespace Edit

def apply (edit : Edit) (contract : RepositoryContract) : RepositoryContract :=
  { contract with
    operations := match edit.operation with
      | some operation => Decoder.mapping.insert contract.operations (edit.name, operation)
      | none => contract.operations.filter (·.1 != edit.name) }

variable (edit : Edit) (contract : RepositoryContract)

theorem tables_apply : (edit.apply contract).tables = contract.tables := rfl

theorem isOrdered_apply (h : contract.IsOrdered) : (edit.apply contract).IsOrdered := by
  obtain ⟨name, operation⟩ := edit
  cases operation with
  | none => exact List.Pairwise.filter _ h
  | some operation => exact Decoder.mapping.ordered_insert h

theorem filter_apply :
    (edit.apply contract).operations.filter (·.1 != edit.name)
      = contract.operations.filter (·.1 != edit.name) := by
  obtain ⟨name, operation⟩ := edit
  cases operation with
  | none => simp [apply, List.filter_filter]
  | some operation => exact Decoder.mapping.filter_insert contract.operations (name, operation)

end Edit

/-! ## Checks of operations -/

section OneByOne

variable (check : RepositoryContract → String → Operation → Outcome)
  (whole : RepositoryContract → Outcome) (found : List RepositoryFile → List LocatedOutcome)

def outcomesIn (file : RepositoryFile) : List LocatedOutcome :=
  file.contract.operations.map fun (name, operation) =>
    ⟨file.filePath, name, check file.contract name operation⟩

/-- Checking a contract as a whole, and finding what is wrong in files, are both done by checking
each operation on its own. -/
structure OneByOne : Prop where
  errors : ∀ contract,
    (whole contract).errors
      = contract.operations.flatMap fun (name, operation) => (check contract name operation).errors
  warnings : ∀ contract,
    (whole contract).warnings
      = contract.operations.flatMap fun (name, operation) =>
          (check contract name operation).warnings
  valid : ∀ contract,
    (whole contract).isValid = true ↔
      ∀ entry ∈ contract.operations, (check contract entry.1 entry.2).isValid = true
  /-- What is found is what is not clean, in the order of the files and of the operations. -/
  exact : ∀ files,
    found files = (files.flatMap (outcomesIn check)).filter fun located => !located.outcome.isClean
  ordered : ∀ file, file.contract.IsOrdered → (found [file]).Pairwise (·.symbol < ·.symbol)
  /-- What is found in a file is all that is wrong with its contract. -/
  errors_found : ∀ file,
    (found [file]).flatMap (·.outcome.errors) = (whole file.contract).errors
  warnings_found : ∀ file,
    (found [file]).flatMap (·.outcome.warnings) = (whole file.contract).warnings
  /-- No edit of an operation shows in the outcomes of the others. -/
  frame : ∀ (edit : Edit) path contract,
    (outcomesIn check ⟨path, edit.apply contract⟩).filter (·.symbol != edit.name)
      = (outcomesIn check ⟨path, contract⟩).filter (·.symbol != edit.name)
  /-- The other files make no difference to what is found in a file. -/
  apart : ∀ front file back,
    found (front ++ file :: back) = found front ++ found [file] ++ found back
  /-- No edit of an operation shows in what is found about the others. -/
  frame_found : ∀ (edit : Edit) path contract,
    (found [⟨path, edit.apply contract⟩]).filter (·.symbol != edit.name)
      = (found [⟨path, contract⟩]).filter (·.symbol != edit.name)

end OneByOne

section Findings

variable (check : RepositoryContract → String → Operation → Outcome)

theorem operationFindings_eq (files : List RepositoryFile) :
    operationFindings check files
      = (files.flatMap (outcomesIn check)).filter fun located => !located.outcome.isClean := by
  rw [List.filter_flatMap]
  rfl

theorem operationFindings_singleton (file : RepositoryFile) :
    operationFindings check [file]
      = (outcomesIn check file).filter fun located => !located.outcome.isClean := by
  rw [operationFindings_eq, List.flatMap_singleton]

theorem operationFindings_append (files others : List RepositoryFile) :
    operationFindings check (files ++ others)
      = operationFindings check files ++ operationFindings check others :=
  List.flatMap_append

theorem pairwise_operationFindings {file : RepositoryFile} (h : file.contract.IsOrdered) :
    (operationFindings check [file]).Pairwise (·.symbol < ·.symbol) := by
  rw [operationFindings_singleton]
  exact List.Pairwise.filter _ (List.pairwise_map.2 h)

/-- Outcomes that are clean do not add to what is collected from all. -/
theorem flatMap_filter_isClean {messages : Outcome → List String}
    (h : ∀ outcome, outcome.isClean = true → messages outcome = [])
    (outcomes : List LocatedOutcome) :
    (outcomes.filter fun located => !located.outcome.isClean).flatMap (messages ·.outcome)
      = outcomes.flatMap (messages ·.outcome) := by
  induction outcomes with
  | nil => rfl
  | cons located outcomes ih =>
      cases hclean : located.outcome.isClean with
      | true => simp [hclean, h _ hclean, ih]
      | false => simp [hclean, ih]

theorem filter_outcomesIn (file : RepositoryFile) (name : String) :
    (outcomesIn check file).filter (·.symbol != name)
      = (file.contract.operations.filter (·.1 != name)).map fun (other, operation) =>
          ⟨file.filePath, other, check file.contract other operation⟩ := by
  rw [outcomesIn, List.filter_map]
  rfl

end Findings

/-- An edit of an operation leaves the outcomes of the others, since the tables stay the same. -/
theorem filter_outcomesIn_apply (check : List String → String → Operation → Outcome) (edit : Edit)
    (path : String) (contract : RepositoryContract) :
    (outcomesIn (fun contract => check contract.tables) ⟨path, edit.apply contract⟩).filter
        (·.symbol != edit.name)
      = (outcomesIn (fun contract => check contract.tables) ⟨path, contract⟩).filter
          (·.symbol != edit.name) := by
  rw [filter_outcomesIn, filter_outcomesIn, edit.filter_apply, edit.tables_apply]

/-- **One by one.** A check that gives finished outcomes and sees only the tables of the contract is
done so. -/
theorem oneByOne {check : List String → String → Operation → Outcome}
    (h : ∀ tables name operation, (check tables name operation).IsFinished) (subject : String) :
    OneByOne (fun contract => check contract.tables)
      (fun contract => Outcome.combined subject
        (contract.operations.map fun (name, operation) => check contract.tables name operation))
      (operationFindings fun contract => check contract.tables) where
  errors contract := by
    rw [Outcome.errors_combined, List.flatMap_map]
  warnings contract := by
    rw [Outcome.warnings_combined, List.flatMap_map]
  valid contract := by
    have hfinished : ∀ outcome ∈ contract.operations.map fun (name, operation) =>
        check contract.tables name operation, outcome.IsFinished :=
      List.forall_mem_map.2 fun entry _ => h contract.tables entry.1 entry.2
    rw [Outcome.isValid_combined_iff _ _ hfinished, List.forall_mem_map]
  exact files := operationFindings_eq _ files
  ordered file hordered := pairwise_operationFindings _ hordered
  errors_found file := by
    rw [operationFindings_singleton, flatMap_filter_isClean fun _ h => (Outcome.isClean_iff.1 h).1,
      outcomesIn, List.flatMap_map, Outcome.errors_combined, List.flatMap_map]
  warnings_found file := by
    rw [operationFindings_singleton, flatMap_filter_isClean fun _ h => (Outcome.isClean_iff.1 h).2,
      outcomesIn, List.flatMap_map, Outcome.warnings_combined, List.flatMap_map]
  frame := filter_outcomesIn_apply check
  apart front file back := by
    rw [operationFindings_append, ← List.singleton_append, operationFindings_append,
      List.append_assoc]
  frame_found edit path contract := by
    -- whether an outcome is clean does not depend on the edit, so it can be looked at last
    rw [operationFindings_singleton, operationFindings_singleton, List.filter_comm,
      filter_outcomesIn_apply]
    exact List.filter_comm _ _ _

theorem isFinished_checkTableAccess (analyzer : Sql.Analyzer) (tables : List String) (name : String)
    (operation : Operation) :
    (Contract.checkTableAccess analyzer tables name operation).IsFinished :=
  Outcome.isFinished_finish _ _

theorem isFinished_checkProjection (name : String) (operation : Operation) :
    (Contract.checkProjection name operation).IsFinished := by
  rw [Contract.checkProjection]
  split <;> exact Outcome.isFinished_finish _ _

/-- **Operations are checked one by one**, for their tables by each method and for their columns:
as parts of their contract, on their own, and among all inputs of a run. A contract that was read
lists them in the order of their names, and an edit keeps this order. -/
theorem operations_are_checked_one_by_one (inputs : Inputs) (access : AccessSettings)
    (method : Sql.Method) (projection : ProjectionSettings) :
    OneByOne
        (fun contract => Contract.checkTableAccess ⟨method, access.maxDepth⟩ contract.tables)
        (Contract.checkContractAccess ⟨method, access.maxDepth⟩)
        (fun files =>
          (Check.dbTableAccess access method).findings { inputs with repositories := files }) ∧
      OneByOne (fun _ => Contract.checkProjection) Contract.checkContractProjection
        (fun files =>
          (Check.dbProjection projection).findings { inputs with repositories := files }) ∧
      ∀ value contract, RepositoryContract.decode value = some contract →
        contract.IsOrdered ∧ ∀ edit : Edit, (edit.apply contract).IsOrdered := by
  refine ⟨oneByOne (isFinished_checkTableAccess ⟨method, access.maxDepth⟩) "table access",
    oneByOne (fun _ => isFinished_checkProjection) "projection", ?_⟩
  intro value contract hread
  have hordered : contract.IsOrdered := RepositoryContract.isOrdered_of_decode hread
  exact ⟨hordered, fun edit => edit.isOrdered_apply contract hordered⟩

end RepoPolicy
