import RepoPolicy.Contract.TableAccess
import RepoPolicy.Proofs.Finding.Outcomes
import RepoPolicy.Proofs.Text.NameSets

set_option autoImplicit false

/-! # When access to tables is certified

The text of an operation is `Uncertifiable` if no method gets to see it. Of all other texts the
tables are found, and an operation passes exactly if they are declared
(`checkTableAccess_isValid_iff`). -/

namespace RepoPolicy.Contract

open RepoPolicy.Text RepoPolicy.Sql
open RepoPolicy.Outcome (isValid_ofErrors)

theorem references_syntaxTree (sql : String) (limit : Nat) :
    Analyzer.references ⟨.syntaxTree, limit⟩ sql = parseReferences sql limit := rfl

theorem references_keywords (sql : String) (limit : Nat) :
    Analyzer.references ⟨.keywords, limit⟩ sql = scanReferences sql limit := rfl

/-- No method gets to see the text: it is empty but for comments, it leaves a quote open, or it
shows a construct that is never certified. -/
def Uncertifiable (sql : String) : Prop :=
  Sql.normalize sql = "" ∨ openQuote sql ≠ none ∨ unsupported (Sql.normalize sql) ≠ []

def Covers (declared : List String) (references : References) : Prop :=
  ∀ table ∈ references.realTables, canonicalTable table ∈ declared.map canonicalTable

theorem undeclaredTables_eq_nil_iff {references : References} {declared : List String} :
    undeclaredTables references declared = [] ↔ Covers declared references := by
  rw [undeclaredTables, NameSet.diff_eq_nil_iff]
  constructor
  · intro h table htable
    have hname : canonicalTable table ∈ canonicalTables references.realTables :=
      NameSet.mem_ofList.2 (List.mem_map_of_mem htable)
    exact NameSet.mem_ofList.1 (h _ hname)
  · intro h name hname
    obtain ⟨table, htable, rfl⟩ := List.mem_map.1 (NameSet.mem_ofList.1 hname)
    exact NameSet.mem_ofList.2 (h table htable)

/-- Nothing is wrong with an operation exactly if its text can be certified, and its tables are
found and declared. -/
theorem accessProblems_eq_nil_iff {analyzer : Analyzer} {sql : String} {declared : List String} :
    accessProblems analyzer sql declared = [] ↔
      ¬Uncertifiable sql ∧
        ∃ references, analyzer.references sql = .ok references ∧ Covers declared references := by
  rw [accessProblems, Uncertifiable]
  simp only [String.isEmpty_iff]
  by_cases hempty : Sql.normalize sql = ""
  · simp [hempty]
  · rw [if_neg hempty]
    cases hquote : openQuote sql with
    | some quote => simp
    | none =>
        cases hunsupported : unsupported (Sql.normalize sql) with
        | cons construct constructs => simp
        | nil =>
            cases hreferences : analyzer.references sql with
            | error cause => simp
            | ok references => simp [hempty, undeclaredTables_eq_nil_iff]

theorem checkTableAccess_isValid_iff {analyzer : Analyzer} {declared : List String} {name : String}
    {operation : Operation} :
    (checkTableAccess analyzer declared name operation).isValid = true ↔
      ¬Uncertifiable operation.sql ∧
        ∃ references, analyzer.references operation.sql = .ok references ∧
          Covers declared references := by
  rw [← accessProblems_eq_nil_iff, checkTableAccess, isValid_ofErrors, List.isEmpty_iff,
    List.map_eq_nil_iff]

end RepoPolicy.Contract
