import RepoPolicy.Proofs.Contract.TableAccess
import RepoPolicy.Proofs.Sql.TableNames

set_option autoImplicit false

/-! # What keywords miss

Finding tables by keywords is meant to be no more permissive than finding them in the syntax tree:
an operation that passes by its keywords should pass by its tree. It does exactly if each table of
the tree is named after a keyword (`keywords_permit_no_more_iff`). The tables of
`DELETE ... USING` are not, and such an operation passes by its keywords alone
(`keywords_miss_using`). -/

namespace RepoPolicy.Contract

open RepoPolicy.Text RepoPolicy.Sql

/-- Where no `WITH` clause is seen, no names are bound. -/
theorem cteNames_eq_nil {normalized : String} (h : unsupported normalized = []) :
    cteNames normalized = [] := by
  rw [unsupported, List.append_eq_nil_iff] at h
  by_cases hclause : occursIn withClause normalized.toList = true
  · simp [hclause] at h
  · rw [cteNames, if_neg hclause]

/-- Of a text that can be certified, keywords find the tables unless its parentheses are nested too
deeply. -/
theorem scanReferences_eq_ok_iff {sql : String} {limit : Nat} {references : References}
    (hcertifiable : ¬Uncertifiable sql) :
    scanReferences sql limit = .ok references ↔
      deepestLevel (normalForm sql.toList) ≤ limit ∧
        references = ⟨NameSet.ofList (scannedTables (normalForm sql.toList)), []⟩ := by
  obtain ⟨hempty, hquote, hunsupported⟩ : Sql.normalize sql ≠ "" ∧ openQuote sql = none ∧
      unsupported (Sql.normalize sql) = [] := by
    simpa [Uncertifiable] using hcertifiable
  rw [scanReferences, toList_normalize, cteNames_eq_nil hunsupported, hquote]
  simp only [String.isEmpty_iff, hempty, if_false]
  by_cases hdeep : deepestLevel (normalForm sql.toList) > limit
  · rw [if_pos hdeep]
    simp only [reduceCtorEq, false_iff, not_and]
    intro hle
    omega
  · rw [if_neg hdeep, Except.ok.injEq, eq_comm]
    exact ⟨fun h => ⟨Nat.le_of_not_lt hdeep, h⟩, fun h => h.2⟩

/-- All tables found by keywords are declared exactly if all tables that the text names are. -/
theorem covers_scannedTables_iff {declared : List String} {text : List Char} :
    Covers declared ⟨NameSet.ofList (scannedTables text), []⟩ ↔
      ∀ table, NamesTable text table → canonicalTable table ∈ declared.map canonicalTable := by
  have hreal : ∀ table, table ∈ References.realTables ⟨NameSet.ofList (scannedTables text), []⟩ ↔
      NamesTable text table := by
    intro table
    rw [← mem_scannedTables_iff, References.realTables, List.mem_filter, NameSet.mem_ofList]
    simp
  rw [Covers]
  constructor
  · intro h table hnamed
    exact h table ((hreal table).2 hnamed)
  · intro h table htable
    exact h table ((hreal table).1 htable)

/-- By its tree, an operation passes exactly if its text can be certified and the tables of the tree
are declared. -/
theorem syntaxTree_isValid_iff {operation : Operation} {limit : Nat} {tree : References}
    (hparse : parseReferences operation.sql limit = .ok tree) (name : String)
    (declared : List String) :
    (checkTableAccess ⟨.syntaxTree, limit⟩ declared name operation).isValid = true ↔
      ¬Uncertifiable operation.sql ∧ Covers declared tree := by
  rw [checkTableAccess_isValid_iff, references_syntaxTree, hparse]
  simp

/-- By its keywords, an operation passes exactly if its text can be certified, is not nested too
deeply, and names only declared tables. -/
theorem keywords_isValid_iff (operation : Operation) (limit : Nat) (name : String)
    (declared : List String) :
    (checkTableAccess ⟨.keywords, limit⟩ declared name operation).isValid = true ↔
      ¬Uncertifiable operation.sql ∧ deepestLevel (normalForm operation.sql.toList) ≤ limit ∧
        ∀ named, NamesTable (normalForm operation.sql.toList) named →
          canonicalTable named ∈ declared.map canonicalTable := by
  rw [checkTableAccess_isValid_iff, references_keywords]
  refine and_congr_right fun hcertifiable => ?_
  simp only [scanReferences_eq_ok_iff hcertifiable, and_assoc, exists_and_left, exists_eq_left,
    covers_scannedTables_iff]

/-- **When keywords permit no more than the syntax tree.** For an operation whose tables are found
in its tree, passing by keywords implies passing by the tree for all names and all declared tables
exactly if keywords cannot pass it at all, because its text cannot be certified or its parentheses
are nested too deeply, or each table of the tree is named in the text after a keyword. -/
theorem keywords_permit_no_more_iff {operation : Operation} {limit : Nat} {tree : References}
    (hparse : parseReferences operation.sql limit = .ok tree) :
    (∀ name declared,
        (checkTableAccess ⟨.keywords, limit⟩ declared name operation).isValid = true →
          (checkTableAccess ⟨.syntaxTree, limit⟩ declared name operation).isValid = true) ↔
      Uncertifiable operation.sql ∨ limit < deepestLevel (normalForm operation.sql.toList) ∨
        ∀ table ∈ tree.realTables, ∃ named, NamesTable (normalForm operation.sql.toList) named ∧
          canonicalTable named = canonicalTable table := by
  constructor
  · intro hno
    by_cases hcertifiable : Uncertifiable operation.sql
    · exact Or.inl hcertifiable
    by_cases hdeep : limit < deepestLevel (normalForm operation.sql.toList)
    · exact Or.inr (Or.inl hdeep)
    refine Or.inr (Or.inr ?_)
    -- Declare just what the text names: keywords pass the operation, and so the tree does.
    have hpass : (checkTableAccess ⟨.keywords, limit⟩
        (scannedTables (normalForm operation.sql.toList)) "" operation).isValid = true := by
      rw [keywords_isValid_iff]
      refine ⟨hcertifiable, Nat.le_of_not_lt hdeep, ?_⟩
      intro named hnamed
      exact List.mem_map_of_mem (mem_scannedTables_iff.2 hnamed)
    have hcovers := ((syntaxTree_isValid_iff hparse _ _).1 (hno _ _ hpass)).2
    intro table htable
    obtain ⟨named, hnamed, hsame⟩ := List.mem_map.1 (hcovers table htable)
    exact ⟨named, mem_scannedTables_iff.1 hnamed, hsame⟩
  · intro hcases name declared hpass
    obtain ⟨hcertifiable, hdepth, hdeclared⟩ := (keywords_isValid_iff operation limit name declared).1 hpass
    rcases hcases with huncertifiable | hdeep | hnamed
    · exact absurd huncertifiable hcertifiable
    · omega
    · rw [syntaxTree_isValid_iff hparse]
      refine ⟨hcertifiable, ?_⟩
      intro table htable
      obtain ⟨named, hnames, hsame⟩ := hnamed table htable
      rw [← hsame]
      exact hdeclared named hnames

theorem keywords_permit_no_more_on_join :
    parseReferences "SELECT x FROM a, b AS t JOIN c ON x = y" 64 = .ok ⟨["a", "b", "c"], []⟩ ∧
      ∀ name declared,
        (checkTableAccess ⟨.keywords, 64⟩ declared name
            { sql := "SELECT x FROM a, b AS t JOIN c ON x = y" }).isValid = true →
          (checkTableAccess ⟨.syntaxTree, 64⟩ declared name
            { sql := "SELECT x FROM a, b AS t JOIN c ON x = y" }).isValid = true := by
  have hparse : parseReferences "SELECT x FROM a, b AS t JOIN c ON x = y" 64
      = .ok ⟨["a", "b", "c"], []⟩ := by decide +kernel
  have hscan : scannedTables (normalForm "SELECT x FROM a, b AS t JOIN c ON x = y".toList)
      = ["a", "b", "c"] := by decide +kernel
  have hnamed : ∀ table ∈ References.realTables ⟨["a", "b", "c"], []⟩,
      ∃ named, NamesTable (normalForm "SELECT x FROM a, b AS t JOIN c ON x = y".toList) named ∧
        canonicalTable named = canonicalTable table := by
    intro table htable
    rw [References.realTables, List.mem_filter] at htable
    have hmem := htable.1
    rw [← hscan] at hmem
    exact ⟨table, mem_scannedTables_iff.1 hmem, rfl⟩
  exact ⟨hparse, (@keywords_permit_no_more_iff { sql := "SELECT x FROM a, b AS t JOIN c ON x = y" }
    64 _ hparse).2 (Or.inr (Or.inr hnamed))⟩

/-- Keywords miss the tables of `USING`, and so pass an operation that its tree does not pass. -/
theorem keywords_miss_using :
    parseReferences "DELETE FROM a USING b" 64 = .ok ⟨["a", "b"], []⟩ ∧
      (checkTableAccess ⟨.keywords, 64⟩ ["a"] "o"
          { sql := "DELETE FROM a USING b", mode := .write }).isValid = true ∧
      (checkTableAccess ⟨.syntaxTree, 64⟩ ["a"] "o"
          { sql := "DELETE FROM a USING b", mode := .write }).errors
        = ["operation 'o' references undeclared table 'b' (allowed: [a])"] := by
  decide +kernel

end RepoPolicy.Contract
