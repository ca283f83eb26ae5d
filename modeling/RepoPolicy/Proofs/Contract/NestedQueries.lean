import RepoPolicy.Proofs.Contract.KeywordCoverage
import RepoPolicy.Proofs.Sql.Grammar.Selectless
import RepoPolicy.Proofs.Sql.TokenwiseForm
import RepoPolicy.Proofs.Sql.Walks

set_option autoImplicit false

/-! # Queries inside queries and the check of tables

A text with a query inside is meant to be refused by either method. It is exactly if no method gets
to see it (`nested_queries_are_refused_iff`), and this is so if some inner query starts with `SELECT`
and the text is read by tokens: the parser finds such a query only behind an opening parenthesis with
that word next to it (`statements_selectless`), and the two stand side by side in the normal form
(`occursIn_subqueryOpening`), where they are refused. A table of values inside a query is passed, be
it in parentheses or bound by a `WITH` clause under a name that the keywords do not see
(`table_of_values_is_passed`). -/

namespace RepoPolicy.Contract

open RepoPolicy.Text RepoPolicy.Sql

/-- With a high enough limit, the tables of statements are found. -/
theorem exists_parseReferences_eq_ok {sql : String} {statements : List Statement}
    (hparse : parseStatements sql = .ok statements) (hne : statements ≠ []) :
    ∃ limit references, parseReferences sql limit = .ok references := by
  obtain ⟨limit, hlimit⟩ : ∃ limit,
      Collector.start.depth + (statements.flatMap Statement.walk).length ≤ limit :=
    ⟨_, Nat.le_refl _⟩
  obtain ⟨last, hlast⟩ := exists_collect_of_length_le hlimit
  refine ⟨limit, last.references, ?_⟩
  rw [parseReferences, hparse]
  cases statements with
  | nil => exact absurd rfl hne
  | cons statement statements =>
      simp only [treeReferences, hlast]
      rfl

/-- With a high enough limit, the tables of a text that can be certified are found. -/
theorem exists_scanReferences_eq_ok {sql : String} (hcertifiable : ¬Uncertifiable sql) :
    ∃ limit references, scanReferences sql limit = .ok references := by
  obtain ⟨limit, hlimit⟩ : ∃ limit, deepestLevel (normalForm sql.toList) ≤ limit :=
    ⟨_, Nat.le_refl _⟩
  refine ⟨limit, ⟨NameSet.ofList (scannedTables (normalForm sql.toList)), []⟩, ?_⟩
  rw [scanReferences_eq_ok_iff hcertifiable]
  exact ⟨hlimit, rfl⟩

theorem covers_realTables (references : References) : Covers references.realTables references :=
  fun _ htable => List.mem_map_of_mem htable

/-- By either method, an operation that can be parsed passes with some limit and some tables
exactly if its text can be certified. -/
theorem exists_isValid_iff {operation : Operation} {statements : List Statement}
    (hparse : parseStatements operation.sql = .ok statements) (hne : statements ≠ [])
    (method : Method) :
    (∃ limit declared name,
        (checkTableAccess ⟨method, limit⟩ declared name operation).isValid = true) ↔
      ¬Uncertifiable operation.sql := by
  constructor
  · rintro ⟨limit, declared, name, hvalid⟩
    exact (checkTableAccess_isValid_iff.1 hvalid).1
  · intro hcertifiable
    -- The tables to declare are the ones that the method finds under a limit it stays below.
    have hfound : ∃ limit references,
        Analyzer.references ⟨method, limit⟩ operation.sql = .ok references := by
      cases method with
      | syntaxTree =>
          simp only [references_syntaxTree]
          exact exists_parseReferences_eq_ok hparse hne
      | keywords =>
          simp only [references_keywords]
          exact exists_scanReferences_eq_ok hcertifiable
    obtain ⟨limit, references, hreferences⟩ := hfound
    refine ⟨limit, references.realTables, "", checkTableAccess_isValid_iff.2 ?_⟩
    exact ⟨hcertifiable, references, hreferences, covers_realTables references⟩

/-- An inner query that starts with `SELECT` is seen in a text that is read by tokens. -/
theorem uncertifiable_of_startsWithSelect {sql : String} {statements : List Statement}
    (hparse : parseStatements sql = .ok statements) (hreads : readsByTokens sql = true)
    {query : Query} (hquery : query ∈ statements.flatMap Statement.innerQueries)
    (hselect : query.startsWithSelect = true) : Uncertifiable sql := by
  cases htokens : tokenize sql with
  | error cause =>
      rw [parseStatements, htokens] at hparse
      exact absurd hparse (by simp [bind, Except.bind])
  | ok tokens =>
      have hstatements : Grammar.statements tokens = .ok statements := by
        rw [parseStatements, htokens] at hparse
        exact hparse
      -- Without an opened `SELECT` among the tokens the parser could not have found the query.
      have hopens : Grammar.opensSelect tokens = true := by
        rw [← Bool.not_eq_false]
        intro hclosed
        have hselectless := Grammar.statements_selectless hclosed hstatements query hquery
        exact absurd (hselect.symm.trans hselectless) (by decide)
      have hoccurs := occursIn_subqueryOpening hreads htokens hopens
      refine Or.inr (Or.inr ?_)
      rw [unsupported, toList_normalize, if_pos hoccurs]
      simp

/-- **Queries inside queries are refused exactly if no method gets to see them.** By either method,
a text with a query inside is refused whatever tables are declared exactly if it is uncertifiable. It
is so if the text is read by tokens and one of the queries starts with `SELECT`. -/
theorem nested_queries_are_refused_iff {operation : Operation} {statements : List Statement}
    (hparse : parseStatements operation.sql = .ok statements)
    (hinner : statements.flatMap Statement.innerQueries ≠ []) :
    (∀ method, (∀ limit declared name,
        (checkTableAccess ⟨method, limit⟩ declared name operation).isValid = false) ↔
      Uncertifiable operation.sql) ∧
    (readsByTokens operation.sql = true →
      (∃ query ∈ statements.flatMap Statement.innerQueries, query.startsWithSelect = true) →
        ∀ method limit declared name,
          (checkTableAccess ⟨method, limit⟩ declared name operation).isValid = false) := by
  have hne : statements ≠ [] := by
    rintro rfl
    exact hinner rfl
  have hrefused : ∀ method, (∀ limit declared name,
      (checkTableAccess ⟨method, limit⟩ declared name operation).isValid = false) ↔
        Uncertifiable operation.sql := by
    intro method
    have hpassed := exists_isValid_iff hparse hne method
    constructor
    · intro hall
      by_contra hcertifiable
      obtain ⟨limit, declared, name, hvalid⟩ := hpassed.2 hcertifiable
      rw [hall limit declared name] at hvalid
      exact absurd hvalid (by decide)
    · intro huncertifiable limit declared name
      rw [← Bool.not_eq_true]
      exact fun hvalid => hpassed.1 ⟨limit, declared, name, hvalid⟩ huncertifiable
  refine ⟨hrefused, ?_⟩
  rintro hreads ⟨query, hquery, hselect⟩ method
  exact (hrefused method).2 (uncertifiable_of_startsWithSelect hparse hreads hquery hselect)

/-- A query behind `IN` is refused, with a comment and a literal in the text. -/
theorem query_behind_in_is_refused :
    readsByTokens "SELECT a FROM b WHERE c = 'it''s' AND a IN ( /* d */ select e FROM f)" = true ∧
      ∀ method limit declared name, (checkTableAccess ⟨method, limit⟩ declared name
        { sql := "SELECT a FROM b WHERE c = 'it''s' AND a IN ( /* d */ select e FROM f)" }).isValid
          = false := by
  have hreads : readsByTokens
      "SELECT a FROM b WHERE c = 'it''s' AND a IN ( /* d */ select e FROM f)" = true := by
    decide +kernel
  have hinner : (parseStatements
      "SELECT a FROM b WHERE c = 'it''s' AND a IN ( /* d */ select e FROM f)").toOption.any
        (fun statements => (statements.flatMap Statement.innerQueries).any Query.startsWithSelect)
      = true := by
    decide +kernel
  obtain ⟨statements, hparse, hany⟩ := (Option.any_eq_true _ _).1 hinner
  obtain ⟨query, hquery, hselect⟩ := List.any_eq_true.1 hany
  have hok : parseStatements
      "SELECT a FROM b WHERE c = 'it''s' AND a IN ( /* d */ select e FROM f)" = .ok statements := by
    cases hresult : parseStatements
        "SELECT a FROM b WHERE c = 'it''s' AND a IN ( /* d */ select e FROM f)" with
    | error cause => simp [hresult, Except.toOption] at hparse
    | ok found => simpa [hresult, Except.toOption] using hparse
  exact ⟨hreads, (@nested_queries_are_refused_iff
    { sql := "SELECT a FROM b WHERE c = 'it''s' AND a IN ( /* d */ select e FROM f)" } statements hok
    (List.ne_nil_of_mem hquery)).2 hreads ⟨query, hquery, hselect⟩⟩

/-- A table of values inside a query is passed by both methods. A `WITH` clause that binds a table of
values to a name with `$` in it is passed too, though by keywords only if the name is declared, as it
is taken for a table. -/
theorem table_of_values_is_passed :
    ((parseStatements "SELECT x FROM (VALUES (1)) AS t(x)").toOption.any
        (fun statements => !(statements.flatMap Statement.innerQueries).isEmpty) = true ∧
      (checkTableAccess ⟨.syntaxTree, 64⟩ [] "o"
          { sql := "SELECT x FROM (VALUES (1)) AS t(x)" }).isValid = true ∧
      (checkTableAccess ⟨.keywords, 64⟩ [] "o"
          { sql := "SELECT x FROM (VALUES (1)) AS t(x)" }).isValid = true) ∧
    (parseStatements "WITH a$b AS (VALUES (1)) SELECT x FROM a$b").toOption.any
        (fun statements => !(statements.flatMap Statement.innerQueries).isEmpty) = true ∧
      (checkTableAccess ⟨.syntaxTree, 64⟩ [] "o"
          { sql := "WITH a$b AS (VALUES (1)) SELECT x FROM a$b" }).isValid = true ∧
      (checkTableAccess ⟨.keywords, 64⟩ ["a$b"] "o"
          { sql := "WITH a$b AS (VALUES (1)) SELECT x FROM a$b" }).isValid = true := by
  decide +kernel

end RepoPolicy.Contract
