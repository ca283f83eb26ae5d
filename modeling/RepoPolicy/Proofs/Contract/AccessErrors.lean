import Mathlib.Data.List.Nodup
import RepoPolicy.Proofs.Contract.TableAccess
import RepoPolicy.Proofs.Text.LetterCases

set_option autoImplicit false

/-! # What the check of tables finds

The check stops at the first reason not to certify a text, and this is its only error. Of a text
that is certified it reports the undeclared tables, each once and in increasing order (`Finds`). The
declared tables matter only as a set of canonical names. So declaring more tables never adds an
error, and how they are spelled (`Respelled`) and listed does not show in the outcome
(`access_errors_are_exact`). -/

namespace RepoPolicy.Contract

open RepoPolicy.Text RepoPolicy.Sql
open RepoPolicy.Outcome (isValid_ofErrors errors_ofErrors warnings_ofErrors)

/-! ## Undeclared tables -/

theorem mem_realTables {table : String} {references : References} :
    table ∈ references.realTables ↔
      table ∈ references.tables ∧ lowercase table ∉ references.cteNames := by
  simp [References.realTables]

theorem mem_canonicalTables {table : String} {names : List String} :
    table ∈ canonicalTables names ↔ ∃ name ∈ names, canonicalTable name = table := by
  rw [canonicalTables, NameSet.mem_ofList, List.mem_map]

/-- The canonical names of the tables that a text refers to and of no declared table. -/
structure ListsUndeclared (references : References) (declared tables : List String) : Prop where
  ascending : tables.Pairwise (· < ·)
  exact : ∀ table, table ∈ tables ↔
    (∃ name ∈ references.tables, lowercase name ∉ references.cteNames ∧
      canonicalTable name = table) ∧
    ∀ name ∈ declared, canonicalTable name ≠ table

theorem ListsUndeclared.nodup {references : References} {declared tables : List String}
    (h : ListsUndeclared references declared tables) : tables.Nodup := by
  refine h.ascending.imp ?_
  rintro table _ hless rfl
  exact String.lt_irrefl table hless

theorem listsUndeclared_undeclaredTables (references : References) (declared : List String) :
    ListsUndeclared references declared (undeclaredTables references declared) := by
  refine ⟨NameSet.pairwise_diff (NameSet.pairwise_ofList _) _, ?_⟩
  intro table
  rw [undeclaredTables, NameSet.mem_diff, mem_canonicalTables, mem_canonicalTables]
  simp only [mem_realTables, and_assoc, not_exists, not_and, ne_eq]

theorem length_undeclaredTables_le {declared more : List String}
    (h : ∀ table ∈ declared, table ∈ more) (references : References) :
    (undeclaredTables references more).length ≤ (undeclaredTables references declared).length := by
  have hnames : ∀ name ∈ canonicalTables declared, name ∈ canonicalTables more := by
    intro name hname
    obtain ⟨table, htable, rfl⟩ := mem_canonicalTables.1 hname
    exact mem_canonicalTables.2 ⟨table, h table htable, rfl⟩
  refine (List.monotone_filter_right _ ?_).length_le
  intro name
  simp only [Bool.not_eq_true', List.contains_eq_mem, decide_eq_false_iff_not]
  exact fun hmore hname => hmore (hnames name hname)

/-! ## Problems -/

/-- What is wrong with a text, the reasons not to certify it first: it has nothing but comments, it
leaves a quote open, it shows a construct that is never certified, or its tables cannot be found. -/
inductive Finds (analyzer : Analyzer) (sql : String) (declared : List String) :
    List AccessProblem → Prop
  | noSql (hempty : normalize sql = "") : Finds analyzer sql declared [.noSql]
  | unterminated (hsome : normalize sql ≠ "") {quote : OpenQuote}
      (hopen : openQuote sql = some quote) : Finds analyzer sql declared [.unterminated quote]
  | unsupported (hsome : normalize sql ≠ "") (hclosed : openQuote sql = none)
      (hconstructs : unsupported (normalize sql) ≠ []) :
      Finds analyzer sql declared [.unsupported (unsupported (normalize sql))]
  | unreadable (hsome : normalize sql ≠ "") (hclosed : openQuote sql = none)
      (hplain : unsupported (normalize sql) = []) {cause : ExtractionError}
      (hfails : analyzer.references sql = .error cause) :
      Finds analyzer sql declared [.unreadable cause]
  | undeclared (hsome : normalize sql ≠ "") (hclosed : openQuote sql = none)
      (hplain : unsupported (normalize sql) = []) {references : References}
      (hfound : analyzer.references sql = .ok references) {tables : List String}
      (htables : ListsUndeclared references declared tables) :
      Finds analyzer sql declared
        (tables.map fun table => .undeclared table (canonicalTables declared))

/-- Whether a text is certified does not depend on the declared tables. If it is not, there is one
problem, and if it is, there is one for each undeclared table. -/
theorem accessProblems_cases (analyzer : Analyzer) (sql : String) :
    (∃ problem, ∀ declared, accessProblems analyzer sql declared = [problem] ∧
        Finds analyzer sql declared [problem]) ∨
      ∃ references, ∀ declared,
        accessProblems analyzer sql declared = (undeclaredTables references declared).map
          (fun table => .undeclared table (canonicalTables declared)) ∧
        Finds analyzer sql declared ((undeclaredTables references declared).map
          fun table => .undeclared table (canonicalTables declared)) := by
  -- the checks are made in this order, and only the last one looks at what is declared
  by_cases hempty : normalize sql = ""
  · exact Or.inl ⟨.noSql, fun _ => ⟨by simp [accessProblems, hempty], .noSql hempty⟩⟩
  cases hquote : openQuote sql with
  | some quote =>
      exact Or.inl ⟨.unterminated quote, fun _ =>
        ⟨by simp [accessProblems, hempty, hquote], .unterminated hempty hquote⟩⟩
  | none =>
      by_cases hconstructs : unsupported (normalize sql) = []
      · cases hreferences : analyzer.references sql with
        | error cause =>
            exact Or.inl ⟨.unreadable cause, fun _ =>
              ⟨by simp [accessProblems, hempty, hquote, hconstructs, hreferences],
                .unreadable hempty hquote hconstructs hreferences⟩⟩
        | ok references =>
            exact Or.inr ⟨references, fun declared =>
              ⟨by simp [accessProblems, hempty, hquote, hconstructs, hreferences],
                .undeclared hempty hquote hconstructs hreferences
                  (listsUndeclared_undeclaredTables references declared)⟩⟩
      · exact Or.inl ⟨.unsupported (unsupported (normalize sql)), fun _ =>
          ⟨by simp [accessProblems, hempty, hquote],
            .unsupported hempty hquote hconstructs⟩⟩

theorem finds_accessProblems (analyzer : Analyzer) (sql : String) (declared : List String) :
    Finds analyzer sql declared (accessProblems analyzer sql declared) := by
  obtain ⟨problem, hproblem⟩ | ⟨references, hreferences⟩ := accessProblems_cases analyzer sql
  · rw [(hproblem declared).1]
    exact (hproblem declared).2
  · rw [(hreferences declared).1]
    exact (hreferences declared).2

/-- Declaring more tables adds no problem. -/
theorem length_accessProblems_le {declared more : List String}
    (h : ∀ table ∈ declared, table ∈ more) (analyzer : Analyzer) (sql : String) :
    (accessProblems analyzer sql more).length ≤ (accessProblems analyzer sql declared).length := by
  obtain ⟨problem, hproblem⟩ | ⟨references, hreferences⟩ := accessProblems_cases analyzer sql
  · rw [(hproblem more).1, (hproblem declared).1]
  · rw [(hreferences more).1, (hreferences declared).1, List.length_map, List.length_map]
    exact length_undeclaredTables_le h references

/-- The declared tables show in the problems only as a set of canonical names. -/
theorem accessProblems_congr {declared others : List String}
    (h : canonicalTables declared = canonicalTables others) (analyzer : Analyzer) (sql : String) :
    accessProblems analyzer sql declared = accessProblems analyzer sql others := by
  simp only [accessProblems, undeclaredTables, h]

/-! ## Spelling -/

/-- The names are the same up to the case of basic letters and the schemas in front. -/
inductive Respelled : String → String → Prop
  | recased {name other : String} (h : SameLetters name other) : Respelled name other
  | qualified (schema name : String) : Respelled name (schema ++ "." ++ name)
  | symm {name other : String} (h : Respelled name other) : Respelled other name
  | trans {name other third : String} (hfirst : Respelled name other)
      (hsecond : Respelled other third) : Respelled name third

theorem canonicalTable_of_sameLetters {name other : String} (h : SameLetters name other) :
    canonicalTable name = canonicalTable other := by
  -- neither what ends a schema nor what quotes a name is a letter
  have hdot : ∀ c : Char, (c.toLower != '.') = (c != '.') :=
    apply_toLower (f := fun c => c != '.') (by decide)
  have hquote : ∀ c : Char, isNameQuote c.toLower = isNameQuote c := apply_toLower (by decide)
  have hlower : ∀ text : List Char,
      lowercase (String.ofList
          (strip isNameQuote (((text.map Char.toLower).reverse.takeWhile (· != '.')).reverse)))
        = lowercase (String.ofList
          (strip isNameQuote ((text.reverse.takeWhile (· != '.')).reverse))) := by
    intro text
    rw [← List.map_reverse, takeWhile_map_toLower hdot, ← List.map_reverse,
      strip_map_toLower hquote, lowercase_map_toLower]
  rw [canonicalTable, canonicalTable, ← hlower name.toList, h, hlower]

/-- What is read backwards up to the last dot does not reach into the schema. -/
theorem canonicalTable_qualified (schema name : String) :
    canonicalTable (schema ++ "." ++ name) = canonicalTable name := by
  have hlast : ∀ front back : List Char,
      (back ++ '.' :: front).takeWhile (· != '.') = back.takeWhile (· != '.') := by
    intro front back
    induction back with
    | nil => rfl
    | cons c back ih => by_cases hc : c = '.' <;> simp [hc, ih]
  have htext : (schema ++ "." ++ name).toList.reverse
      = name.toList.reverse ++ '.' :: schema.toList.reverse := by
    simp [String.toList_append]
  rw [canonicalTable, canonicalTable, htext, hlast]

theorem canonicalTable_of_respelled {name other : String} (h : Respelled name other) :
    canonicalTable name = canonicalTable other := by
  induction h with
  | recased h => exact canonicalTable_of_sameLetters h
  | qualified schema name => exact (canonicalTable_qualified schema name).symm
  | symm _ ih => exact ih.symm
  | trans _ _ ihfirst ihsecond => exact ihfirst.trans ihsecond

/-! ## Errors -/

/-- Two tables are not reported by the same message. -/
theorem message_undeclared_injective (operation : String) (allowed : List String) :
    Function.Injective fun table =>
      AccessProblem.message operation (.undeclared table allowed) := by
  intro table other h
  have hmessage : ∀ table, AccessProblem.message operation (.undeclared table allowed)
      = "operation '" ++ operation ++ "' references undeclared table '" ++ table
        ++ "' (allowed: [" ++ ", ".intercalate allowed ++ "])" := fun _ => rfl
  simp only [hmessage] at h
  rwa [String.append_left_inj, String.append_left_inj, String.append_left_inj,
    String.append_right_inj] at h

theorem Finds.nodup_messages {analyzer : Analyzer} {sql : String} {declared : List String}
    {problems : List AccessProblem} (h : Finds analyzer sql declared problems) (name : String) :
    (problems.map (AccessProblem.message name)).Nodup := by
  cases h with
  | undeclared _ _ _ _ htables =>
      rw [List.map_map]
      exact htables.nodup.map (message_undeclared_injective name _)
  | _ => exact List.nodup_singleton _

/-- **Errors about tables are exact and monotone.** There is never a warning, and the errors tell
what is wrong, each once. When more tables are declared, a valid outcome stays valid and the number
of errors does not grow. Listing the declared tables in another order or more than once, with
schemas in front or with letters in another case, changes nothing. -/
theorem access_errors_are_exact (analyzer : Analyzer) (declared : List String) (name : String)
    (operation : Operation) :
    (checkTableAccess analyzer declared name operation).warnings = [] ∧
      (checkTableAccess analyzer declared name operation).errors.Nodup ∧
      (∃ problems, Finds analyzer operation.sql declared problems ∧
        (checkTableAccess analyzer declared name operation).errors
          = problems.map (AccessProblem.message name)) ∧
      (∀ more, (∀ table ∈ declared, table ∈ more) →
        ((checkTableAccess analyzer declared name operation).isValid = true →
          (checkTableAccess analyzer more name operation).isValid = true) ∧
        (checkTableAccess analyzer more name operation).errors.length
          ≤ (checkTableAccess analyzer declared name operation).errors.length) ∧
      ∀ others, Alike Respelled declared others →
        checkTableAccess analyzer others name operation
          = checkTableAccess analyzer declared name operation := by
  have hfinds := finds_accessProblems analyzer operation.sql declared
  simp only [checkTableAccess, warnings_ofErrors, errors_ofErrors, isValid_ofErrors]
  refine ⟨trivial, hfinds.nodup_messages name, ⟨_, hfinds, rfl⟩, ?_, ?_⟩
  · intro more hmore
    have hlength := length_accessProblems_le hmore analyzer operation.sql
    simp only [List.length_map, List.isEmpty_iff, List.map_eq_nil_iff]
    refine ⟨?_, hlength⟩
    intro hvalid
    rw [hvalid] at hlength
    exact List.length_eq_zero_iff.1 (Nat.le_zero.1 hlength)
  · intro others halike
    have hnames : canonicalTables declared = canonicalTables others :=
      NameSet.ofList_congr (halike.mem_map_iff fun _ _ => canonicalTable_of_respelled)
    rw [accessProblems_congr hnames]

/-- A read of two tables, one of them in a schema. -/
def joinedRead : Operation := { sql := "SELECT a FROM users JOIN shop.Orders" }

/-- The table that is not declared is the only error about a join, also when the other one is
declared twice and in another spelling. Declared as well, it leaves none. -/
theorem joinedRead_errors_are_exact :
    (checkTableAccess ⟨.keywords, 64⟩ ["users"] "list" joinedRead).errors
        = ["operation 'list' references undeclared table 'orders' (allowed: [users])"] ∧
      checkTableAccess ⟨.keywords, 64⟩ ["public.Users", "USERS"] "list" joinedRead
        = checkTableAccess ⟨.keywords, 64⟩ ["users"] "list" joinedRead ∧
      (checkTableAccess ⟨.keywords, 64⟩ ["users", "orders"] "list" joinedRead).isValid = true ∧
      (checkTableAccess ⟨.keywords, 64⟩ ["items", "users", "orders"] "list" joinedRead).isValid
        = true := by
  have hvalid : (checkTableAccess ⟨.keywords, 64⟩ ["users", "orders"] "list" joinedRead).isValid
      = true := by
    decide +kernel
  have hupper : Respelled "users" "USERS" := .recased (by decide)
  have hqualified : Respelled "users" "public.Users" :=
    .trans (.recased (by decide)) (.qualified "public" "Users")
  have halike : Alike Respelled ["users"] ["public.Users", "USERS"] := by
    simp [Alike, hupper, hqualified]
  obtain ⟨-, -, -, -, hrespelled⟩ :=
    access_errors_are_exact ⟨.keywords, 64⟩ ["users"] "list" joinedRead
  obtain ⟨-, -, -, hmore, -⟩ :=
    access_errors_are_exact ⟨.keywords, 64⟩ ["users", "orders"] "list" joinedRead
  exact ⟨by decide +kernel, hrespelled _ halike, hvalid,
    (hmore ["items", "users", "orders"] (by simp)).1 hvalid⟩

end RepoPolicy.Contract
