import RepoPolicy.Contract.Projection
import RepoPolicy.Proofs.Text.LetterCases
import RepoPolicy.Proofs.Text.NameSets

set_option autoImplicit false

/-! # What the check of columns finds

An operation that reads is clean exactly if its select list projects the declared fields
(`Projects`), or has a star that is permitted and need not be verified. Whatever else is wrong is
one finding: an error if the operation is strict, a warning if it is not, with two exceptions. An
open quote is always an error, and a star that is permitted is a warning in strict mode
(`ExactVerdict`).
The fields matter only as a set of names in lower case, so the outcome does not depend on how they
are listed, and a strict operation that is valid stays so when it is made lenient
(`projection_verdict_is_exact`). -/

namespace RepoPolicy.Contract

open RepoPolicy.Text RepoPolicy.Sql

/-! ## Select lists and declared fields -/

/-- All items are columns, and their names are those of the fields, trimmed, without quotes and in
lower case. -/
def Projects (fields : List String) (items : List ProjectedItem) : Prop :=
  (∀ item ∈ items, ∃ name, item = .column name) ∧
    ∀ name, .column name ∈ items ↔ ∃ field ∈ fields, columnName (trim field.toList) = name

theorem unnamedExpressions_eq_nil_iff {items : List ProjectedItem} :
    unnamedExpressions items = [] ↔ ∀ text, .complex text ∉ items := by
  rw [unnamedExpressions, List.filterMap_eq_nil_iff]
  constructor
  · intro h text hmem
    cases h _ hmem
  · intro h item hmem
    cases item with
    | wildcard => rfl
    | column name => rfl
    | complex text => exact absurd hmem (h text)

theorem mem_projectedColumns {name : String} {items : List ProjectedItem} :
    name ∈ projectedColumns items ↔ .column name ∈ items := by
  rw [projectedColumns, NameSet.mem_ofList, List.mem_filterMap]
  constructor
  · rintro ⟨item, hmem, hname⟩
    cases item with
    | wildcard => cases hname
    | column found =>
        cases hname
        exact hmem
    | complex text => cases hname
  · intro hmem
    exact ⟨_, hmem, rfl⟩

theorem mem_declaredColumns {name : String} {fields : List String} :
    name ∈ declaredColumns fields ↔ ∃ field ∈ fields, columnName (trim field.toList) = name := by
  rw [declaredColumns, NameSet.mem_ofList, List.mem_map]

/-- Where all items have names, the fields are projected exactly if neither set of names has a
member that the other one lacks. -/
theorem projects_iff {fields : List String} {items : List ProjectedItem}
    (hstar : .wildcard ∉ items) (hnamed : unnamedExpressions items = []) :
    Projects fields items ↔
      (declaredColumns fields).diff (projectedColumns items) = [] ∧
        (projectedColumns items).diff (declaredColumns fields) = [] := by
  -- without wildcards and unnamed expressions every item is a column
  have hcolumns : ∀ item ∈ items, ∃ name, item = .column name := by
    intro item hmem
    cases item with
    | wildcard => exact absurd hmem hstar
    | column name => exact ⟨name, rfl⟩
    | complex text => exact absurd hmem (unnamedExpressions_eq_nil_iff.1 hnamed text)
  rw [Projects, NameSet.diff_eq_nil_iff, NameSet.diff_eq_nil_iff]
  simp only [← mem_declaredColumns, ← mem_projectedColumns]
  constructor
  · rintro ⟨-, hsame⟩
    exact ⟨fun name => (hsame name).2, fun name => (hsame name).1⟩
  · rintro ⟨hmissing, hundeclared⟩
    exact ⟨hcolumns, fun name => ⟨hundeclared name, hmissing name⟩⟩

theorem Projects.wildcard_notMem {fields : List String} {items : List ProjectedItem}
    (h : Projects fields items) : .wildcard ∉ items := by
  intro hmem
  obtain ⟨name, hname⟩ := h.1 _ hmem
  cases hname

theorem Projects.unnamedExpressions_eq_nil {fields : List String} {items : List ProjectedItem}
    (h : Projects fields items) : unnamedExpressions items = [] := by
  rw [unnamedExpressions_eq_nil_iff]
  intro text hmem
  obtain ⟨name, hname⟩ := h.1 _ hmem
  cases hname

/-- What can be wrong with a select list: it has a star, or it does not project the fields. -/
theorem selectListProblem_cases (returns : Returns) (items : List ProjectedItem) :
    (.wildcard ∈ items ∧ returns.allowSelectStar = true ∧
        selectListProblem returns items
          = if returns.isStrict then some (.warning, .starUnverified) else none) ∨
      (Projects returns.declaredFields items ∧ selectListProblem returns items = none) ∨
      (¬(.wildcard ∈ items ∧ returns.allowSelectStar = true) ∧
        ¬Projects returns.declaredFields items ∧
        ∃ problem, selectListProblem returns items
          = some (mismatchSeverity returns.isStrict, problem)) := by
  -- a star is looked for first, whatever stands beside it
  by_cases hstar : .wildcard ∈ items
  · have hnot : ¬Projects returns.declaredFields items := fun h => h.wildcard_notMem hstar
    have hcontains : items.contains .wildcard = true := List.contains_iff_mem.2 hstar
    rw [selectListProblem, if_pos hcontains]
    cases returns.allowSelectStar <;> cases returns.isStrict <;>
      simp [hstar, hnot, mismatchSeverity]
  · have hcontains : ¬items.contains .wildcard = true := fun h => hstar (List.contains_iff_mem.1 h)
    rw [selectListProblem, if_neg hcontains]
    cases hnamed : unnamedExpressions items with
    | cons text more =>
        have hnot : ¬Projects returns.declaredFields items := by
          intro h
          rw [h.unnamedExpressions_eq_nil] at hnamed
          cases hnamed
        exact Or.inr (Or.inr ⟨fun h => hstar h.1, hnot, _, rfl⟩)
    | nil =>
        have hprojects := @projects_iff returns.declaredFields items hstar hnamed
        by_cases hfits : Projects returns.declaredFields items
        · refine Or.inr (Or.inl ⟨hfits, ?_⟩)
          obtain ⟨hmissing, hundeclared⟩ := hprojects.1 hfits
          simp [hmissing, hundeclared]
        · refine Or.inr (Or.inr ⟨fun h => hstar h.1, hfits, _, if_neg ?_⟩)
          rw [hprojects] at hfits
          simpa using hfits

section SelectLists

variable {returns : Returns} {items : List ProjectedItem}

theorem selectListProblem_eq_none_iff :
    selectListProblem returns items = none ↔
      (.wildcard ∈ items ∧ returns.allowSelectStar = true ∧ returns.isStrict = false) ∨
        Projects returns.declaredFields items := by
  obtain ⟨hstar, hallowed, hproblem⟩ | ⟨hprojects, hproblem⟩ |
    ⟨hstar, hprojects, problem, hproblem⟩ := selectListProblem_cases returns items
  · have hnot : ¬Projects returns.declaredFields items := fun h => h.wildcard_notMem hstar
    cases hstrict : returns.isStrict <;> simp [hproblem, hstrict, hstar, hallowed, hnot]
  · simp [hproblem, hprojects]
  · have hnot : ¬(.wildcard ∈ items ∧ returns.allowSelectStar = true ∧ returns.isStrict = false) :=
      fun h => hstar ⟨h.1, h.2.1⟩
    simp [hproblem, hnot, hprojects]

theorem selectListProblem_ne_error (hlenient : returns.isStrict = false)
    (problem : ProjectionProblem) : selectListProblem returns items ≠ some (.error, problem) := by
  obtain ⟨-, -, hproblem⟩ | ⟨-, hproblem⟩ | ⟨-, -, found, hproblem⟩ :=
    selectListProblem_cases returns items
  all_goals simp [hproblem, hlenient, mismatchSeverity]

theorem selectListProblem_eq_warning_iff (hstrict : returns.isStrict = true) :
    (∃ problem, selectListProblem returns items = some (.warning, problem)) ↔
      .wildcard ∈ items ∧ returns.allowSelectStar = true := by
  obtain ⟨hstar, hallowed, hproblem⟩ | ⟨hprojects, hproblem⟩ | ⟨hstar, -, found, hproblem⟩ :=
    selectListProblem_cases returns items
  · simp [hproblem, hstrict, hstar, hallowed]
  · simp [hproblem, hprojects.wildcard_notMem]
  · simp [hproblem, hstrict, mismatchSeverity, hstar]

end SelectLists

/-! ## Findings -/

section Findings

variable {name : String} {operation : Operation}

/-- There is at most one finding, and its severity is that of the problem. -/
theorem findings_checkProjection (name : String) (operation : Operation) :
    (projectionProblem operation = none ∧ (checkProjection name operation).errors = [] ∧
        (checkProjection name operation).warnings = []) ∨
      (∃ problem, projectionProblem operation = some (.error, problem) ∧
        (checkProjection name operation).errors = [problem.message name] ∧
        (checkProjection name operation).warnings = []) ∨
      (∃ problem, projectionProblem operation = some (.warning, problem) ∧
        (checkProjection name operation).errors = [] ∧
        (checkProjection name operation).warnings = [problem.message name]) := by
  unfold checkProjection
  cases hproblem : projectionProblem operation with
  | none => exact Or.inl ⟨rfl, rfl, rfl⟩
  | some found =>
      obtain ⟨severity, problem⟩ := found
      cases severity with
      | error => exact Or.inr (Or.inl ⟨problem, rfl, rfl, rfl⟩)
      | warning => exact Or.inr (Or.inr ⟨problem, rfl, rfl, rfl⟩)

theorem length_findings_le_one (name : String) (operation : Operation) :
    (checkProjection name operation).errors.length
      + (checkProjection name operation).warnings.length ≤ 1 := by
  obtain ⟨-, herrors, hwarnings⟩ | ⟨problem, -, herrors, hwarnings⟩ |
    ⟨problem, -, herrors, hwarnings⟩ := findings_checkProjection name operation
  all_goals simp [herrors, hwarnings]

theorem isClean_checkProjection_iff :
    (checkProjection name operation).isClean = true ↔ projectionProblem operation = none := by
  obtain ⟨hproblem, herrors, hwarnings⟩ | ⟨problem, hproblem, herrors, hwarnings⟩ |
    ⟨problem, hproblem, herrors, hwarnings⟩ := findings_checkProjection name operation
  all_goals simp [Outcome.isClean, hproblem, herrors, hwarnings]

theorem errors_checkProjection_iff :
    (checkProjection name operation).errors ≠ [] ↔
      ∃ problem, projectionProblem operation = some (.error, problem) := by
  obtain ⟨hproblem, herrors, -⟩ | ⟨problem, hproblem, herrors, -⟩ |
    ⟨problem, hproblem, herrors, -⟩ := findings_checkProjection name operation
  all_goals simp [hproblem, herrors]

theorem warnings_checkProjection_iff :
    (checkProjection name operation).warnings ≠ [] ↔
      ∃ problem, projectionProblem operation = some (.warning, problem) := by
  obtain ⟨hproblem, -, hwarnings⟩ | ⟨problem, hproblem, -, hwarnings⟩ |
    ⟨problem, hproblem, -, hwarnings⟩ := findings_checkProjection name operation
  all_goals simp [hproblem, hwarnings]

theorem isValid_checkProjection_iff :
    (checkProjection name operation).isValid = true ↔
      (checkProjection name operation).errors = [] := by
  have hvalid : (checkProjection name operation).isValid
      = (checkProjection name operation).errors.isEmpty := by
    unfold checkProjection
    split <;> rfl
  rw [hvalid, List.isEmpty_iff]

end Findings

/-! ## Verdicts -/

section Verdicts

variable {operation : Operation}

/-- An operation that declares fields is strict unless it says otherwise. -/
theorem isStrict_of_declares {returns : Returns} (h : returns.declaredFields ≠ []) :
    returns.isStrict = returns.strict.getD true := by
  rw [Returns.isStrict, List.isEmpty_eq_false_iff.2 h]
  rfl

/-- The steps of the check of an operation that reads and declares fields: its quotes, the presence
of a select list, and the list itself. -/
theorem projectionProblem_cases (hread : operation.mode = .read)
    (hfields : operation.returns.declaredFields ≠ []) :
    (∃ quote, openQuote operation.sql = some quote ∧
        projectionProblem operation = some (.error, .unterminated quote)) ∨
      (openQuote operation.sql = none ∧ projection operation.sql = none ∧
        projectionProblem operation
          = some (mismatchSeverity operation.returns.isStrict, .noSelectList)) ∨
      (openQuote operation.sql = none ∧ ∃ items, projection operation.sql = some items ∧
        projectionProblem operation = selectListProblem operation.returns items) := by
  have hmode : ¬operation.mode = .write := by
    rw [hread]
    decide
  have hsome : ¬operation.returns.declaredFields.isEmpty = true := by
    rw [List.isEmpty_iff]
    exact hfields
  rw [projectionProblem]
  simp only [if_neg hmode, if_neg hsome]
  cases openQuote operation.sql with
  | some quote => exact Or.inl ⟨quote, rfl, rfl⟩
  | none =>
      cases projection operation.sql with
      | none => exact Or.inr (Or.inl ⟨rfl, rfl, rfl⟩)
      | some items => exact Or.inr (Or.inr ⟨rfl, items, rfl, rfl⟩)

/-- What a check finds in an operation, strict or not: at most one thing; nothing exactly if the
select list projects the declared fields, or has a star that is permitted and need not be verified;
an error in lenient mode for an open quote only; and a warning in strict mode for a permitted star
only. -/
structure ExactVerdict (operation : Operation) (strict : Bool) (outcome : Outcome) : Prop where
  single : outcome.errors.length + outcome.warnings.length ≤ 1
  clean : outcome.isClean = true ↔
    openQuote operation.sql = none ∧ ∃ items, projection operation.sql = some items ∧
      ((.wildcard ∈ items ∧ operation.returns.allowSelectStar = true ∧ strict = false) ∨
        Projects operation.returns.declaredFields items)
  lenient_error : strict = false → (outcome.errors ≠ [] ↔ openQuote operation.sql ≠ none)
  strict_warning : strict = true → (outcome.warnings ≠ [] ↔
    openQuote operation.sql = none ∧ ∃ items, projection operation.sql = some items ∧
      .wildcard ∈ items ∧ operation.returns.allowSelectStar = true)

theorem exactVerdict_checkProjection (name : String) (hread : operation.mode = .read)
    (hfields : operation.returns.declaredFields ≠ []) :
    ExactVerdict operation operation.returns.isStrict (checkProjection name operation) := by
  have hcases := projectionProblem_cases hread hfields
  -- the three parts of the verdict, each for an open quote, a missing list and a list
  refine ⟨length_findings_le_one name operation, ?_, ?_, ?_⟩
  · rw [isClean_checkProjection_iff]
    obtain ⟨quote, hquote, hproblem⟩ | ⟨hquote, hlist, hproblem⟩ |
      ⟨hquote, items, hlist, hproblem⟩ := hcases
    · simp [hquote, hproblem]
    · simp [hlist, hproblem]
    · simp [hquote, hlist, hproblem, selectListProblem_eq_none_iff]
  · intro hlenient
    rw [errors_checkProjection_iff]
    obtain ⟨quote, hquote, hproblem⟩ | ⟨hquote, hlist, hproblem⟩ |
      ⟨hquote, items, hlist, hproblem⟩ := hcases
    · simp [hquote, hproblem]
    · simp [hquote, hproblem, hlenient, mismatchSeverity]
    · simp [hquote, hproblem, selectListProblem_ne_error hlenient]
  · intro hstrict
    rw [warnings_checkProjection_iff]
    obtain ⟨quote, hquote, hproblem⟩ | ⟨hquote, hlist, hproblem⟩ |
      ⟨hquote, items, hlist, hproblem⟩ := hcases
    · simp [hquote, hproblem]
    · simp [hlist, hproblem, hstrict, mismatchSeverity]
    · simp [hquote, hlist, hproblem, selectListProblem_eq_warning_iff hstrict]

/-! ## Comparing operations -/

theorem columnName_trim_of_sameLetters {field other : String} (h : SameLetters field other) :
    columnName (trim field.toList) = columnName (trim other.toList) := by
  have hquote : ∀ c : Char, (c.toLower == '"') = (c == '"') :=
    apply_toLower (f := fun c => c == '"') (by decide)
  have hlower : ∀ text, columnName (trim (text.map Char.toLower)) = columnName (trim text) := by
    intro text
    rw [columnName, columnName, trim_map_toLower, strip_map_toLower hquote, lowercase_map_toLower]
  rw [← hlower field.toList, h, hlower]

theorem declaredColumns_congr {fields others : List String} (h : Alike SameLetters fields others) :
    declaredColumns fields = declaredColumns others :=
  NameSet.ofList_congr (h.mem_map_iff fun _ _ => columnName_trim_of_sameLetters)

def withFields (operation : Operation) (fields : List String) : Operation :=
  { operation with returns := { operation.returns with fields := some fields } }

def withStrict (operation : Operation) (strict : Bool) : Operation :=
  { operation with returns := { operation.returns with strict := some strict } }

/-- The check sees the declared fields as a set of names, whatever the case of their letters. -/
theorem projectionProblem_withFields {fields : List String}
    (h : Alike SameLetters fields operation.returns.declaredFields) :
    projectionProblem (withFields operation fields) = projectionProblem operation := by
  have hmode : (withFields operation fields).mode = operation.mode := rfl
  have hsql : (withFields operation fields).sql = operation.sql := rfl
  have hstrict : (withFields operation fields).returns.strict = operation.returns.strict := rfl
  have hallowed : (withFields operation fields).returns.allowSelectStar
      = operation.returns.allowSelectStar := rfl
  have hfields : (withFields operation fields).returns.declaredFields = fields := rfl
  simp only [projectionProblem, selectListProblem, Returns.isStrict, hmode, hsql, hstrict, hallowed,
    hfields, h.isEmpty_eq, declaredColumns_congr h]

/-- An error of a lenient operation is an open quote, which is an error of the strict one too. -/
theorem isValid_lenient_of_strict {name : String} (hread : operation.mode = .read)
    (hfields : operation.returns.declaredFields ≠ [])
    (hvalid : (checkProjection name (withStrict operation true)).isValid = true) :
    (checkProjection name (withStrict operation false)).isValid = true := by
  rw [isValid_checkProjection_iff] at hvalid ⊢
  by_contra herrors
  have hlenient := @exactVerdict_checkProjection (withStrict operation false) name hread hfields
  -- quotes are looked at before the mode is
  have hquote : openQuote operation.sql ≠ none := (hlenient.lenient_error rfl).1 herrors
  refine absurd hvalid (errors_checkProjection_iff.2 ?_)
  obtain ⟨quote, -, hproblem⟩ | ⟨hclosed, -⟩ | ⟨hclosed, -⟩ :=
    @projectionProblem_cases (withStrict operation true) hread hfields
  · exact ⟨_, hproblem⟩
  · exact absurd hclosed hquote
  · exact absurd hclosed hquote

/-- **Verdicts on columns are exact.** An operation that reads and declares fields is strict unless
it says otherwise, and its verdict is exact in either mode. Listing the same fields in another
order, more than once or with letters in another case changes nothing, and a strict operation that
is valid is valid in lenient mode. -/
theorem projection_verdict_is_exact (name : String) {operation : Operation}
    (hread : operation.mode = .read) (hfields : operation.returns.declaredFields ≠ []) :
    ExactVerdict operation (operation.returns.strict.getD true) (checkProjection name operation) ∧
      (∀ fields, Alike SameLetters fields operation.returns.declaredFields →
        checkProjection name (withFields operation fields) = checkProjection name operation) ∧
      ((checkProjection name (withStrict operation true)).isValid = true →
        (checkProjection name (withStrict operation false)).isValid = true) := by
  refine ⟨?_, ?_, isValid_lenient_of_strict hread hfields⟩
  · rw [← isStrict_of_declares hfields]
    exact exactVerdict_checkProjection name hread hfields
  · intro fields hsame
    rw [checkProjection, checkProjection, projectionProblem_withFields hsame]

end Verdicts

/-- An operation with an alias, a comment and a blank and quotes around its fields. -/
def aliasedRead : Operation where
  sql := "SELECT u.id, upper(n) AS \"Name\" -- *\nFROM users u"
  returns := { fields := some [" ID ", "\"name\""] }

/-- Its verdict is exact, and the same for its fields in another order, one of them twice. -/
theorem aliasedRead_verdict_is_exact :
    aliasedRead.mode = .read ∧ aliasedRead.returns.declaredFields ≠ [] ∧
      ExactVerdict aliasedRead (aliasedRead.returns.strict.getD true)
        (checkProjection "o" aliasedRead) ∧
      checkProjection "o" (withFields aliasedRead ["\"NAME\"", " id ", " Id "])
        = checkProjection "o" aliasedRead := by
  have hread : aliasedRead.mode = .read := rfl
  have hfields : aliasedRead.returns.declaredFields ≠ [] := by decide
  have hsame : Alike SameLetters ["\"NAME\"", " id ", " Id "]
      aliasedRead.returns.declaredFields := by
    decide +kernel
  have hexact := projection_verdict_is_exact "o" hread hfields
  exact ⟨hread, hfields, hexact.1, hexact.2.1 _ hsame⟩

end RepoPolicy.Contract
