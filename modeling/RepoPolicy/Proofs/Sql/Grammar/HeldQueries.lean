import RepoPolicy.Proofs.Sql.InnerQuery
import RepoPolicy.Sql.Grammar.DataType
import RepoPolicy.Sql.Grammar.Source

set_option autoImplicit false

/-! # The queries inside what a parser gives

`HoldsOnly P` says of anything that a parser gives (a tree, a list of trees, a name) that the queries
inside it have the property `P`. For each constructor of a tree it comes down to its parts. -/

namespace RepoPolicy.Sql.Grammar

/-- Results of parsers, with the queries inside them. -/
class HoldsQueries (α : Type) where
  inner : α → List Query

instance : HoldsQueries Expr := ⟨Expr.innerQueries⟩
instance : HoldsQueries Query := ⟨Query.innerQueries⟩
instance : HoldsQueries Cte := ⟨fun cte => innerOfCtes [cte]⟩
instance : HoldsQueries Body := ⟨Body.innerQueries⟩
instance : HoldsQueries SelectItem := ⟨fun item => innerOfItems [item]⟩
instance : HoldsQueries Source := ⟨Source.innerQueries⟩
instance : HoldsQueries Statement := ⟨Statement.innerQueries⟩
instance : HoldsQueries Starred := ⟨fun starred => innerOfExprs starred.toList⟩
instance : HoldsQueries Unit := ⟨fun _ => []⟩
instance : HoldsQueries Bool := ⟨fun _ => []⟩
instance : HoldsQueries String := ⟨fun _ => []⟩
instance : HoldsQueries Token := ⟨fun _ => []⟩
instance : HoldsQueries TypeName := ⟨fun _ => []⟩
instance : HoldsQueries JoinStart := ⟨fun _ => []⟩
instance {α : Type} [HoldsQueries α] : HoldsQueries (List α) := ⟨List.flatMap HoldsQueries.inner⟩
instance {α : Type} [HoldsQueries α] : HoldsQueries (Option α) :=
  ⟨fun value => value.elim [] HoldsQueries.inner⟩

/-- All queries inside a result have a property. -/
def HoldsOnly {α : Type} [HoldsQueries α] (P : Query → Prop) (value : α) : Prop :=
  ∀ query ∈ HoldsQueries.inner value, P query

variable {P : Query → Prop}

section Lists

variable {α : Type} [HoldsQueries α]

@[simp] theorem holdsOnly_nil : HoldsOnly P ([] : List α) := by
  intro query hquery
  exact absurd hquery List.not_mem_nil

@[simp] theorem holdsOnly_cons {value : α} {values : List α} :
    HoldsOnly P (value :: values) ↔ HoldsOnly P value ∧ HoldsOnly P values := by
  simp [HoldsOnly, HoldsQueries.inner, or_imp, forall_and]

@[simp] theorem holdsOnly_append {first second : List α} :
    HoldsOnly P (first ++ second) ↔ HoldsOnly P first ∧ HoldsOnly P second := by
  simp [HoldsOnly, HoldsQueries.inner, or_imp, forall_and]

@[simp] theorem holdsOnly_flatten {lists : List (List α)} :
    HoldsOnly P lists.flatten ↔ HoldsOnly P lists := by
  induction lists with
  | nil => simp
  | cons first lists ih => simp [ih]

@[simp] theorem holdsOnly_none : HoldsOnly P (none : Option α) := by
  intro query hquery
  exact absurd hquery List.not_mem_nil

@[simp] theorem holdsOnly_some {value : α} : HoldsOnly P (some value) ↔ HoldsOnly P value := Iff.rfl

class HoldsNone (α : Type) [HoldsQueries α] : Prop where
  inner_eq_nil : ∀ value : α, HoldsQueries.inner value = []

instance : HoldsNone Unit := ⟨fun _ => rfl⟩
instance : HoldsNone Bool := ⟨fun _ => rfl⟩
instance : HoldsNone String := ⟨fun _ => rfl⟩
instance : HoldsNone Token := ⟨fun _ => rfl⟩
instance : HoldsNone TypeName := ⟨fun _ => rfl⟩
instance : HoldsNone JoinStart := ⟨fun _ => rfl⟩

@[simp] theorem holdsOnly_of_holdsNone [HoldsNone α] (value : α) : HoldsOnly P value := by
  intro query hquery
  rw [HoldsNone.inner_eq_nil] at hquery
  exact absurd hquery List.not_mem_nil

instance [HoldsNone α] : HoldsNone (List α) where
  inner_eq_nil _ := List.flatMap_eq_nil_iff.2 fun value _ => HoldsNone.inner_eq_nil value

instance [HoldsNone α] : HoldsNone (Option α) where
  inner_eq_nil value := by
    cases value with
    | none => rfl
    | some value => exact HoldsNone.inner_eq_nil value

end Lists

theorem innerOfExprs_eq (es : List Expr) : innerOfExprs es = es.flatMap Expr.innerQueries := by
  induction es with
  | nil => rfl
  | cons e es ih => rw [innerOfExprs, ih, List.flatMap_cons]

theorem innerOfSources_eq (ss : List Source) :
    innerOfSources ss = ss.flatMap Source.innerQueries := by
  induction ss with
  | nil => rfl
  | cons s ss ih => rw [innerOfSources, ih, List.flatMap_cons]

theorem innerOfItems_eq (items : List SelectItem) :
    innerOfItems items = items.flatMap fun item => innerOfItems [item] := by
  induction items with
  | nil => rfl
  | cons item items ih =>
      rw [List.flatMap_cons, ← ih]
      cases item <;> simp [innerOfItems]

theorem innerOfCtes_eq (ctes : List Cte) :
    innerOfCtes ctes = ctes.flatMap fun cte => innerOfCtes [cte] := by
  induction ctes with
  | nil => rfl
  | cons cte ctes ih =>
      obtain ⟨name, query⟩ := cte
      rw [List.flatMap_cons, ← ih]
      simp [innerOfCtes]

section Constructors

variable {es : List Expr}

-- Each lemma below reads one equation of these definitions.
attribute [local simp] Expr.innerQueries Query.innerQueries Body.innerQueries Source.innerQueries
  Statement.innerQueries innerOfItems innerOfCtes

@[simp] theorem holdsOnly_column {path : List String} : HoldsOnly P (Expr.column path) := by
  simp [HoldsOnly, HoldsQueries.inner]

@[simp] theorem holdsOnly_literal : HoldsOnly P Expr.literal := by
  simp [HoldsOnly, HoldsQueries.inner]

@[simp] theorem holdsOnly_operation {operator : Operator} :
    HoldsOnly P (Expr.operation operator es) ↔ HoldsOnly P es := by
  simp [HoldsOnly, HoldsQueries.inner, innerOfExprs_eq]

@[simp] theorem holdsOnly_call {name : List String} :
    HoldsOnly P (Expr.call name es) ↔ HoldsOnly P es := by
  simp [HoldsOnly, HoldsQueries.inner, innerOfExprs_eq]

@[simp] theorem holdsOnly_exprQuery {use : QueryUse} {query : Query} :
    HoldsOnly P (Expr.query use es query) ↔
      HoldsOnly P es ∧ P query ∧ HoldsOnly P query := by
  simp [HoldsOnly, HoldsQueries.inner, innerOfExprs_eq, or_imp, forall_and]

@[simp] theorem holdsOnly_query {ctes : List Cte} {body : Body} :
    HoldsOnly P (Query.mk ctes body es) ↔ HoldsOnly P ctes ∧ HoldsOnly P body ∧ HoldsOnly P es := by
  simp [HoldsOnly, HoldsQueries.inner, innerOfExprs_eq, innerOfCtes_eq ctes, or_imp, forall_and]

@[simp] theorem holdsOnly_cte {name : String} {query : Query} :
    HoldsOnly P (Cte.mk name query) ↔ P query ∧ HoldsOnly P query := by
  simp [HoldsOnly, HoldsQueries.inner]

@[simp] theorem holdsOnly_select {items : List SelectItem} {sources : List Source} :
    HoldsOnly P (Body.select items sources es) ↔
      HoldsOnly P items ∧ HoldsOnly P sources ∧ HoldsOnly P es := by
  simp [HoldsOnly, HoldsQueries.inner, innerOfExprs_eq, innerOfItems_eq items,
    innerOfSources_eq, or_imp, forall_and]

@[simp] theorem holdsOnly_values : HoldsOnly P (Body.values es) ↔ HoldsOnly P es := by
  simp [HoldsOnly, HoldsQueries.inner, innerOfExprs_eq]

@[simp] theorem holdsOnly_nested {query : Query} :
    HoldsOnly P (Body.nested query) ↔ HoldsOnly P query := by
  simp [HoldsOnly, HoldsQueries.inner]

@[simp] theorem holdsOnly_combined {left right : Body} :
    HoldsOnly P (Body.combined left right) ↔ HoldsOnly P left ∧ HoldsOnly P right := by
  simp [HoldsOnly, HoldsQueries.inner, or_imp, forall_and]

@[simp] theorem holdsOnly_change {statement : Statement} :
    HoldsOnly P (Body.change statement) ↔ HoldsOnly P statement := by
  simp [HoldsOnly, HoldsQueries.inner]

@[simp] theorem holdsOnly_wildcard : HoldsOnly P SelectItem.wildcard := by
  simp [HoldsOnly, HoldsQueries.inner]

@[simp] theorem holdsOnly_item {value : Expr} {alias? : Option String} :
    HoldsOnly P (SelectItem.expression value alias?) ↔ HoldsOnly P value := by
  simp [HoldsOnly, HoldsQueries.inner]

@[simp] theorem holdsOnly_table {name : List String} {alias? : Option String} :
    HoldsOnly P (Source.table name alias?) := by
  simp [HoldsOnly, HoldsQueries.inner]

@[simp] theorem holdsOnly_sourceCall {name : List String} {alias? : Option String} :
    HoldsOnly P (Source.call name es alias?) ↔ HoldsOnly P es := by
  simp [HoldsOnly, HoldsQueries.inner, innerOfExprs_eq]

@[simp] theorem holdsOnly_derived {query : Query} {alias? : Option String} :
    HoldsOnly P (Source.derived query alias?) ↔
      P query ∧ HoldsOnly P query := by
  simp [HoldsOnly, HoldsQueries.inner]

@[simp] theorem holdsOnly_expressions {alias? : Option String} :
    HoldsOnly P (Source.expressions es alias?) ↔ HoldsOnly P es := by
  simp [HoldsOnly, HoldsQueries.inner, innerOfExprs_eq]

@[simp] theorem holdsOnly_join {left right : Source} :
    HoldsOnly P (Source.join left right es) ↔
      HoldsOnly P left ∧ HoldsOnly P right ∧ HoldsOnly P es := by
  simp [HoldsOnly, HoldsQueries.inner, innerOfExprs_eq, or_imp, forall_and]

@[simp] theorem holdsOnly_withAlias {source : Source} {alias? : Option String} :
    HoldsOnly P (source.withAlias alias?) ↔ HoldsOnly P source := by
  cases source <;> simp [Source.withAlias]

@[simp] theorem holdsOnly_statement {query : Query} :
    HoldsOnly P (Statement.query query) ↔ HoldsOnly P query := by
  simp [HoldsOnly, HoldsQueries.inner]

@[simp] theorem holdsOnly_insert {target : List String} {source : Option Query}
    {returning : List SelectItem} :
    HoldsOnly P (Statement.insert target source es returning) ↔
      HoldsOnly P source ∧ HoldsOnly P es ∧ HoldsOnly P returning := by
  cases source <;>
    simp [HoldsOnly, HoldsQueries.inner, innerOfExprs_eq,
      innerOfItems_eq returning, or_imp, forall_and]

@[simp] theorem holdsOnly_update {target : Source} {sources : List Source}
    {returning : List SelectItem} :
    HoldsOnly P (Statement.update target sources es returning) ↔
      HoldsOnly P target ∧ HoldsOnly P sources ∧ HoldsOnly P es ∧ HoldsOnly P returning := by
  simp [HoldsOnly, HoldsQueries.inner, innerOfExprs_eq, innerOfSources_eq,
    innerOfItems_eq returning, or_imp, forall_and]

@[simp] theorem holdsOnly_delete {sources : List Source} {returning : List SelectItem} :
    HoldsOnly P (Statement.delete sources es returning) ↔
      HoldsOnly P sources ∧ HoldsOnly P es ∧ HoldsOnly P returning := by
  simp [HoldsOnly, HoldsQueries.inner, innerOfExprs_eq, innerOfSources_eq,
    innerOfItems_eq returning, or_imp, forall_and]

@[simp] theorem holdsOnly_starred {starred : Starred} :
    HoldsOnly P starred ↔ HoldsOnly P starred.toList := by
  simp [HoldsOnly, HoldsQueries.inner, innerOfExprs_eq]

end Constructors

end RepoPolicy.Sql.Grammar
