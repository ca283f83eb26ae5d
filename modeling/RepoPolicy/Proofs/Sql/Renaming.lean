import RepoPolicy.Sql.Walk

set_option autoImplicit false

/-! # Renaming

The grammar hands the names that it reads on to the tree and never looks at them. `rename` changes all
names of a token or a tree in the same way. A walk through a renamed tree takes the same steps past
renamed names (`walk_rename`). -/

namespace RepoPolicy.Sql

/-- A token with another name, if it can stand for a name. The spelling as a keyword stays. -/
def Token.rename (f : String → String) : Token → Token
  | .word value keyword => .word (f value) keyword
  | .string value => .string (f value)
  | token => token

def Step.rename (f : String → String) : Step → Step
  | .relation name => .relation (name.map f)
  | .binding name => .binding (f name)
  | step => step

section Trees

variable (f : String → String)

mutual

def Expr.rename : Expr → Expr
  | .column path => .column (path.map f)
  | .literal => .literal
  | .operation operator operands => .operation operator (renameExprs operands)
  | .call name arguments => .call (name.map f) (renameExprs arguments)
  | .query use operands query => .query use (renameExprs operands) query.rename

def renameExprs : List Expr → List Expr
  | [] => []
  | e :: es => e.rename :: renameExprs es

def Query.rename : Query → Query
  | .mk ctes body clauses => .mk (renameCtes ctes) body.rename (renameExprs clauses)

def renameCtes : List Cte → List Cte
  | [] => []
  | .mk name query :: ctes => .mk (f name) query.rename :: renameCtes ctes

def Body.rename : Body → Body
  | .select items sources clauses =>
    .select (renameItems items) (renameSources sources) (renameExprs clauses)
  | .values values => .values (renameExprs values)
  | .nested query => .nested query.rename
  | .combined left right => .combined left.rename right.rename
  | .change statement => .change statement.rename

def renameItems : List SelectItem → List SelectItem
  | [] => []
  | .wildcard :: items => .wildcard :: renameItems items
  | .expression value alias? :: items => .expression value.rename (alias?.map f) :: renameItems items

def Source.rename : Source → Source
  | .table name alias? => .table (name.map f) (alias?.map f)
  | .call name arguments alias? => .call (name.map f) (renameExprs arguments) (alias?.map f)
  | .derived query alias? => .derived query.rename (alias?.map f)
  | .expressions values alias? => .expressions (renameExprs values) (alias?.map f)
  | .join left right condition => .join left.rename right.rename (renameExprs condition)

def renameSources : List Source → List Source
  | [] => []
  | s :: ss => s.rename :: renameSources ss

def Statement.rename : Statement → Statement
  | .query query => .query query.rename
  | .insert target source clauses returning =>
    .insert (target.map f)
      (match source with
        | some query => some query.rename
        | none => none)
      (renameExprs clauses) (renameItems returning)
  | .update target sources clauses returning =>
    .update target.rename (renameSources sources) (renameExprs clauses) (renameItems returning)
  | .delete sources clauses returning =>
    .delete (renameSources sources) (renameExprs clauses) (renameItems returning)

end

/-- A binding of a `WITH` clause with other names. -/
def Cte.rename : Cte → Cte
  | .mk name query => .mk (f name) (query.rename f)

def SelectItem.rename : SelectItem → SelectItem
  | .wildcard => .wildcard
  | .expression value alias? => .expression (value.rename f) (alias?.map f)

theorem renameExprs_eq (es : List Expr) : renameExprs f es = es.map (Expr.rename f) := by
  induction es with
  | nil => rfl
  | cons e es ih =>
      show e.rename f :: renameExprs f es = _
      rw [ih, List.map_cons]

theorem renameSources_eq (ss : List Source) : renameSources f ss = ss.map (Source.rename f) := by
  induction ss with
  | nil => rfl
  | cons s ss ih =>
      show s.rename f :: renameSources f ss = _
      rw [ih, List.map_cons]

theorem renameItems_eq (items : List SelectItem) :
    renameItems f items = items.map (SelectItem.rename f) := by
  induction items with
  | nil => rfl
  | cons item items ih =>
      have hitem : renameItems f (item :: items) = item.rename f :: renameItems f items := by
        cases item <;> rfl
      rw [hitem, ih, List.map_cons]

theorem renameCtes_eq (ctes : List Cte) : renameCtes f ctes = ctes.map (Cte.rename f) := by
  induction ctes with
  | nil => rfl
  | cons cte ctes ih =>
      obtain ⟨name, query⟩ := cte
      show Cte.mk (f name) (query.rename f) :: renameCtes f ctes = _
      rw [ih, List.map_cons]
      rfl

/-! ## Trees with lists -/

@[simp] theorem Expr.rename_column (path : List String) :
    (Expr.column path).rename f = .column (path.map f) := rfl

@[simp] theorem Expr.rename_literal : Expr.literal.rename f = .literal := rfl

@[simp] theorem Expr.rename_operation (operator : Operator) (operands : List Expr) :
    (Expr.operation operator operands).rename f = .operation operator (operands.map (rename f)) := by
  rw [← renameExprs_eq]
  rfl

@[simp] theorem Expr.rename_call (name : List String) (arguments : List Expr) :
    (Expr.call name arguments).rename f = .call (name.map f) (arguments.map (rename f)) := by
  rw [← renameExprs_eq]
  rfl

@[simp] theorem Expr.rename_query (use : QueryUse) (operands : List Expr) (query : Query) :
    (Expr.query use operands query).rename f
      = .query use (operands.map (rename f)) (query.rename f) := by
  rw [← renameExprs_eq]
  rfl

@[simp] theorem Query.rename_mk (ctes : List Cte) (body : Body) (clauses : List Expr) :
    (Query.mk ctes body clauses).rename f
      = .mk (ctes.map (Cte.rename f)) (body.rename f) (clauses.map (Expr.rename f)) := by
  rw [← renameCtes_eq, ← renameExprs_eq]
  rfl

@[simp] theorem Body.rename_select (items : List SelectItem) (sources : List Source)
    (clauses : List Expr) :
    (Body.select items sources clauses).rename f
      = .select (items.map (SelectItem.rename f)) (sources.map (Source.rename f))
          (clauses.map (Expr.rename f)) := by
  rw [← renameItems_eq, ← renameSources_eq, ← renameExprs_eq]
  rfl

@[simp] theorem Body.rename_values (values : List Expr) :
    (Body.values values).rename f = .values (values.map (Expr.rename f)) := by
  rw [← renameExprs_eq]
  rfl

@[simp] theorem Source.rename_call (name : List String) (arguments : List Expr)
    (alias? : Option String) :
    (Source.call name arguments alias?).rename f
      = .call (name.map f) (arguments.map (Expr.rename f)) (alias?.map f) := by
  rw [← renameExprs_eq]
  rfl

@[simp] theorem Source.rename_expressions (values : List Expr) (alias? : Option String) :
    (Source.expressions values alias?).rename f
      = .expressions (values.map (Expr.rename f)) (alias?.map f) := by
  rw [← renameExprs_eq]
  rfl

@[simp] theorem Source.rename_join (left right : Source) (condition : List Expr) :
    (Source.join left right condition).rename f
      = .join (left.rename f) (right.rename f) (condition.map (Expr.rename f)) := by
  rw [← renameExprs_eq]
  rfl

@[simp] theorem Statement.rename_insert (target : List String) (source : Option Query)
    (clauses : List Expr) (returning : List SelectItem) :
    (Statement.insert target source clauses returning).rename f
      = .insert (target.map f) (source.map (Query.rename f)) (clauses.map (Expr.rename f))
          (returning.map (SelectItem.rename f)) := by
  cases source <;> simp [Statement.rename, renameExprs_eq, renameItems_eq]

@[simp] theorem Statement.rename_update (target : Source) (sources : List Source)
    (clauses : List Expr) (returning : List SelectItem) :
    (Statement.update target sources clauses returning).rename f
      = .update (target.rename f) (sources.map (Source.rename f)) (clauses.map (Expr.rename f))
          (returning.map (SelectItem.rename f)) := by
  rw [← renameSources_eq, ← renameExprs_eq, ← renameItems_eq]
  rfl

@[simp] theorem Statement.rename_delete (sources : List Source) (clauses : List Expr)
    (returning : List SelectItem) :
    (Statement.delete sources clauses returning).rename f
      = .delete (sources.map (Source.rename f)) (clauses.map (Expr.rename f))
          (returning.map (SelectItem.rename f)) := by
  rw [← renameSources_eq, ← renameExprs_eq, ← renameItems_eq]
  rfl

/-! ## Walks -/

mutual

theorem Expr.walk_rename : ∀ e : Expr, (e.rename f).walk = e.walk.map (Step.rename f)
  | .column path => rfl
  | .literal => rfl
  | .operation operator operands => by
    simp [Expr.rename, Expr.walk, walk_renameExprs operands, Step.rename]
  | .call name arguments => by
    simp [Expr.rename, Expr.walk, walk_renameExprs arguments, Step.rename]
  | .query use operands query => by
    simp [Expr.rename, Expr.walk, walk_renameExprs operands, query.walk_rename, Step.rename]

theorem walk_renameExprs : ∀ es : List Expr,
    walkExprs (renameExprs f es) = (walkExprs es).map (Step.rename f)
  | [] => rfl
  | e :: es => by simp [renameExprs, walkExprs, e.walk_rename, walk_renameExprs es]

theorem Query.walk_rename : ∀ query : Query, (query.rename f).walk = query.walk.map (Step.rename f)
  | .mk ctes body clauses => by
    simp [Query.rename, Query.walk, walk_renameCtes ctes, body.walk_rename,
      walk_renameExprs clauses, Step.rename]

theorem walk_renameCtes : ∀ ctes : List Cte,
    walkCtes (renameCtes f ctes) = (walkCtes ctes).map (Step.rename f)
  | [] => rfl
  | .mk name query :: ctes => by
    simp [renameCtes, walkCtes, query.walk_rename, walk_renameCtes ctes, Step.rename]

theorem Body.walk_rename : ∀ body : Body, (body.rename f).walk = body.walk.map (Step.rename f)
  | .select items sources clauses => by
    simp [Body.rename, Body.walk, walk_renameItems items, walk_renameSources sources,
      walk_renameExprs clauses]
  | .values values => by simp [Body.rename, Body.walk, walk_renameExprs values]
  | .nested query => by simp [Body.rename, Body.walk, query.walk_rename]
  | .combined left right => by
    simp [Body.rename, Body.walk, left.walk_rename, right.walk_rename]
  | .change statement => by simp [Body.rename, Body.walk, statement.walk_rename]

theorem walk_renameItems : ∀ items : List SelectItem,
    walkItems (renameItems f items) = (walkItems items).map (Step.rename f)
  | [] => rfl
  | .wildcard :: items => by simp [renameItems, walkItems, walk_renameItems items]
  | .expression value _ :: items => by
    simp [renameItems, walkItems, value.walk_rename, walk_renameItems items]

theorem Source.walk_rename : ∀ source : Source,
    (source.rename f).walk = source.walk.map (Step.rename f)
  | .table name alias? => rfl
  | .call name arguments _ => by
    simp [Source.rename, Source.walk, walk_renameExprs arguments, Step.rename]
  | .derived query _ => by simp [Source.rename, Source.walk, query.walk_rename, Step.rename]
  | .expressions values _ => by
    simp [Source.rename, Source.walk, walk_renameExprs values, Step.rename]
  | .join left right condition => by
    simp [Source.rename, Source.walk, left.walk_rename, right.walk_rename,
      walk_renameExprs condition]

theorem walk_renameSources : ∀ ss : List Source,
    walkSources (renameSources f ss) = (walkSources ss).map (Step.rename f)
  | [] => rfl
  | s :: ss => by simp [renameSources, walkSources, s.walk_rename, walk_renameSources ss]

/-- **A walk through a renamed statement takes renamed steps.** -/
theorem Statement.walk_rename : ∀ statement : Statement,
    (statement.rename f).walk = statement.walk.map (Step.rename f)
  | .query query => by simp [Statement.rename, Statement.walk, query.walk_rename]
  | .insert target none clauses returning => by
    simp [Statement.rename, Statement.walk, walk_renameExprs clauses, walk_renameItems returning,
      Step.rename]
  | .insert target (some query) clauses returning => by
    simp [Statement.rename, Statement.walk, query.walk_rename, walk_renameExprs clauses,
      walk_renameItems returning, Step.rename]
  | .update target sources clauses returning => by
    simp [Statement.rename, Statement.walk, target.walk_rename, walk_renameSources sources,
      walk_renameExprs clauses, walk_renameItems returning]
  | .delete sources clauses returning => by
    simp [Statement.rename, Statement.walk, walk_renameSources sources, walk_renameExprs clauses,
      walk_renameItems returning]

end

end Trees

end RepoPolicy.Sql
