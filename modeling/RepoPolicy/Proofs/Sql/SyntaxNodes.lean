import RepoPolicy.Sql.Walk

set_option autoImplicit false

/-! # Nodes of syntax trees

The parts of a syntax tree are of several types, which are defined by one another. A `Node` is a part
of any type, and `children` lists what stands directly below it, in the order in which it is written.
What is below a node (`Holds`) and the paths that lead down from it (`Path`) are given by `children`
alone, and what is true of a node as soon as it is true of its children is true of every node
(`Node.induction`). A walk through a node is the walks through its children, with the steps of the
node itself before and after them (`Node.walk_eq`). -/

namespace RepoPolicy.Sql

inductive Node where
  | expr (part : Expr)
  | query (part : Query)
  | cte (part : Cte)
  | body (part : Body)
  | item (part : SelectItem)
  | source (part : Source)
  | statement (part : Statement)

namespace Node

/-- What stands directly below a node, in the order in which it is written. -/
def children : Node → List Node
  | .expr (.column _) => []
  | .expr .literal => []
  | .expr (.operation _ operands) => operands.map .expr
  | .expr (.call _ arguments) => arguments.map .expr
  | .expr (.query _ operands inner) => operands.map .expr ++ [.query inner]
  | .query (.mk ctes main clauses) => ctes.map .cte ++ [.body main] ++ clauses.map .expr
  | .cte (.mk _ inner) => [.query inner]
  | .body (.select items sources clauses) =>
    items.map .item ++ sources.map .source ++ clauses.map .expr
  | .body (.values values) => values.map .expr
  | .body (.nested inner) => [.query inner]
  | .body (.combined left right) => [.body left, .body right]
  | .body (.change inner) => [.statement inner]
  | .item .wildcard => []
  | .item (.expression value _) => [.expr value]
  | .source (.table _ _) => []
  | .source (.call _ arguments _) => arguments.map .expr
  | .source (.derived inner _) => [.query inner]
  | .source (.expressions values _) => values.map .expr
  | .source (.join left right condition) => [.source left, .source right] ++ condition.map .expr
  | .statement (.query inner) => [.query inner]
  | .statement (.insert _ rows clauses returning) =>
    rows.toList.map .query ++ clauses.map .expr ++ returning.map .item
  | .statement (.update target sources clauses returning) =>
    [.source target] ++ sources.map .source ++ clauses.map .expr ++ returning.map .item
  | .statement (.delete sources clauses returning) =>
    sources.map .source ++ clauses.map .expr ++ returning.map .item

/-! ## Induction -/

def Hereditary (P : Node → Prop) : Prop := ∀ node, (∀ child ∈ node.children, P child) → P node

section Induction

variable {P : Node → Prop}

mutual

theorem induction_expr (step : Hereditary P) : ∀ part : Expr, P (.expr part)
  | .column _ => step _ (by simp [children])
  | .literal => step _ (by simp [children])
  | .operation _ operands => step _ (by simpa [children] using induction_exprs step operands)
  | .call _ arguments => step _ (by simpa [children] using induction_exprs step arguments)
  | .query _ operands inner =>
    step _ (by simpa [children, or_imp, forall_and] using
      ⟨induction_exprs step operands, induction_query step inner⟩)

theorem induction_exprs (step : Hereditary P) : ∀ parts : List Expr, ∀ part ∈ parts, P (.expr part)
  | [] => by simp
  | part :: parts => List.forall_mem_cons.2 ⟨induction_expr step part, induction_exprs step parts⟩

theorem induction_query (step : Hereditary P) : ∀ part : Query, P (.query part)
  | .mk ctes main clauses =>
    step _ (by simpa [children, or_imp, forall_and] using
      ⟨induction_ctes step ctes, induction_body step main, induction_exprs step clauses⟩)

theorem induction_ctes (step : Hereditary P) : ∀ parts : List Cte, ∀ part ∈ parts, P (.cte part)
  | [] => by simp
  | .mk _ inner :: parts =>
    List.forall_mem_cons.2 ⟨step _ (by simpa [children] using induction_query step inner), induction_ctes step parts⟩

theorem induction_body (step : Hereditary P) : ∀ part : Body, P (.body part)
  | .select items sources clauses =>
    step _ (by simpa [children, or_imp, forall_and] using
      ⟨induction_items step items, induction_sources step sources, induction_exprs step clauses⟩)
  | .values values => step _ (by simpa [children] using induction_exprs step values)
  | .nested inner => step _ (by simpa [children] using induction_query step inner)
  | .combined left right =>
    step _ (by simpa [children] using ⟨induction_body step left, induction_body step right⟩)
  | .change inner => step _ (by simpa [children] using induction_statement step inner)

theorem induction_items (step : Hereditary P) : ∀ parts : List SelectItem, ∀ part ∈ parts, P (.item part)
  | [] => by simp
  | .wildcard :: parts => List.forall_mem_cons.2 ⟨step _ (by simp [children]), induction_items step parts⟩
  | .expression value _ :: parts =>
    List.forall_mem_cons.2 ⟨step _ (by simpa [children] using induction_expr step value), induction_items step parts⟩

theorem induction_source (step : Hereditary P) : ∀ part : Source, P (.source part)
  | .table _ _ => step _ (by simp [children])
  | .call _ arguments _ => step _ (by simpa [children] using induction_exprs step arguments)
  | .derived inner _ => step _ (by simpa [children] using induction_query step inner)
  | .expressions values _ => step _ (by simpa [children] using induction_exprs step values)
  | .join left right condition =>
    step _ (by simpa [children, or_imp, forall_and] using
      ⟨induction_source step left, induction_source step right, induction_exprs step condition⟩)

theorem induction_sources (step : Hereditary P) : ∀ parts : List Source, ∀ part ∈ parts, P (.source part)
  | [] => by simp
  | part :: parts => List.forall_mem_cons.2 ⟨induction_source step part, induction_sources step parts⟩

theorem induction_statement (step : Hereditary P) : ∀ part : Statement, P (.statement part)
  | .query inner => step _ (by simpa [children] using induction_query step inner)
  | .insert _ none clauses returning =>
    step _ (by simpa [children, or_imp, forall_and] using
      ⟨induction_exprs step clauses, induction_items step returning⟩)
  | .insert _ (some inner) clauses returning =>
    step _ (by simpa [children, or_imp, forall_and] using
      ⟨induction_query step inner, induction_exprs step clauses, induction_items step returning⟩)
  | .update target sources clauses returning =>
    step _ (by simpa [children, or_imp, forall_and] using
      ⟨induction_source step target, induction_sources step sources, induction_exprs step clauses,
        induction_items step returning⟩)
  | .delete sources clauses returning =>
    step _ (by simpa [children, or_imp, forall_and] using
      ⟨induction_sources step sources, induction_exprs step clauses, induction_items step returning⟩)

end

end Induction

/-- What is true of a node as soon as it is true of its children is true of every node. -/
theorem induction {motive : Node → Prop}
    (step : ∀ node : Node, (∀ child ∈ node.children, motive child) → motive node) (node : Node) :
    motive node :=
  match node with
  | .expr part => induction_expr step part
  | .query part => induction_query step part
  | .cte part => induction_ctes step [part] part (List.mem_singleton_self part)
  | .body part => induction_body step part
  | .item part => induction_items step [part] part (List.mem_singleton_self part)
  | .source part => induction_source step part
  | .statement part => induction_statement step part

/-! ## What is below a node -/

/-- A part is a node itself, or is below one of its children. -/
inductive Holds : Node → Node → Prop where
  | self (node : Node) : Holds node node
  | inside {node child part : Node} (hchild : child ∈ node.children) (hpart : Holds child part) :
      Holds node part

/-- A path that starts at a node and leads down, from each node to one of its children. -/
inductive Path : Node → List Node → Prop where
  | stop (node : Node) : Path node [node]
  | down {node child : Node} {path : List Node} (hchild : child ∈ node.children)
      (hpath : Path child path) : Path node (node :: path)

theorem holds_iff {node part : Node} :
    node.Holds part ↔ node = part ∨ ∃ child ∈ node.children, child.Holds part := by
  constructor
  · rintro (_ | ⟨hchild, hpart⟩)
    · exact .inl rfl
    · exact .inr ⟨_, hchild, hpart⟩
  · rintro (rfl | ⟨child, hchild, hpart⟩)
    · exact .self node
    · exact .inside hchild hpart

/-- Whether a node is a query or an expression: what counts as a level of nesting. -/
def isLevel : Node → Bool
  | .expr _ => true
  | .query _ => true
  | _ => false

/-- No path that leads down from a node passes more queries and expressions than the limit. -/
def NestedWithin (limit : Nat) (node : Node) : Prop :=
  ∀ path, node.Path path → path.countP isLevel ≤ limit

/-- A node that is a level itself leaves one level less to its children. -/
theorem nestedWithin_iff {limit : Nat} {node : Node} :
    node.NestedWithin limit ↔ (if node.isLevel then 1 else 0) ≤ limit ∧
      ∀ child ∈ node.children, child.NestedWithin (limit - if node.isLevel then 1 else 0) := by
  constructor
  · intro h
    have hself := h [node] (.stop node)
    rw [List.countP_singleton] at hself
    refine ⟨hself, ?_⟩
    intro child hchild path hpath
    -- a path below a child is one below the node with the node put before it
    have hdown := h (node :: path) (.down hchild hpath)
    rw [List.countP_cons] at hdown
    omega
  · rintro ⟨hself, hchildren⟩ path (_ | ⟨hchild, hpath⟩)
    · rw [List.countP_singleton]
      exact hself
    · have hbelow := hchildren _ hchild _ hpath
      rw [List.countP_cons]
      omega

/-- The name of the relation that a node stands for: a table of a `FROM` clause, or the target of an
`INSERT`. The targets of other statements are sources. -/
def relation? : Node → Option (List String)
  | .source (.table name _) => some name
  | .statement (.insert target _ _ _) => some target
  | _ => none

def binding? : Node → Option String
  | .cte (.mk name _) => some name
  | _ => none

/-! ## Walks -/

def walk : Node → List Step
  | .expr part => part.walk
  | .query part => part.walk
  | .cte part => walkCtes [part]
  | .body part => part.walk
  | .item part => walkItems [part]
  | .source part => part.walk
  | .statement part => part.walk

/-- The steps of a node itself before those of its children. -/
def opening : Node → List Step
  | .expr _ => [.enter]
  | .query _ => [.enter]
  | .cte (.mk name _) => [.binding name]
  | .source (.table name _) => [.source false, .relation name]
  | .source (.call name _ _) => [.source true, .relation name]
  | .source (.derived _ _) => [.source false]
  | .source (.expressions _ _) => [.source false]
  | .statement (.insert target _ _ _) => [.relation target]
  | _ => []

/-- The steps of a node itself after those of its children. -/
def closing (node : Node) : List Step := if node.isLevel then [.leave] else []

theorem walkExprs_eq (parts : List Expr) : walkExprs parts = (parts.map Node.expr).flatMap walk := by
  induction parts with
  | nil => rfl
  | cons part parts ih =>
      rw [List.map_cons, List.flatMap_cons, ← ih]
      rfl

theorem walkSources_eq (parts : List Source) :
    walkSources parts = (parts.map Node.source).flatMap walk := by
  induction parts with
  | nil => rfl
  | cons part parts ih =>
      rw [List.map_cons, List.flatMap_cons, ← ih]
      rfl

theorem walkItems_eq (parts : List SelectItem) :
    walkItems parts = (parts.map Node.item).flatMap walk := by
  induction parts with
  | nil => rfl
  | cons part parts ih =>
      rw [List.map_cons, List.flatMap_cons, ← ih, walk]
      cases part <;> simp [walkItems]

theorem walkCtes_eq (parts : List Cte) : walkCtes parts = (parts.map Node.cte).flatMap walk := by
  induction parts with
  | nil => rfl
  | cons part parts ih =>
      obtain ⟨name, inner⟩ := part
      rw [List.map_cons, List.flatMap_cons, ← ih, walk]
      simp [walkCtes]

/-- **A walk goes through the children of a node in order**, between the steps of the node itself. -/
theorem walk_eq (node : Node) :
    node.walk = node.opening ++ node.children.flatMap walk ++ node.closing := by
  cases node with
  | expr part =>
      cases part <;>
        simp [walk, opening, closing, isLevel, children, Expr.walk, walkExprs_eq]
  | query part =>
      obtain ⟨ctes, main, clauses⟩ := part
      simp [walk, opening, closing, isLevel, children, Query.walk, walkCtes_eq, walkExprs_eq]
  | cte part =>
      obtain ⟨name, inner⟩ := part
      simp [walk, opening, closing, isLevel, children, walkCtes]
  | body part =>
      cases part <;>
        simp [walk, opening, closing, isLevel, children, Body.walk, walkItems_eq, walkSources_eq,
          walkExprs_eq]
  | item part => cases part <;> simp [walk, opening, closing, isLevel, children, walkItems]
  | source part =>
      cases part <;>
        simp [walk, opening, closing, isLevel, children, Source.walk, walkExprs_eq]
  | statement part =>
      cases part with
      | insert target rows clauses returning =>
          cases rows <;>
            simp [walk, opening, closing, isLevel, children, Statement.walk, walkItems_eq,
              walkExprs_eq]
      | _ =>
          simp [walk, opening, closing, isLevel, children, Statement.walk, walkItems_eq,
            walkSources_eq, walkExprs_eq]

end Node

end RepoPolicy.Sql
