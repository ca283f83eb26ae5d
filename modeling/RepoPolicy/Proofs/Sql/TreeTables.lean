import Mathlib.Data.List.Infix
import RepoPolicy.Proofs.Sql.SyntaxNodes
import RepoPolicy.Proofs.Sql.Walks

set_option autoImplicit false

/-! # The tables of a syntax tree

A walk through a node goes as deep as the node is nested, ends where it began, and passes the
relations and the bound names that the node holds (`records_walk`). With what is found on any walk
(`collect_of_orderly`) it follows that the tables of a text are exactly the relations in its tree, and
that a limit which is high enough is as good as any higher one (`treeTables_are_exact`). -/

namespace RepoPolicy.Sql

open RepoPolicy.Text

/-! ## What a node holds -/

namespace Node

/-- A relation somewhere below the node has this name, its parts joined with dots. -/
def HoldsTable (node : Node) (table : String) : Prop :=
  ∃ part name, node.Holds part ∧ part.relation? = some name ∧ table = ".".intercalate name

/-- A `WITH` clause somewhere below the node binds this name, in lower case. -/
def HoldsBinding (node : Node) (bound : String) : Prop :=
  ∃ part name, node.Holds part ∧ part.binding? = some name ∧ bound = lowercase name

/-- What is true of a part of a node is true of the node itself, or of a part of one of its
children. -/
theorem exists_holds_iff {node : Node} {P : Node → Prop} :
    (∃ part, node.Holds part ∧ P part) ↔
      P node ∨ ∃ child ∈ node.children, ∃ part, child.Holds part ∧ P part := by
  constructor
  · rintro ⟨part, hholds, hpart⟩
    rcases holds_iff.1 hholds with rfl | ⟨child, hchild, hinside⟩
    · exact .inl hpart
    · exact .inr ⟨child, hchild, part, hinside, hpart⟩
  · rintro (hnode | ⟨child, hchild, part, hinside, hpart⟩)
    · exact ⟨node, .self node, hnode⟩
    · exact ⟨part, .inside hchild hinside, hpart⟩

theorem holdsTable_iff {node : Node} {table : String} :
    node.HoldsTable table ↔ (∃ name, node.relation? = some name ∧ table = ".".intercalate name) ∨
      ∃ child ∈ node.children, child.HoldsTable table := by
  simp only [HoldsTable, exists_and_left]
  exact exists_holds_iff

theorem holdsBinding_iff {node : Node} {bound : String} :
    node.HoldsBinding bound ↔ (∃ name, node.binding? = some name ∧ bound = lowercase name) ∨
      ∃ child ∈ node.children, child.HoldsBinding bound := by
  simp only [HoldsBinding, exists_and_left]
  exact exists_holds_iff

end Node

/-! ## The steps of a node itself -/

namespace Node

theorem opening_of_isLevel {node : Node} (h : node.isLevel = true) : node.opening = [.enter] := by
  cases node with
  | expr part | query part => rfl
  | cte part | body part | item part | source part | statement part =>
      exact absurd h (by simp [isLevel])

/-- A node that is no level takes no step in or out. -/
theorem count_opening {node : Node} (h : node.isLevel = false) :
    node.opening.count .enter = 0 ∧ node.opening.count .leave = 0 := by
  fun_cases opening node with
  | case1 | case2 => exact absurd h (by simp [isLevel])
  | _ => exact ⟨rfl, rfl⟩

theorem callsNamed_opening (node : Node) : CallsNamed node.opening := by
  fun_cases opening node <;> simp [callsNamed_cons_iff, callsNamed_nil]

theorem relationNames_opening (node : Node) : relationNames node.opening = node.relation?.toList := by
  fun_cases opening node <;> simp_all [relationNames, relation?]

theorem binding_mem_opening {node : Node} {name : String} :
    .binding name ∈ node.opening ↔ node.binding? = some name := by
  fun_cases opening node <;> simp_all [binding?, eq_comm]

theorem relationNames_closing (node : Node) : relationNames node.closing = [] := by
  cases hlevel : node.isLevel <;> simp [closing, hlevel, relationNames]

theorem binding_not_mem_closing {node : Node} {name : String} : .binding name ∉ node.closing := by
  cases hlevel : node.isLevel <;> simp [closing, hlevel]

end Node

/-! ## Walks through nodes -/

/-- What a walk through some nodes passes, and how deep it goes, is what the nodes hold and how deep
they are nested. It ends where it began. -/
structure Records (nodes : List Node) (steps : List Step) : Prop where
  orderly : Orderly steps
  closed : steps.count .enter = steps.count .leave
  staysWithin_iff : ∀ limit, StaysWithin limit steps ↔ ∀ node ∈ nodes, node.NestedWithin limit
  mem_relationNames : ∀ table, (∃ name ∈ relationNames steps, table = ".".intercalate name) ↔
    ∃ node ∈ nodes, node.HoldsTable table
  mem_bindings : ∀ bound, (∃ name, .binding name ∈ steps ∧ bound = lowercase name) ↔
    ∃ node ∈ nodes, node.HoldsBinding bound

/-- One walk after the other. -/
theorem Records.append {first second : List Node} {steps more : List Step}
    (hfirst : Records first steps) (hsecond : Records second more) :
    Records (first ++ second) (steps ++ more) where
  orderly := hfirst.orderly.append hsecond.orderly
  closed := by rw [List.count_append, List.count_append, hfirst.closed, hsecond.closed]
  staysWithin_iff := by
    intro limit
    rw [staysWithin_append_iff hfirst.closed, hfirst.staysWithin_iff, hsecond.staysWithin_iff,
      List.forall_mem_append]
  mem_relationNames := by
    intro table
    rw [relationNames_append hfirst.orderly.callsNamed]
    simp only [List.mem_append, or_and_right, exists_or, hfirst.mem_relationNames,
      hsecond.mem_relationNames]
  mem_bindings := by
    intro bound
    simp only [List.mem_append, or_and_right, exists_or, hfirst.mem_bindings, hsecond.mem_bindings]

theorem records_flatMap {nodes : List Node} (h : ∀ node ∈ nodes, Records [node] node.walk) :
    Records nodes (nodes.flatMap Node.walk) := by
  induction nodes with
  | nil =>
      exact {
        orderly := ⟨by simp, callsNamed_nil⟩
        closed := rfl
        staysWithin_iff := by simp [StaysWithin]
        mem_relationNames := by simp [relationNames]
        mem_bindings := by simp }
  | cons node nodes ih =>
      obtain ⟨hnode, hnodes⟩ := List.forall_mem_cons.1 h
      exact hnode.append (ih hnodes)

/-- How deep a walk through a node goes, from how deep the walks through its children go. -/
theorem depth_of_children {node : Node}
    (h : Records node.children (node.children.flatMap Node.walk)) :
    Orderly node.walk ∧ node.walk.count .enter = node.walk.count .leave ∧
      ∀ limit, StaysWithin limit node.walk ↔ node.NestedWithin limit := by
  cases hlevel : node.isLevel with
  | true =>
      have hwalk : node.walk = .enter :: node.children.flatMap Node.walk ++ [.leave] := by
        rw [Node.walk_eq, Node.opening_of_isLevel hlevel, Node.closing, if_pos hlevel]
        rfl
      rw [hwalk]
      refine ⟨h.orderly.level h.closed, by simp [h.closed], ?_⟩
      intro limit
      rw [staysWithin_level_iff h.closed, h.staysWithin_iff, Node.nestedWithin_iff, if_pos hlevel]
  | false =>
      have hnone : ¬node.isLevel = true := Bool.eq_false_iff.1 hlevel
      obtain ⟨henter, hleave⟩ := Node.count_opening hlevel
      have hwalk : node.walk = node.opening ++ node.children.flatMap Node.walk := by
        rw [Node.walk_eq, Node.closing, if_neg hnone, List.append_nil]
      have hopening : Orderly node.opening := by
        refine ⟨fun front hfront => ?_, node.callsNamed_opening⟩
        have := hfront.sublist.count_le .leave
        omega
      rw [hwalk]
      refine ⟨hopening.append h.orderly, by simp [h.closed, henter, hleave], ?_⟩
      intro limit
      have hwithin : StaysWithin limit node.opening := by
        intro front hfront
        have := hfront.sublist.count_le .enter
        omega
      rw [staysWithin_append_iff (henter.trans hleave.symm), h.staysWithin_iff,
        Node.nestedWithin_iff, if_neg hnone]
      simp [hwithin]

/-- **A walk through a node records it.** By induction: the walk goes down one level if the node is
one, then through the children, then up again. -/
theorem records_walk (node : Node) : Records [node] node.walk := by
  induction node using Node.induction with
  | step node ih =>
      have hchildren : Records node.children (node.children.flatMap Node.walk) := records_flatMap ih
      obtain ⟨horderly, hclosed, hwithin⟩ := depth_of_children hchildren
      have hopening := node.callsNamed_opening
      have hnames : relationNames node.walk
          = node.relation?.toList ++ relationNames (node.children.flatMap Node.walk) := by
        rw [Node.walk_eq, relationNames_append (hopening.append hchildren.orderly.callsNamed),
          relationNames_append hopening, Node.relationNames_opening, Node.relationNames_closing,
          List.append_nil]
      exact {
        orderly := horderly
        closed := hclosed
        staysWithin_iff := by simpa using hwithin
        mem_relationNames := by
          intro table
          simp only [hnames, List.mem_append, or_and_right, exists_or, hchildren.mem_relationNames,
            Option.mem_toList, ← Node.holdsTable_iff, List.mem_singleton, exists_eq_left]
        mem_bindings := by
          intro bound
          simp only [Node.walk_eq, List.mem_append, Node.binding_not_mem_closing, or_false,
            Node.binding_mem_opening, or_and_right, exists_or, hchildren.mem_bindings,
            ← Node.holdsBinding_iff, List.mem_singleton, exists_eq_left] }

/-! ## The tables of a text -/

theorem flatMap_walk (statements : List Statement) :
    statements.flatMap Statement.walk = (statements.map Node.statement).flatMap Node.walk := by
  rw [List.flatMap_map]
  rfl

/-- The tables of a text that is parsed are what a walk through its statements finds. -/
theorem parseReferences_eq_ok_iff {sql : String} {statements : List Statement}
    (hparse : parseStatements sql = .ok statements) (hne : statements ≠ []) {limit : Nat}
    {references : References} :
    parseReferences sql limit = .ok references ↔
      ∃ last, collect limit .start ((statements.map Node.statement).flatMap Node.walk) = some last ∧
        last.references = references := by
  rw [parseReferences, hparse, ← flatMap_walk]
  obtain ⟨first, others, rfl⟩ := List.exists_cons_of_ne_nil hne
  simp only [treeReferences]
  cases collect limit .start ((first :: others).flatMap Statement.walk) with
  | none => simp
  | some last => simp

/-- **The tables of a syntax tree are exact.** A text that can be parsed has its tables found if and
only if no path in any of its statements passes more queries and expressions than the limit. The
tables are then the names of the relations at any depth, without the names of calls, and the bound
names those of the `WITH` clauses at any depth, each once and in increasing order; and every higher
limit gives the same. The like holds of an orderly walk through anything, whatever kinds of statements
there are: it is stopped if and only if it goes deeper than the limit, and else finds the relations
and the bound names that it passes. -/
theorem treeTables_are_exact {sql : String} {statements : List Statement}
    (hparse : parseStatements sql = .ok statements) (hne : statements ≠ []) (limit : Nat) :
    ((∃ references, parseReferences sql limit = .ok references) ↔
      ∀ statement ∈ statements, (Node.statement statement).NestedWithin limit) ∧
    (∀ references, parseReferences sql limit = .ok references →
      (∀ table, table ∈ references.tables ↔
        ∃ statement ∈ statements, (Node.statement statement).HoldsTable table) ∧
      (∀ bound, bound ∈ references.cteNames ↔
        ∃ statement ∈ statements, (Node.statement statement).HoldsBinding bound) ∧
      references.tables.Pairwise (· < ·) ∧ references.cteNames.Pairwise (· < ·) ∧
      ∀ higher, limit ≤ higher → parseReferences sql higher = .ok references) ∧
    ∀ steps, Orderly steps →
      ((∃ last, collect limit .start steps = some last) ↔ StaysWithin limit steps) ∧
      ∀ last, collect limit .start steps = some last →
        last.HasFound steps ∧
        ∀ higher, limit ≤ higher → collect higher .start steps = some last := by
  have hrecords : Records (statements.map Node.statement)
      ((statements.map Node.statement).flatMap Node.walk) :=
    records_flatMap fun node _ => records_walk node
  obtain ⟨hfits, hfinds⟩ := collect_of_orderly hrecords.orderly limit
  refine ⟨?_, ?_, fun steps hsteps => collect_of_orderly hsteps limit⟩
  · rw [hrecords.staysWithin_iff, List.forall_mem_map] at hfits
    rw [← hfits]
    simp only [parseReferences_eq_ok_iff hparse hne]
    exact ⟨fun ⟨_, last, hlast, _⟩ => ⟨last, hlast⟩, fun ⟨last, hlast⟩ => ⟨_, last, hlast, rfl⟩⟩
  · intro references hreferences
    obtain ⟨last, hlast, rfl⟩ := (parseReferences_eq_ok_iff hparse hne).1 hreferences
    obtain ⟨hfound, hhigher⟩ := hfinds last hlast
    refine ⟨?_, ?_, hfound.sorted.1, hfound.sorted.2, ?_⟩
    · intro table
      exact ((hfound.mem_tables table).trans (hrecords.mem_relationNames table)).trans (by simp)
    · intro bound
      exact ((hfound.mem_cteNames bound).trans (hrecords.mem_bindings bound)).trans (by simp)
    · intro higher hle
      exact (parseReferences_eq_ok_iff hparse hne).2 ⟨last, hhigher higher hle, rfl⟩

theorem tables_beside_a_call_at_every_limit_above :
    ((∃ statements, parseStatements
        "WITH Recent AS (SELECT id FROM Logs) SELECT * FROM a.\"Users\", f((SELECT 1 FROM b)), Recent"
          = .ok statements ∧ statements ≠ [] ∧
        ∀ statement ∈ statements, (Node.statement statement).NestedWithin 4) ∧
      ∀ higher, 4 ≤ higher → parseReferences
        "WITH Recent AS (SELECT id FROM Logs) SELECT * FROM a.\"Users\", f((SELECT 1 FROM b)), Recent"
          higher = .ok ⟨["Logs", "Recent", "a.Users", "b"], ["recent"]⟩) ∧
    (Orderly [.relation ["a"], .enter, .source true, .relation ["f"], .leave] ∧
      ∀ higher, 4 ≤ higher →
        collect higher .start [.relation ["a"], .enter, .source true, .relation ["f"], .leave]
          = some ⟨0, false, ["a"], []⟩) := by
  have hfound : parseReferences
      "WITH Recent AS (SELECT id FROM Logs) SELECT * FROM a.\"Users\", f((SELECT 1 FROM b)), Recent" 4
        = .ok ⟨["Logs", "Recent", "a.Users", "b"], ["recent"]⟩ := by
    decide +kernel
  have horderly : Orderly [.relation ["a"], .enter, .source true, .relation ["f"], .leave] := by
    refine ⟨?_, by simp [callsNamed_cons_iff, callsNamed_nil]⟩
    simp only [← List.mem_inits]
    decide
  cases hparse : parseStatements
      "WITH Recent AS (SELECT id FROM Logs) SELECT * FROM a.\"Users\", f((SELECT 1 FROM b)), Recent" with
  | error cause => simp [parseReferences, hparse] at hfound
  | ok statements =>
      have hne : statements ≠ [] := by
        rintro rfl
        simp [parseReferences, hparse] at hfound
      obtain ⟨hfits, hexact, hwalks⟩ := treeTables_are_exact hparse hne 4
      refine ⟨⟨⟨statements, rfl, hne, hfits.1 ⟨_, hfound⟩⟩, (hexact _ hfound).2.2.2.2⟩, horderly, ?_⟩
      exact ((hwalks _ horderly).2 ⟨0, false, ["a"], []⟩ (by decide)).2

end RepoPolicy.Sql
