import RepoPolicy.Proofs.Sql.Grammar.PhraseReading

set_option autoImplicit false

/-! # Reading queries

What a source, a statement that changes rows or a query is read from has its brackets in pairs. So
every level reads phrases and text with its brackets in pairs (`phrasesAll_level`). -/

namespace RepoPolicy.Sql.Grammar

variable {inner : Inner}

/-! ## Sources -/

/-- The name of a column and its type. -/
theorem balanced_columnDefinition : Balanced (identifier >>= fun _ => attempt dataType) :=
  reads_identifier.bind fun _ _ _ => (reads_attempt reads_dataType).balanced

theorem balanced_sourceAlias? : Balanced sourceAlias? := by
  refine (reads_alias? _).bind fun name _ _ => ?_
  cases name with
  | none => exact balanced_pure _
  | some name =>
      refine reads_symbol?_opening .round ?_ (balanced_pure _)
      refine (balanced_commaSeparated balanced_columnDefinition).inside fun _ _ _ => ?_
      exact readsUpTo_expectSymbol (balanced_pure _)

theorem closes_sourceArguments (h : PhrasesAll inner) : Closes ")" (sourceArguments inner) := by
  refine readsUpTo_symbol? (balanced_pure _) ?_
  refine (balanced_commaSeparated (balanced_argument h)).inside fun _ _ _ => ?_
  exact readsUpTo_expectSymbol (balanced_pure _)

theorem closes_derivedTail (h : PhrasesAll inner) : Closes ")" (derivedTail inner) := by
  refine h.query.inside fun _ _ _ => readsUpTo_expectSymbol ?_
  exact balanced_sourceAlias?.bind fun _ _ _ => balanced_pure _

theorem balanced_rows (h : PhrasesAll inner) : Balanced (rows inner) := by
  have hrow : Balanced (keyword? "ROW" >>= fun _ => inParentheses (commaSeparated inner.expr)) :=
    (balanced_keyword? _).bind fun _ _ _ =>
      balanced_inParentheses (balanced_commaSeparated h.expr.balanced)
  exact (balanced_commaSeparated hrow).bind fun _ _ _ => balanced_pure _

theorem closes_parenthesizedSource (h : PhrasesAll inner) :
    Closes ")" (parenthesizedSource inner) := by
  refine h.source.inside fun source _ _ => readsUpTo_expectSymbol ?_
  refine balanced_sourceAlias?.bind fun outer _ _ => reads_ite (balanced_pure _) ?_
  split
  · exact reads_fail
  · exact balanced_pure _
  · exact balanced_pure _

theorem balanced_lateralTail (h : PhrasesAll inner) : Balanced (lateralTail inner) := by
  refine reads_symbol?_opening .round (closes_derivedTail h) (reads_objectName.bind fun _ _ _ => ?_)
  refine reads_expectSymbol_opening .round ((closes_sourceArguments h).bind fun _ _ _ => ?_)
  exact balanced_sourceAlias?.bind fun _ _ _ => balanced_pure _

/-- The end of a named source: a table, or a call with its values. -/
theorem balanced_namedSourceEnd (name : List String) (values : Option (List Expr)) : Balanced (do
    let _ ← keywords? ["WITH", "ORDINALITY"]
    let given ← sourceAlias?
    match values with
    | some values => return Source.call name values given
    | none => return Source.table name given) := by
  refine (balanced_keywords? _ _).bind fun _ _ _ => balanced_sourceAlias?.bind fun _ _ _ => ?_
  cases values <;> exact balanced_pure _

theorem balanced_namedSource (h : PhrasesAll inner) : Balanced (namedSource inner) := by
  refine reads_objectName.bind fun name _ _ => (balanced_keyword? _).bind fun _ _ _ => ?_
  refine balanced_when balanced_columnNames ?_
  refine reads_symbol?_opening .round ?_
    ((balanced_pure _).bind fun values _ _ => balanced_namedSourceEnd name values)
  refine (closes_sourceArguments h).bind fun _ _ _ => ?_
  exact (balanced_pure _).bind fun values _ _ => balanced_namedSourceEnd name values

/-- Something in parentheses that may also be read in another way. -/
theorem closes_attempt {α β : Type} {closing : String} {first : Parser α}
    {next : Option α → Parser β} (hfirst : Closes closing first)
    (hsome : ∀ value, Balanced (next (some value))) (hnone : Closes closing (next none)) :
    Closes closing (attempt first >>= next) := by
  intro tokens value rest hrun
  obtain ⟨found, more, hfound, hvalue⟩ := bind_eq_ok_iff.1 hrun
  rcases of_attempt_eq_ok hfound with ⟨first, rfl, hfirstRun⟩ | ⟨rfl, rfl⟩
  · obtain ⟨inside, outer, used, shape, rfl, hinside, houtline, -⟩ :=
      hfirst tokens first more hfirstRun
    obtain ⟨used', shape', rfl, houtline', -⟩ := hsome first more value rest hvalue
    exact ⟨inside, outer, used ++ used', shape ++ shape', by rw [List.append_assoc], hinside,
      houtline.append houtline', trivial⟩
  · exact hnone more value rest hvalue

theorem balanced_source (h : PhrasesAll inner) : Balanced (source inner) := by
  refine (balanced_keyword? _).bind fun _ _ _ => reads_ite (balanced_lateralTail h) ?_
  refine (balanced_keyword? _).bind fun _ _ _ => reads_ite ?_ (reads_symbol?_opening .round ?_ ?_)
  · refine (balanced_inParentheses h.expr.balanced).bind fun _ _ _ => ?_
    exact balanced_sourceAlias?.bind fun _ _ _ => balanced_pure _
  · -- a derived table if it can be read as one, and else a source in parentheses
    refine closes_attempt (closes_derivedTail h) (fun _ => balanced_pure _) ?_
    exact closes_parenthesizedSource h
  · refine reads_get fun tokens => ?_
    split
    · refine Reads.bind (balanced_expectKeyword _) (fun _ _ _ => ?_) _
      refine (balanced_rows h).bind fun _ _ _ => balanced_sourceAlias?.bind fun _ _ _ => ?_
      exact balanced_pure _
    · refine readsAt_behind rfl ?_
      refine (balanced_inParentheses (balanced_commaSeparated h.expr.balanced)).bind fun _ _ _ => ?_
      refine (balanced_keywords? _ _).bind fun _ _ _ => balanced_sourceAlias?.bind fun _ _ _ => ?_
      refine (balanced_keywords? _ _).bind fun _ _ _ => ?_
      exact balanced_when (reads_alias? _).balanced (balanced_pure _)
    · exact balanced_namedSource h tokens

/-! ## Joins -/

theorem balanced_joinCondition? (h : PhrasesAll inner) : Balanced (joinCondition? inner) := by
  refine (balanced_keyword? _).bind fun _ _ _ => reads_ite ?_ ((balanced_keyword? _).bind fun _ _ _ => ?_)
  · exact h.expr.bind fun _ _ _ => balanced_pure _
  · exact reads_ite (balanced_columnNames.bind fun _ _ _ => balanced_pure _) (balanced_pure _)

theorem balanced_joinStart : Balanced joinStart := by
  refine (balanced_keyword? _).bind fun _ _ _ => reads_ite ?_ ((balanced_keyword? _).bind fun _ _ _ => ?_)
  · exact (balanced_expectOneOf _).bind fun _ _ _ => balanced_pure _
  refine reads_ite ((balanced_expectKeyword _).bind fun _ _ _ => balanced_pure _) ?_
  refine (balanced_keyword? _).bind fun natural _ _ => ?_
  extract_lets found
  have hjoin : Balanced (expectKeyword "JOIN" >>= fun _ => pure found) :=
    (balanced_expectKeyword _).bind fun _ _ _ => balanced_pure _
  refine (balanced_oneOf? _).bind fun keyword _ _ => ?_
  split
  · exact balanced_pure _
  iterate 2 exact (balanced_oneOf? _).bind fun _ _ _ => hjoin
  · exact (balanced_keyword? _).bind fun _ _ _ => hjoin
  · exact hjoin
  · exact reads_ite reads_fail (balanced_pure _)

theorem balanced_joins (h : PhrasesAll inner) (fuel : Nat) (left : Source) :
    Balanced (joins inner fuel left) := by
  induction fuel generalizing left with
  | zero => exact balanced_pure _
  | succ fuel ih =>
      -- a join with a condition, whose right side may have joins of its own
      have hconditional : ∀ condition? : Parser (List Expr), Balanced condition? → Balanced (do
          let right ← source inner
          let right ←
            if ← peekOneOf ["JOIN", "INNER", "LEFT", "RIGHT", "FULL"] then joins inner fuel right
            else pure right
          let condition ← condition?
          joins inner fuel (.join left right condition)) := by
        intro condition? hcondition?
        refine (balanced_source h).bind fun right _ _ => (quiet_peekOneOf _).bind fun _ => ?_
        have hclose : ∀ right, Balanced (do
            let condition ← condition?
            joins inner fuel (.join left right condition)) :=
          fun right => hcondition?.bind fun _ _ _ => ih _
        refine reads_ite ((ih right).bind fun right _ _ => hclose right) ?_
        exact (balanced_pure _).bind fun right _ _ => hclose right
      refine (balanced_keyword? _).bind fun _ _ _ => balanced_joinStart.bind fun start _ _ => ?_
      cases start with
      | none => exact balanced_pure _
      | cross => exact (balanced_source h).bind fun _ _ _ => ih _
      | conditional => exact hconditional _ (balanced_joinCondition? h)
      | natural => exact hconditional _ (balanced_pure _)

/-- **The brackets of sources come in pairs.** -/
theorem balanced_joinedSource (h : PhrasesAll inner) : Balanced (joinedSource inner) :=
  (balanced_source h).bind fun first _ _ => reads_get fun tokens => balanced_joins h _ first tokens

/-! ## Select lists -/

/-- What may follow a star gives it no name. -/
theorem reads_starOptions : Reads (fun _ shape => shape = [] ∨ (.symbol "," ∉ shape ∧ Unnamed shape))
    starOptions := by
  refine reads_oneOf?_bind (fun word spelling hmem => ?_) (reads_pure (.inl rfl))
  have hlead : leadsOperand (.word word spelling) = true := by
    simp only [List.mem_cons, List.not_mem_nil, or_false] at hmem
    rcases hmem with rfl | rfl <;> rfl
  refine (quiet_peekSymbol _).bind fun _ => reads_ite ?_ (reads_identifier.bind fun _ shape hname => ?_)
  · refine Reads.bind (reads_inParentheses (balanced_commaSeparated reads_identifier.balanced)) ?_
    rintro _ shape ⟨-, rfl⟩
    exact reads_pure (.inr ⟨by simp, unnamed_of_last [.word word spelling] (by simp)⟩)
  · obtain ⟨token, rfl, htoken⟩ := hname
    have hpath := pathShape_name htoken
    exact reads_pure (.inr ⟨by simpa using hpath.commaFree, hpath.unnamed_behind hlead⟩)

/-- What an item of a select list is read from, in outline: it ends in its name, or it does not look
as if it had one. -/
structure ItemShape (item : SelectItem) (shape : List Token) : Prop where
  commaFree : .symbol "," ∉ shape
  spelled : (∃ front token name, shape = front ++ [token] ∧ nameOf? token = some name ∧
    item.name? = some name) ∨ (item.name? = none ∧ carriesName shape = false)

theorem Phrase.itemShape {value : Expr} {shape : List Token} (h : Phrase value shape) :
    ItemShape (.expression value none) shape := by
  refine ⟨h.commaFree, ?_⟩
  rcases h.spelled with ⟨name, hname, front, token, rfl, htoken, -⟩ | hnone
  · exact .inl ⟨front, token, name, rfl, htoken, hname⟩
  · exact .inr hnone

theorem reads_selectItem (h : PhrasesAll inner) : Reads ItemShape (selectItem inner) := by
  -- the alias names the item, and without one its expression does
  have hitem : ∀ {value : Expr} {shape : List Token}, Phrase value shape →
      Reads (fun item more => ItemShape item (shape ++ more)) (do
        return SelectItem.expression value (← alias? reservedForColumnAlias)) := by
    intro value shape hshape
    refine (reads_alias? _).bind fun given more hgiven => reads_pure ?_
    rw [List.append_nil]
    rcases hgiven with ⟨rfl, rfl⟩ | ⟨name, token, rfl, htoken, rfl | ⟨asWord, rfl⟩⟩
    · rw [List.append_nil]
      exact hshape.itemShape
    · have hcomma := (pathShape_name htoken).commaFree
      exact ⟨by simpa [hshape.commaFree] using hcomma, .inl ⟨shape, token, name, rfl, htoken, rfl⟩⟩
    · have hcomma := (pathShape_name htoken).commaFree
      refine ⟨by simpa [hshape.commaFree] using hcomma, .inl ⟨shape ++ [.word asWord "AS"], token,
        name, by simp, htoken, rfl⟩⟩
  refine (quiet_peekOneOf _).bind fun isFrom => (reads_starred h).bind fun found shape hfound => ?_
  split
  · obtain ⟨front, rfl, hfree⟩ := hfound
    refine reads_starOptions.bind fun _ options hoptions => reads_pure ?_
    rw [List.append_nil]
    rcases hoptions with rfl | ⟨hoptionsFree, hunnamed⟩
    · rw [List.append_nil]
      exact ⟨by simpa using hfree, .inr ⟨rfl, (unnamed_of_last front (by simp)).carriesName⟩⟩
    · refine ⟨by simp [hfree, hoptionsFree], .inr ⟨rfl, ?_⟩⟩
      exact (hunnamed.append_left (front ++ [.symbol "*"])).carriesName
  · exact reads_ite reads_fail_bind (hitem hfound)
  · exact hitem hfound

theorem balanced_returning? (h : PhrasesAll inner) : Balanced (returning? inner) :=
  (balanced_keyword? _).bind fun _ _ _ =>
    reads_ite (balanced_commaSeparated (reads_selectItem h).balanced) (balanced_pure _)

theorem balanced_where? (h : PhrasesAll inner) : Balanced (where? inner) := by
  refine (balanced_keyword? _).bind fun _ _ _ => reads_ite ?_ (balanced_pure _)
  exact h.expr.bind fun _ _ _ => balanced_pure _

/-! ## Statements that change rows -/

theorem balanced_assignment (h : PhrasesAll inner) : Balanced (assignment inner) := by
  have hvalue : Balanced (expectSymbol "=" >>= fun _ => inner.expr) :=
    (balanced_expectSymbol rfl).bind fun _ _ _ => h.expr.balanced
  refine reads_symbol?_opening .round ?_ (reads_objectName.bind fun _ _ _ => hvalue)
  refine (balanced_commaSeparated reads_objectName.balanced).inside fun _ _ _ => ?_
  exact readsUpTo_expectSymbol hvalue

theorem balanced_onConflict? (h : PhrasesAll inner) : Balanced (onConflict? inner) := by
  have hassignments := balanced_commaSeparated (balanced_assignment h)
  refine (balanced_keyword? _).bind fun _ _ _ => reads_ite ?_ (balanced_pure _)
  refine (balanced_keyword? _).bind fun _ _ _ => reads_ite ((balanced_keywords? _ _).bind fun _ _ _ => ?_) ?_
  · extract_lets action
    have haction : Balanced (action ()) := by
      refine (balanced_expectKeyword _).bind fun _ _ _ => (balanced_keyword? _).bind fun _ _ _ => ?_
      refine reads_ite (balanced_pure _) ((balanced_expectKeyword _).bind fun _ _ _ => ?_)
      refine (balanced_expectKeyword _).bind fun _ _ _ => hassignments.bind fun _ _ _ => ?_
      exact (balanced_where? h).bind fun _ _ _ => balanced_pure _
    refine reads_ite (reads_objectName.bind fun _ _ _ => haction) ?_
    exact (quiet_peekSymbol _).bind fun _ => balanced_when balanced_columnNames haction
  · refine (balanced_expectKeyword _).bind fun _ _ _ => (balanced_expectKeyword _).bind fun _ _ _ => ?_
    exact (balanced_expectKeyword _).bind fun _ _ _ => hassignments

theorem quiet_peekSubquery : Quiet peekSubquery := by
  intro tokens value rest hrun
  unfold peekSubquery at hrun
  obtain ⟨tokens', more, hget, hmatch⟩ := bind_eq_ok_iff.1 hrun
  obtain ⟨rfl, rfl⟩ := Prod.mk.inj (Except.ok.inj hget)
  split at hmatch <;> exact (Prod.mk.inj (Except.ok.inj hmatch)).2.symm

theorem balanced_insertTail (h : PhrasesAll inner) : Balanced (insertTail inner) := by
  refine (balanced_keyword? _).bind fun _ _ _ => balanced_when (balanced_expectOneOf _) ?_
  refine (balanced_oneOf? _).bind fun _ _ _ => (balanced_keyword? _).bind fun _ _ _ => ?_
  refine (balanced_keyword? _).bind fun _ _ _ => (balanced_keyword? _).bind fun _ _ _ => ?_
  refine (balanced_keyword? _).bind fun _ _ _ => reads_objectName.bind fun target _ _ => ?_
  refine (balanced_keywords? _ _).bind fun _ _ _ => ?_
  extract_lets clauses
  -- the clauses behind the rows, whatever they were
  have hclauses : ∀ rows, Balanced (clauses rows) := by
    intro rows
    refine (balanced_keyword? _).bind fun _ _ _ => ?_
    extract_lets close
    have hclose : Balanced (close ()) := by
      refine (balanced_onConflict? h).bind fun _ _ _ => ?_
      exact (balanced_returning? h).bind fun _ _ _ => balanced_pure _
    refine reads_ite (reads_objectName.bind fun _ _ _ => ?_) hclose
    exact (quiet_peekSymbol _).bind fun _ => balanced_when balanced_columnNames hclose
  have hrows : Balanced (inner.query >>= fun query => pure (some query) >>= clauses) :=
    h.query.bind fun _ _ _ => (balanced_pure _).bind fun rows _ _ => hclauses rows
  refine reads_ite ((balanced_pure _).bind fun rows _ _ => hclauses rows) ?_
  refine quiet_peekSubquery.bind fun _ => reads_ite ?_ hrows
  exact (quiet_peekSymbol _).bind fun _ => balanced_when balanced_columnNames hrows

theorem balanced_updateTail (h : PhrasesAll inner) : Balanced (updateTail inner) := by
  refine (balanced_keyword? _).bind fun _ _ _ => balanced_when (balanced_expectOneOf _) ?_
  refine (balanced_joinedSource h).bind fun _ _ _ => (balanced_expectKeyword _).bind fun _ _ _ => ?_
  refine (balanced_commaSeparated (balanced_assignment h)).bind fun _ _ _ => ?_
  refine (balanced_keyword? _).bind fun _ _ _ => ?_
  extract_lets close
  have hclose : ∀ sources, Balanced (close sources) := by
    intro sources
    refine (balanced_where? h).bind fun _ _ _ => ?_
    exact (balanced_returning? h).bind fun _ _ _ => balanced_pure _
  refine reads_ite ((balanced_joinedSource h).bind fun _ _ _ => ?_) ?_
  · exact (balanced_pure _).bind fun sources _ _ => hclose sources
  · exact (balanced_pure _).bind fun sources _ _ => hclose sources

/-! ## Clauses of queries -/

/-- Expressions up to the closing parenthesis, which may be none. -/
theorem closes_exprs (h : PhrasesAll inner) : Closes ")" (do
    if ← symbol? ")" then return []
    else
      let values ← commaSeparated inner.expr
      expectSymbol ")"
      return values) := by
  refine readsUpTo_symbol? (balanced_pure _) ?_
  refine (balanced_commaSeparated h.expr.balanced).inside fun _ _ _ => ?_
  exact readsUpTo_expectSymbol (balanced_pure _)

theorem balanced_distinct? (h : PhrasesAll inner) : Balanced (distinct? inner) := by
  refine (balanced_keyword? _).bind fun _ _ _ => (balanced_keyword? _).bind fun _ _ _ => ?_
  refine reads_ite (reads_ite reads_fail ((balanced_keyword? _).bind fun _ _ _ => ?_)) (balanced_pure _)
  exact reads_ite (reads_expectSymbol_opening .round (closes_exprs h)) (balanced_pure _)

theorem balanced_top? (h : PhrasesAll inner) : Balanced (top? inner) := by
  refine (balanced_keyword? _).bind fun _ _ _ => reads_ite ?_ (balanced_pure _)
  have hclose : ∀ quantity : List Expr, Balanced (do
      let _ ← keyword? "PERCENT"
      let _ ← keywords? ["WITH", "TIES"]
      return quantity) := by
    intro quantity
    refine (balanced_keyword? _).bind fun _ _ _ => ?_
    exact (balanced_keywords? _ _).bind fun _ _ _ => balanced_pure _
  refine reads_symbol?_opening .round ?_ ?_
  · refine h.expr.inside fun _ _ _ => readsUpTo_expectSymbol ?_
    exact (balanced_pure _).bind fun quantity _ _ => hclose quantity
  · refine reads_next_bind readsUpTo_fail_bind readsUpTo_fail_bind ⟨rfl, rfl⟩ fun token _ => ?_
    cases token with
    | number => exact (balanced_pure _).bind fun quantity _ _ => hclose quantity
    | _ => exact reads_fail_bind

theorem balanced_groupingSet (h : PhrasesAll inner) : Balanced (groupingSet inner) :=
  reads_expectSymbol_opening .round (closes_exprs h)

theorem balanced_groupItem (h : PhrasesAll inner) : Balanced (groupItem inner) := by
  have hset : Balanced (do
      if ← peekSymbol "(" then groupingSet inner else return [← inner.expr]) := by
    refine (quiet_peekSymbol _).bind fun _ => reads_ite (balanced_groupingSet h) ?_
    exact h.expr.bind fun _ _ _ => balanced_pure _
  have hlist : ∀ item : Parser (List Expr), Balanced item → Balanced (do
      let sets ← inParentheses (commaSeparated item)
      return Expr.operation .grouping sets.flatten) :=
    fun item hitem => (balanced_inParentheses (balanced_commaSeparated hitem)).bind
      fun _ _ _ => balanced_pure _
  refine (balanced_keywords? _ _).bind fun _ _ _ => reads_ite (hlist _ (balanced_groupingSet h)) ?_
  refine (balanced_oneOf? _).bind fun _ _ _ => reads_ite (hlist _ hset) (reads_get fun tokens => ?_)
  split
  · have hpair : Outline [.symbol "(", .symbol ")"] [.symbol ")"] := .pair .round .nil .nil
    exact ReadsAt.set hpair (balanced_pure _)
  · exact h.expr.balanced _

theorem balanced_groupBy? (h : PhrasesAll inner) : Balanced (groupBy? inner) := by
  refine (balanced_keywords? _ _).bind fun _ _ _ => reads_ite ?_ (balanced_pure _)
  refine (balanced_keyword? _).bind fun _ _ _ => ?_
  extract_lets close
  have hclose : ∀ values, Balanced (close values) := fun _ =>
    (balanced_keyword? _).bind fun _ _ _ => balanced_when (balanced_expectOneOf _) (balanced_pure _)
  refine reads_ite ((balanced_pure _).bind fun values _ _ => hclose values) ?_
  exact (balanced_commaSeparated (balanced_groupItem h)).bind fun values _ _ => hclose values

theorem balanced_windows? (h : PhrasesAll inner) : Balanced (windows? inner) := by
  refine (balanced_keyword? _).bind fun _ _ _ => reads_ite ?_ (balanced_pure _)
  refine (balanced_commaSeparated ?_).bind fun _ _ _ => balanced_pure _
  refine reads_identifier.bind fun _ _ _ => (balanced_expectKeyword _).bind fun _ _ _ => ?_
  refine reads_symbol?_opening .round ((readsUpTo_windowSpecification h).imp fun _ _ _ => trivial) ?_
  exact reads_identifier.bind fun _ _ _ => balanced_pure _

theorem balanced_clause? (h : PhrasesAll inner) (keyword : String) :
    Balanced (clause? inner keyword) := by
  refine (balanced_keyword? _).bind fun _ _ _ => reads_ite ?_ (balanced_pure _)
  exact h.expr.bind fun _ _ _ => balanced_pure _

theorem balanced_selectTail (h : PhrasesAll inner) : Balanced (selectTail inner) := by
  refine (balanced_distinct? h).bind fun _ _ _ => (balanced_top? h).bind fun _ _ _ => ?_
  refine (balanced_commaSeparated (reads_selectItem h).balanced).bind fun _ _ _ => ?_
  refine (balanced_keyword? _).bind fun _ _ _ => ?_
  extract_lets clauses from_
  have hclauses : ∀ sources, Balanced (clauses sources) := by
    intro sources
    refine (balanced_where? h).bind fun _ _ _ => (balanced_groupBy? h).bind fun _ _ _ => ?_
    refine (balanced_clause? h _).bind fun _ _ _ => (balanced_windows? h).bind fun _ _ _ => ?_
    exact (balanced_clause? h _).bind fun _ _ _ => balanced_pure _
  have hfrom : Balanced (from_ ()) := by
    refine (balanced_keyword? _).bind fun _ _ _ => reads_ite ?_ ?_
    · exact (balanced_commaSeparated (balanced_joinedSource h)).bind fun sources _ _ => hclauses sources
    · exact (balanced_pure _).bind fun sources _ _ => hclauses sources
  refine reads_ite ((balanced_oneOf? _).bind fun _ _ _ => ?_) hfrom
  refine (balanced_keyword? _).bind fun _ _ _ => (balanced_keyword? _).bind fun _ _ _ => ?_
  exact reads_objectName.bind fun _ _ _ => hfrom

/-! ## Bodies of queries -/

theorem balanced_simpleBody (h : PhrasesAll inner) : Balanced (simpleBody inner) := by
  refine (balanced_keyword? _).bind fun _ _ _ => reads_ite (balanced_selectTail h) ?_
  refine reads_symbol?_opening .round ?_ ((balanced_keyword? _).bind fun _ _ _ => ?_)
  · exact h.query.inside fun _ _ _ => readsUpTo_expectSymbol (balanced_pure _)
  · exact reads_ite ((balanced_rows h).bind fun _ _ _ => balanced_pure _) reads_fail

theorem balanced_setQuantifier? : Balanced setQuantifier? := by
  refine (balanced_keyword? _).bind fun _ _ _ => balanced_when (balanced_keyword? _) ?_
  exact (balanced_keywords? _ _).bind fun _ _ _ => balanced_pure _

theorem balanced_intersections (h : PhrasesAll inner) (fuel : Nat) (left : Body) :
    Balanced (intersections inner fuel left) := by
  induction fuel generalizing left with
  | zero => exact balanced_pure _
  | succ fuel ih =>
      refine (balanced_keyword? _).bind fun _ _ _ => reads_ite ?_ (balanced_pure _)
      refine balanced_setQuantifier?.bind fun _ _ _ => (balanced_simpleBody h).bind fun right _ _ => ?_
      exact ih (.combined left right)

theorem balanced_intersectionBody (h : PhrasesAll inner) : Balanced (intersectionBody inner) :=
  (balanced_simpleBody h).bind fun first _ _ => reads_get fun tokens =>
    balanced_intersections h _ first tokens

theorem balanced_unions (h : PhrasesAll inner) (fuel : Nat) (left : Body) :
    Balanced (unions inner fuel left) := by
  induction fuel generalizing left with
  | zero => exact balanced_pure _
  | succ fuel ih =>
      refine (balanced_oneOf? _).bind fun operator _ _ => ?_
      cases operator with
      | none => exact balanced_pure _
      | some keyword =>
          refine balanced_setQuantifier?.bind fun _ _ _ => ?_
          exact (balanced_intersectionBody h).bind fun right _ _ => ih (.combined left right)

theorem balanced_body (h : PhrasesAll inner) : Balanced (body inner) :=
  (balanced_intersectionBody h).bind fun first _ _ => reads_get fun tokens =>
    balanced_unions h _ first tokens

/-! ## Queries -/

theorem balanced_cte (h : PhrasesAll inner) : Balanced (cte inner) := by
  refine reads_identifier.bind fun name _ _ => (balanced_keyword? _).bind fun _ _ _ => ?_
  extract_lets query
  have hquery : Balanced (query ()) := by
    refine (balanced_inParentheses h.query).bind fun _ _ _ => (balanced_keyword? _).bind fun _ _ _ => ?_
    exact balanced_when reads_identifier.balanced (balanced_pure _)
  have has : Balanced (expectKeyword "AS" >>= query) :=
    (balanced_expectKeyword _).bind fun _ _ _ => hquery
  refine reads_ite (reads_symbol?_opening .round ?_ has) hquery
  refine (balanced_commaSeparated balanced_columnDefinition).inside fun _ _ _ => ?_
  exact readsUpTo_expectSymbol has

theorem balanced_with? (h : PhrasesAll inner) : Balanced (with? inner) := by
  refine (balanced_keyword? _).bind fun _ _ _ => reads_ite ?_ (balanced_pure _)
  exact (balanced_keyword? _).bind fun _ _ _ => balanced_commaSeparated (balanced_cte h)

theorem balanced_limits (h : PhrasesAll inner) : Balanced (limits inner) := by
  unfold limits
  extract_lets limit offset
  have hvalue : Balanced (inner.expr >>= fun value => pure [value]) :=
    h.expr.bind fun _ _ _ => balanced_pure _
  have hlimit : Balanced limit :=
    (balanced_keyword? _).bind fun _ _ _ => reads_ite (balanced_pure _) hvalue
  have hoffset : Balanced offset :=
    h.expr.bind fun _ _ _ => (balanced_oneOf? _).bind fun _ _ _ => balanced_pure _
  refine (balanced_keyword? _).bind fun _ _ _ => reads_ite (hlimit.bind fun _ _ _ => ?_) ?_
  · refine (balanced_keyword? _).bind fun _ _ _ => reads_ite ?_ (reads_ite (balanced_pure _) ?_)
    · exact hoffset.bind fun _ _ _ => balanced_pure _
    · refine (balanced_symbol? rfl).bind fun _ _ _ => reads_ite ?_ (balanced_pure _)
      exact h.expr.bind fun _ _ _ => balanced_pure _
  · refine (balanced_keyword? _).bind fun _ _ _ => reads_ite ?_ (balanced_pure _)
    refine hoffset.bind fun _ _ _ => (balanced_keyword? _).bind fun _ _ _ => ?_
    exact reads_ite (hlimit.bind fun _ _ _ => balanced_pure _) (balanced_pure _)

theorem balanced_fetch? : Balanced fetch? := by
  refine (balanced_keyword? _).bind fun _ _ _ => reads_ite ?_ (balanced_pure _)
  refine (balanced_expectOneOf _).bind fun _ _ _ => (balanced_oneOf? _).bind fun _ _ _ => ?_
  extract_lets close
  have hclose : ∀ quantity, Balanced (close quantity) := fun _ =>
    (balanced_keyword? _).bind fun _ _ _ => balanced_when (balanced_keywords? _ _) (balanced_pure _)
  refine reads_ite ((balanced_pure _).bind fun quantity _ _ => hclose quantity) ?_
  refine balanced_constant.bind fun _ _ _ => (balanced_keyword? _).bind fun _ _ _ => ?_
  refine (balanced_expectOneOf _).bind fun _ _ _ => ?_
  exact (balanced_pure _).bind fun quantity _ _ => hclose quantity

theorem balanced_locks (fuel : Nat) : Balanced (locks fuel) := by
  induction fuel with
  | zero => exact balanced_pure _
  | succ fuel ih =>
      refine (balanced_keyword? _).bind fun _ _ _ => reads_ite ?_ (balanced_pure _)
      refine (balanced_expectOneOf _).bind fun _ _ _ => (balanced_keyword? _).bind fun _ _ _ => ?_
      refine balanced_when reads_objectName.balanced ((balanced_keyword? _).bind fun _ _ _ => ?_)
      exact balanced_when (balanced_keywords? _ _) ih

/-- **The brackets of queries come in pairs.** -/
theorem balanced_query (h : PhrasesAll inner) : Balanced (query inner) := by
  refine (balanced_with? h).bind fun _ _ _ => (balanced_keyword? _).bind fun _ _ _ => reads_ite ?_ ?_
  · exact (balanced_insertTail h).bind fun _ _ _ => balanced_pure _
  refine (balanced_keyword? _).bind fun _ _ _ => reads_ite ?_ ?_
  · exact (balanced_updateTail h).bind fun _ _ _ => balanced_pure _
  refine (balanced_body h).bind fun _ _ _ => (balanced_orderBy? h).bind fun _ _ _ => ?_
  refine (balanced_limits h).bind fun _ _ _ => balanced_fetch?.bind fun _ _ _ => ?_
  exact reads_get fun tokens => (balanced_locks _ tokens).bind fun _ _ _ => balanced_pure _

/-! ## Levels -/

/-- **Every level reads phrases, and text with its brackets in pairs.** -/
theorem phrasesAll_level (depth : Nat) : PhrasesAll (level depth) := by
  induction depth with
  | zero => exact ⟨fun _ => reads_throw _, reads_throw _, reads_throw _⟩
  | succ depth ih =>
      -- A level calls the one below it only, so the parsers of the grammar are taken over `ih`.
      exact ⟨reads_expression ih, balanced_query ih, balanced_joinedSource ih⟩

end RepoPolicy.Sql.Grammar
