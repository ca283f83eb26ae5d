import RepoPolicy.Proofs.Sql.Grammar.TracedExpressions
import RepoPolicy.Sql.Grammar.Query

set_option autoImplicit false

/-! # Tracing sources, queries and statements

The parsers of sources, of statements that change rows and of queries follow a trace if those of the
level below do. So every level does (`Trace.Encloses.level`), and with it the statements of a
program (`Trace.Encloses.statements`).

The grammar never looks at names, so the statements of renamed tokens are the renamed statements
(`statements_rename`). -/

namespace RepoPolicy.Sql.Grammar

variable {t : Trace} {inner : Inner}

/-! ## Sources -/

/-- Names with types, as they stand behind an alias. -/
theorem carries_typedNames :
    t.Carries (List.map (Option.map fun found => found)) (commaSeparated do
      let _ ← identifier
      attempt dataType) :=
  follows_commaSeparated (carries_identifier.bind fun _ _ => follows_attempt ignores_dataType)

theorem carries_sourceAlias? : t.Carries (Option.map t.rename) sourceAlias? := by
  refine (carries_alias? _).bind fun found _ => ?_
  cases found with
  | none => exact follows_pure rfl (by simp)
  | some name =>
      refine (ignores_symbol? _).bind fun _ _ => follows_ite ?_ (follows_pure rfl (by simp))
      refine carries_typedNames.bind fun _ _ => (ignores_expectSymbol _).bind fun _ _ => ?_
      exact follows_pure rfl (by simp)

theorem carries_sourceArguments (h : t.Level inner) :
    t.Carries t.exprs (sourceArguments inner) := by
  refine (ignores_symbol? _).bind fun _ _ => follows_ite (follows_pure rfl (by simp)) ?_
  refine (follows_commaSeparated (carries_argument h)).bind fun values hvalues => ?_
  exact (ignores_expectSymbol _).bind fun _ _ =>
    follows_pure (by simp [List.map_flatten]) (by simpa using hvalues)

theorem followsInside_derivedTail (h : t.Level inner) :
    t.FollowsInside (Source.rename t.rename) (derivedTail inner) (derivedTail inner) :=
  h.inside fun _ hallowed hquery => (ignores_expectSymbol _).bind fun _ _ =>
    carries_sourceAlias?.bind fun _ _ => follows_pure rfl (by simp [hallowed, hquery])

theorem carries_rows (h : t.Level inner) : t.Carries t.exprs (rows inner) := by
  have hrow : t.Carries t.exprs (do
      let _ ← keyword? "ROW"
      inParentheses (commaSeparated inner.expr)) :=
    (ignores_keyword? _).bind fun _ _ =>
      follows_inParentheses (follows_commaSeparated h.expr).inside
  exact (follows_commaSeparated hrow).bind fun rows hrows =>
    follows_pure (by simp [List.map_flatten]) (by simpa using hrows)

theorem isJoin_rename {f : String → String} (source : Source) :
    (source.rename f).isJoin = source.isJoin := by
  cases source <;> rfl

theorem alias?_rename {f : String → String} (source : Source) :
    (source.rename f).alias? = source.alias?.map f := by
  cases source <;> rfl

theorem withAlias_rename {f : String → String} (source : Source) (given : Option String) :
    (source.withAlias given).rename f = (source.rename f).withAlias (given.map f) := by
  cases source <;> rfl

theorem carries_parenthesizedSource (h : t.Level inner) :
    t.Carries (Source.rename t.rename) (parenthesizedSource inner) := by
  refine h.source.bind fun source hsource => (ignores_expectSymbol _).bind fun _ _ => ?_
  refine carries_sourceAlias?.bind fun outer _ => ?_
  rw [isJoin_rename, alias?_rename]
  refine follows_ite (follows_pure rfl hsource) ?_
  cases outer with
  | none => exact follows_pure rfl hsource
  | some name =>
      cases source.alias? with
      | none => exact follows_pure (withAlias_rename source (some name)) (by simpa using hsource)
      | some _ => exact follows_fail

theorem carries_lateralTail (h : t.Level inner) :
    t.Carries (Source.rename t.rename) (lateralTail inner) := by
  refine follows_symbol?_open (followsInside_derivedTail h) ?_
  refine carries_objectName.bind fun _ _ => (ignores_expectSymbol _).bind fun _ _ => ?_
  refine (carries_sourceArguments h).bind fun arguments harguments => ?_
  exact carries_sourceAlias?.bind fun given _ =>
    follows_pure (by simp) (by simpa using harguments)

theorem carries_namedSource (h : t.Level inner) :
    t.Carries (Source.rename t.rename) (namedSource inner) := by
  refine carries_objectName.bind fun name _ => (ignores_keyword? _).bind fun _ _ => ?_
  refine follows_when carries_columnNames ((ignores_symbol? _).bind fun _ _ => ?_)
  extract_lets close close'
  have hclose : ∀ arguments, HoldsOnly t.allows arguments →
      t.Follows (Source.rename t.rename) (close arguments) (close' (arguments.map t.exprs)) := by
    intro arguments harguments
    refine (ignores_keywords? _).bind fun _ _ => carries_sourceAlias?.bind fun given _ => ?_
    cases arguments with
    | none => exact follows_pure rfl (by simp)
    | some values => exact follows_pure (by simp) (by simpa using harguments)
  refine follows_ite ((carries_sourceArguments h).bind fun values hvalues => ?_)
    (hclose none (by simp))
  exact hclose (some values) (by simpa using hvalues)

theorem carries_source (h : t.Level inner) :
    t.Carries (Source.rename t.rename) (source inner) := by
  refine (ignores_keyword? _).bind fun _ _ => follows_ite (carries_lateralTail h) ?_
  refine (ignores_keyword? _).bind fun _ _ => follows_ite ?_ (follows_symbol?_open ?_ ?_)
  · refine (follows_inParentheses h.expr.inside).bind fun value hvalue => ?_
    exact carries_sourceAlias?.bind fun given _ => follows_pure (by simp) (by simpa using hvalue)
  · -- a derived table if it can be read as one, and else a source in parentheses
    refine (followsInside_attempt (followsInside_derivedTail h)).bind fun derived hderived => ?_
    cases derived with
    | some derived => exact follows_pure rfl (by simpa using hderived)
    | none => exact carries_parenthesizedSource h
  refine follows_get fun tokens => ?_
  split
  · refine Trace.Follows.bind (ignores_expectKeyword _) (fun _ _ => ?_) _
    refine (carries_rows h).bind fun values hvalues => ?_
    refine carries_sourceAlias?.bind fun given _ => ?_
    exact follows_pure (by simp [Source.rename]) (by simp [hvalues, t.allows_values])
  · refine Trace.Follows.behind ?_ _ _
    refine (follows_inParentheses (follows_commaSeparated h.expr).inside).bind
      fun values hvalues => ?_
    refine (ignores_keywords? _).bind fun _ _ => carries_sourceAlias?.bind fun given _ => ?_
    refine (ignores_keywords? _).bind fun _ _ => ?_
    exact follows_when (carries_alias? _) (follows_pure (by simp) (by simpa using hvalues))
  · rename_i hvalues hunnest
    refine Trace.FollowsAt.of_eq ?_ (carries_namedSource h tokens)
    -- tokens that begin in neither way do not do so either once they are renamed
    split
    · obtain ⟨_, more, rfl, hmore⟩ := cons_word_of_rename ‹_›
      obtain ⟨rest, rfl, -⟩ := cons_symbol_of_rename hmore.symm
      exact absurd rfl (hvalues _ rest)
    · obtain ⟨_, more, rfl, -⟩ := cons_word_of_rename ‹_›
      exact absurd rfl (hunnest _ more)
    · rfl

/-! ## Joins -/

theorem carries_joinCondition? (h : t.Level inner) :
    t.Carries t.exprs (joinCondition? inner) := by
  refine (ignores_keyword? _).bind fun _ _ => follows_ite h.single ?_
  refine (ignores_keyword? _).bind fun _ _ => follows_ite ?_ (follows_pure rfl (by simp))
  exact carries_columnNames.bind fun _ _ => follows_pure rfl (by simp)

theorem ignores_joinStart : t.Ignores joinStart := by
  have hjoin : ∀ found : JoinStart, t.Ignores (expectKeyword "JOIN" >>= fun _ => pure found) :=
    fun _ => (ignores_expectKeyword _).bind fun _ _ => follows_pure rfl (by simp)
  refine (ignores_keyword? _).bind fun _ _ => follows_ite ?_ ?_
  · exact (ignores_expectOneOf _).bind fun _ _ => follows_pure rfl (by simp)
  refine (ignores_keyword? _).bind fun _ _ => follows_ite ?_ ?_
  · exact (ignores_expectKeyword _).bind fun _ _ => follows_pure rfl (by simp)
  refine (ignores_keyword? _).bind fun natural _ => (ignores_oneOf? _).bind fun keyword _ => ?_
  split
  · exact follows_pure rfl (by simp)
  iterate 2 exact (ignores_oneOf? _).bind fun _ _ => hjoin _
  · exact (ignores_keyword? _).bind fun _ _ => hjoin _
  · exact hjoin _
  · exact follows_ite follows_fail (follows_pure rfl (by simp))

theorem follows_joins (h : t.Level inner) (fuel : Nat) (left : Source)
    (hleft : HoldsOnly t.allows left) :
    t.Follows (Source.rename t.rename) (joins inner fuel left)
      (joins inner fuel (left.rename t.rename)) := by
  induction fuel generalizing left with
  | zero => exact follows_pure rfl hleft
  | succ fuel ih =>
      have hjoin : ∀ right condition, HoldsOnly t.allows right → HoldsOnly t.allows condition →
          t.Follows (Source.rename t.rename) (joins inner fuel (.join left right condition))
            (joins inner fuel
              (.join (left.rename t.rename) (right.rename t.rename) (t.exprs condition))) := by
        intro right condition hright hcondition
        simpa using ih (.join left right condition) (by simp [hleft, hright, hcondition])
      refine (ignores_keyword? _).bind fun _ _ => ignores_joinStart.bind fun start _ => ?_
      -- a joined source with more joins behind it, and then the condition, if one may follow
      have hconditional : ∀ conditions : Parser (List Expr), t.Carries t.exprs conditions →
          t.Follows (Source.rename t.rename)
          (do
            let right ← source inner
            let right ←
              if ← peekOneOf ["JOIN", "INNER", "LEFT", "RIGHT", "FULL"] then joins inner fuel right
              else pure right
            joins inner fuel (.join left right (← conditions)))
          (do
            let right ← source inner
            let right ←
              if ← peekOneOf ["JOIN", "INNER", "LEFT", "RIGHT", "FULL"] then joins inner fuel right
              else pure right
            joins inner fuel (.join (left.rename t.rename) right (← conditions))) := by
        intro conditions hconditions
        refine (carries_source h).bind fun right hright => (ignores_peekOneOf _).bind fun _ _ => ?_
        extract_lets close close'
        have hclose : ∀ right, HoldsOnly t.allows right →
            t.Follows (Source.rename t.rename) (close right) (close' (right.rename t.rename)) :=
          fun right hright => hconditions.bind fun condition hcondition =>
            hjoin right condition hright hcondition
        exact follows_ite ((ih right hright).bind hclose) (hclose right hright)
      cases start with
      | none => exact follows_pure rfl hleft
      | cross =>
          exact (carries_source h).bind fun right hright => hjoin right [] hright (by simp)
      | conditional => exact hconditional _ (carries_joinCondition? h)
      | natural => exact hconditional (pure []) (follows_pure rfl (by simp))

/-- **Sources follow what is traced.** -/
theorem carries_joinedSource (h : t.Level inner) :
    t.Carries (Source.rename t.rename) (joinedSource inner) :=
  (carries_source h).bind fun _ hfirst => follows_fuel fun fuel => follows_joins h fuel _ hfirst

/-! ## Statements that change rows -/

theorem carries_assignment (h : t.Level inner) : t.Carries t.expr (assignment inner) := by
  have hvalue : t.Carries t.expr (expectSymbol "=" >>= fun _ => inner.expr) :=
    (ignores_expectSymbol _).bind fun _ _ => h.expr
  refine (ignores_symbol? _).bind fun _ _ => follows_ite ?_ ?_
  · refine (follows_commaSeparated carries_objectName).bind fun _ _ => ?_
    exact (ignores_expectSymbol _).bind fun _ _ => hvalue
  · exact carries_objectName.bind fun _ _ => hvalue

theorem carries_onConflict? (h : t.Level inner) : t.Carries t.exprs (onConflict? inner) := by
  have hassignments := follows_commaSeparated (carries_assignment h)
  refine (ignores_keyword? _).bind fun _ _ => follows_ite ?_ (follows_pure rfl (by simp))
  refine (ignores_keyword? _).bind fun _ _ => follows_ite ?_ ?_
  · refine (ignores_keywords? _).bind fun _ _ => ?_
    extract_lets action
    have haction : t.Carries t.exprs (action ()) := by
      refine (ignores_expectKeyword _).bind fun _ _ => (ignores_keyword? _).bind fun _ _ => ?_
      refine follows_ite (follows_pure rfl (by simp)) ((ignores_expectKeyword _).bind fun _ _ => ?_)
      refine (ignores_expectKeyword _).bind fun _ _ => hassignments.bind fun values hvalues => ?_
      exact (carries_where? h).bind fun condition hcondition =>
        follows_pure (by simp) (by simp [hvalues, hcondition])
    refine follows_ite (carries_objectName.bind fun _ _ => haction) ?_
    exact (ignores_peekSymbol _).bind fun _ _ => follows_when carries_columnNames haction
  · refine (ignores_expectKeyword _).bind fun _ _ => (ignores_expectKeyword _).bind fun _ _ => ?_
    exact (ignores_expectKeyword _).bind fun _ _ => hassignments

theorem ignores_peekSubquery : t.Ignores peekSubquery := by
  refine follows_get fun tokens => ?_
  split
  · exact follows_pure (F := fun value => value) (isKeyword_rename _ _).symm (by simp) _
  · rename_i hnot
    refine Trace.FollowsAt.of_eq ?_ (follows_pure rfl (by simp) tokens)
    split
    · obtain ⟨more, rfl, hmore⟩ := cons_symbol_of_rename ‹_›
      obtain ⟨token, rest, rfl, -⟩ := List.map_eq_cons_iff.1 hmore.symm
      exact absurd rfl (hnot token rest)
    · rfl

theorem carries_insertTail (h : t.Level inner) :
    t.Carries (Statement.rename t.rename) (insertTail inner) := by
  refine (ignores_keyword? _).bind fun _ _ => follows_when (ignores_expectOneOf _) ?_
  refine (ignores_oneOf? _).bind fun _ _ => (ignores_keyword? _).bind fun _ _ => ?_
  refine (ignores_keyword? _).bind fun _ _ => (ignores_keyword? _).bind fun _ _ => ?_
  refine (ignores_keyword? _).bind fun _ _ => carries_objectName.bind fun target _ => ?_
  refine (ignores_keywords? _).bind fun _ _ => ?_
  extract_lets close columns close' columns'
  -- the clauses behind the rows, which may be none
  have hclose : ∀ source, HoldsOnly t.allows source → t.Follows (Statement.rename t.rename)
      (close source) (close' (source.map (Query.rename t.rename))) := by
    intro source hsource
    refine (ignores_keyword? _).bind fun _ _ => ?_
    extract_lets rest rest'
    have hrest : t.Follows (Statement.rename t.rename) (rest ()) (rest' ()) := by
      refine (carries_onConflict? h).bind fun clauses hclauses => ?_
      exact (carries_returning? h).bind fun returning hreturning =>
        follows_pure (by simp) (by simp [hsource, hclauses, hreturning])
    refine follows_ite (carries_objectName.bind fun _ _ => ?_) hrest
    exact (ignores_peekSymbol _).bind fun _ _ => follows_when carries_columnNames hrest
  have hquery : t.Follows (Statement.rename t.rename)
      (inner.query >>= fun query => close (some query))
      (inner.query >>= fun query => close' (some query)) :=
    h.query.bind fun query hquery => hclose (some query) (by simpa using hquery)
  refine follows_ite (hclose none (by simp)) (ignores_peekSubquery.bind fun _ _ => ?_)
  refine follows_ite ((ignores_peekSymbol _).bind fun _ _ => ?_) hquery
  exact follows_when carries_columnNames hquery

theorem carries_updateTail (h : t.Level inner) :
    t.Carries (Statement.rename t.rename) (updateTail inner) := by
  refine (ignores_keyword? _).bind fun _ _ => follows_when (ignores_expectOneOf _) ?_
  refine (carries_joinedSource h).bind fun target htarget => ?_
  refine (ignores_expectKeyword _).bind fun _ _ => ?_
  refine (follows_commaSeparated (carries_assignment h)).bind fun values hvalues => ?_
  refine (ignores_keyword? _).bind fun _ _ => ?_
  extract_lets close close'
  have hclose : ∀ sources, HoldsOnly t.allows sources → t.Follows (Statement.rename t.rename)
      (close sources) (close' (sources.map (Source.rename t.rename))) := by
    intro sources hsources
    refine (carries_where? h).bind fun condition hcondition => ?_
    refine (carries_returning? h).bind fun returning hreturning => ?_
    exact follows_pure (by simp) (by simp [htarget, hsources, hvalues, hcondition, hreturning])
  refine follows_ite ((carries_joinedSource h).bind fun source hsource => ?_) (hclose [] (by simp))
  exact hclose [source] (by simpa using hsource)

theorem carries_deleteTail (h : t.Level inner) :
    t.Carries (Statement.rename t.rename) (deleteTail inner) := by
  have hsources := follows_commaSeparated (carries_joinedSource h)
  refine (ignores_keyword? _).bind fun _ _ => hsources.bind fun targets htargets => ?_
  refine (ignores_keyword? _).bind fun _ _ => ?_
  extract_lets close close'
  -- the clauses behind the sources that are used besides
  have hclose : ∀ others, HoldsOnly t.allows others → t.Follows (Statement.rename t.rename)
      (close others) (close' (others.map (Source.rename t.rename))) := by
    intro others hothers
    refine (carries_where? h).bind fun condition hcondition => ?_
    refine (carries_returning? h).bind fun returning hreturning => ?_
    refine (carries_orderBy? h).bind fun order horder => (ignores_keyword? _).bind fun _ _ => ?_
    extract_lets done done'
    have hdone : ∀ limit, HoldsOnly t.allows limit →
        t.Follows (Statement.rename t.rename) (done limit) (done' (t.exprs limit)) :=
      fun limit hlimit => follows_pure (by simp)
        (by simp [htargets, hothers, hcondition, horder, hlimit, hreturning])
    have hall := hdone [] (by simp)
    refine follows_ite ((ignores_keyword? _).bind fun _ _ => follows_ite hall ?_) hall
    exact h.expr.bind fun value hvalue => hdone [value] (by simpa using hvalue)
  exact follows_ite (hsources.bind hclose) (hclose [] (by simp))

/-! ## Clauses of queries -/

/-- Expressions up to the closing parenthesis, which may be none. -/
theorem carries_exprsUntilClosed (h : t.Level inner) : t.Carries t.exprs (do
    if ← symbol? ")" then return []
    else
      let values ← commaSeparated inner.expr
      expectSymbol ")"
      return values) := by
  refine (ignores_symbol? _).bind fun _ _ => follows_ite (follows_pure rfl (by simp)) ?_
  refine (follows_commaSeparated h.expr).bind fun values hvalues => ?_
  exact (ignores_expectSymbol _).bind fun _ _ => follows_pure rfl hvalues

theorem carries_distinct? (h : t.Level inner) : t.Carries t.exprs (distinct? inner) := by
  have hnone : t.Carries t.exprs (pure []) := follows_pure rfl (by simp)
  refine (ignores_keyword? _).bind fun all _ => (ignores_keyword? _).bind fun _ _ => ?_
  refine follows_ite (follows_ite follows_fail ((ignores_keyword? _).bind fun _ _ => ?_)) hnone
  exact follows_ite ((ignores_expectSymbol _).bind fun _ _ => carries_exprsUntilClosed h) hnone

theorem carries_top? (h : t.Level inner) : t.Carries t.exprs (top? inner) := by
  refine (ignores_keyword? _).bind fun _ _ => follows_ite ?_ (follows_pure rfl (by simp))
  refine (ignores_symbol? _).bind fun _ _ => ?_
  extract_lets close
  have hclose : ∀ quantity, HoldsOnly t.allows quantity →
      t.Follows t.exprs (close quantity) (close (t.exprs quantity)) :=
    fun quantity hquantity => (ignores_keyword? _).bind fun _ _ =>
      (ignores_keywords? _).bind fun _ _ => follows_pure rfl hquantity
  refine follows_ite (h.expr.bind fun value hvalue => ?_) (carries_next.bind fun token _ => ?_)
  · exact (ignores_expectSymbol _).bind fun _ _ => hclose [value] (by simpa using hvalue)
  · cases token with
    | number => exact hclose [] (by simp)
    | _ => exact Trace.Follows.bind (F := t.exprs) follows_fail hclose

theorem carries_groupItem (h : t.Level inner) : t.Carries t.expr (groupItem inner) := by
  have hset : t.Carries t.exprs (groupingSet inner) :=
    (ignores_expectSymbol _).bind fun _ _ => carries_exprsUntilClosed h
  have helement : t.Carries t.exprs
      (do if ← peekSymbol "(" then groupingSet inner else return [← inner.expr]) :=
    (ignores_peekSymbol _).bind fun _ _ => follows_ite hset h.single
  -- whichever sets are listed, the item holds their columns
  have hlist : ∀ item : Parser (List Expr), t.Carries t.exprs item → t.Carries t.expr (do
      let sets ← inParentheses (commaSeparated item)
      return Expr.operation .grouping sets.flatten) :=
    fun item hitem => (follows_inParentheses (follows_commaSeparated hitem).inside).bind
      fun sets hsets => follows_pure (by simp [List.map_flatten]) (by simpa using hsets)
  refine (ignores_keywords? _).bind fun _ _ => follows_ite (hlist _ hset) ?_
  refine (ignores_oneOf? _).bind fun _ _ =>
    follows_ite (hlist _ helement) (follows_get fun tokens => ?_)
  split
  · exact .set (fun htokens => t.keeps_tail (t.keeps_tail htokens))
      (follows_pure (by simp) (by simp) _)
  · rename_i hempty
    refine Trace.FollowsAt.of_eq ?_ (h.expr tokens)
    split
    · obtain ⟨more, rfl, hmore⟩ := cons_symbol_of_rename ‹_›
      obtain ⟨rest, rfl, -⟩ := cons_symbol_of_rename hmore.symm
      exact absurd rfl (hempty rest)
    · rfl

theorem carries_groupBy? (h : t.Level inner) : t.Carries t.exprs (groupBy? inner) := by
  refine (ignores_keywords? _).bind fun _ _ => follows_ite ?_ (follows_pure rfl (by simp))
  refine (ignores_keyword? _).bind fun _ _ => ?_
  extract_lets close
  have hclose : ∀ values, HoldsOnly t.allows values →
      t.Follows t.exprs (close values) (close (t.exprs values)) :=
    fun values hvalues => (ignores_keyword? _).bind fun _ _ =>
      follows_when (ignores_expectOneOf _) (follows_pure rfl hvalues)
  exact follows_ite (hclose [] (by simp))
    ((follows_commaSeparated (carries_groupItem h)).bind hclose)

theorem carries_windows? (h : t.Level inner) : t.Carries t.exprs (windows? inner) := by
  have hwindow : t.Carries t.exprs (do
      let _ ← identifier
      expectKeyword "AS"
      if ← symbol? "(" then windowSpecification inner
      else
        let _ ← identifier
        return []) := by
    refine carries_identifier.bind fun _ _ => (ignores_expectKeyword _).bind fun _ _ => ?_
    refine (ignores_symbol? _).bind fun _ _ => follows_ite (carries_windowSpecification h) ?_
    exact carries_identifier.bind fun _ _ => follows_pure rfl (by simp)
  refine (ignores_keyword? _).bind fun _ _ => follows_ite ?_ (follows_pure rfl (by simp))
  exact (follows_commaSeparated hwindow).bind fun windows hwindows =>
    follows_pure (by simp [List.map_flatten]) (by simpa using hwindows)

theorem carries_clause? (h : t.Level inner) (keyword : String) :
    t.Carries t.exprs (clause? inner keyword) :=
  (ignores_keyword? _).bind fun _ _ => follows_ite h.single (follows_pure rfl (by simp))

theorem carries_selectTail (h : t.Level inner) :
    t.Carries (Body.rename t.rename) (selectTail inner) := by
  refine (carries_distinct? h).bind fun distinct hdistinct => ?_
  refine (carries_top? h).bind fun top htop => ?_
  refine (follows_commaSeparated (carries_selectItem h)).bind fun items hitems => ?_
  refine (ignores_keyword? _).bind fun _ _ => ?_
  extract_lets close rest close' rest'
  -- the clauses behind the sources, in the order in which they are read
  have hclose : ∀ sources, HoldsOnly t.allows sources → t.Follows (Body.rename t.rename)
      (close sources) (close' (sources.map (Source.rename t.rename))) := by
    intro sources hsources
    refine (carries_where? h).bind fun condition hcondition => ?_
    refine (carries_groupBy? h).bind fun groups hgroups => ?_
    refine (carries_clause? h _).bind fun having hhaving => ?_
    refine (carries_windows? h).bind fun windows hwindows => ?_
    refine (carries_clause? h _).bind fun qualify hqualify => follows_pure (by simp) ?_
    simp [hdistinct, htop, hitems, hsources, hcondition, hgroups, hhaving, hwindows, hqualify]
  have hrest : t.Follows (Body.rename t.rename) (rest ()) (rest' ()) := by
    refine (ignores_keyword? _).bind fun _ _ => follows_ite ?_ (hclose [] (by simp))
    exact (follows_commaSeparated (carries_joinedSource h)).bind hclose
  refine follows_ite ((ignores_oneOf? _).bind fun _ _ => ?_) hrest
  refine (ignores_keyword? _).bind fun _ _ => (ignores_keyword? _).bind fun _ _ => ?_
  exact carries_objectName.bind fun _ _ => hrest

/-! ## Bodies of queries -/

theorem carries_simpleBody (h : t.Level inner) :
    t.Carries (Body.rename t.rename) (simpleBody inner) := by
  refine (ignores_keyword? _).bind fun _ _ => follows_ite (carries_selectTail h) ?_
  refine (ignores_symbol? _).bind fun _ _ => follows_ite (h.query.bind fun query hquery => ?_) ?_
  · exact (ignores_expectSymbol _).bind fun _ _ => follows_pure rfl (by simpa using hquery)
  refine (ignores_keyword? _).bind fun _ _ => follows_ite ?_ follows_fail
  exact (carries_rows h).bind fun values hvalues =>
    follows_pure (by simp) (by simpa using hvalues)

theorem ignores_setQuantifier? : t.Ignores setQuantifier? :=
  (ignores_keyword? _).bind fun _ _ => follows_when (ignores_keyword? _) <|
    (ignores_keywords? _).bind fun _ _ => follows_pure rfl (by simp)

theorem follows_intersections (h : t.Level inner) (fuel : Nat) (left : Body)
    (hleft : HoldsOnly t.allows left) :
    t.Follows (Body.rename t.rename) (intersections inner fuel left)
      (intersections inner fuel (left.rename t.rename)) := by
  induction fuel generalizing left with
  | zero => exact follows_pure rfl hleft
  | succ fuel ih =>
      refine (ignores_keyword? _).bind fun _ _ => follows_ite ?_ (follows_pure rfl hleft)
      refine ignores_setQuantifier?.bind fun _ _ => ?_
      refine (carries_simpleBody h).bind fun right hright => ?_
      exact ih (.combined left right) (by simp [hleft, hright])

theorem carries_intersectionBody (h : t.Level inner) :
    t.Carries (Body.rename t.rename) (intersectionBody inner) :=
  (carries_simpleBody h).bind fun _ hfirst => follows_fuel fun fuel =>
    follows_intersections h fuel _ hfirst

theorem follows_unions (h : t.Level inner) (fuel : Nat) (left : Body)
    (hleft : HoldsOnly t.allows left) :
    t.Follows (Body.rename t.rename) (unions inner fuel left)
      (unions inner fuel (left.rename t.rename)) := by
  induction fuel generalizing left with
  | zero => exact follows_pure rfl hleft
  | succ fuel ih =>
      refine (ignores_oneOf? _).bind fun found _ => ?_
      cases found with
      | none => exact follows_pure rfl hleft
      | some _ =>
          refine ignores_setQuantifier?.bind fun _ _ => ?_
          refine (carries_intersectionBody h).bind fun right hright => ?_
          exact ih (.combined left right) (by simp [hleft, hright])

theorem carries_body (h : t.Level inner) : t.Carries (Body.rename t.rename) (body inner) :=
  (carries_intersectionBody h).bind fun _ hfirst => follows_fuel fun fuel =>
    follows_unions h fuel _ hfirst

/-! ## Queries -/

/-- A query in parentheses, and what follows. -/
theorem Trace.Level.parentheses {α β : Type} [HoldsQueries α] {F : α → β} (h : t.Level inner)
    {next : Query → Parser α} {following : Query → Parser β}
    (hnext : ∀ query, t.allows query → HoldsOnly t.allows query →
      t.Follows F (next query) (following (query.rename t.rename))) :
    t.Follows F (inParentheses inner.query >>= next) (inParentheses inner.query >>= following) := by
  simp only [inParentheses, bind_assoc, pure_bind]
  refine follows_expectSymbol_open (h.inside fun query hallowed hquery => ?_)
  exact (ignores_expectSymbol _).bind fun _ _ => hnext query hallowed hquery

theorem carries_cte (h : t.Level inner) : t.Carries (Cte.rename t.rename) (cte inner) := by
  refine carries_identifier.bind fun name _ => (ignores_keyword? _).bind fun _ _ => ?_
  extract_lets rest columns rest' columns'
  have hrest : t.Follows (Cte.rename t.rename) (rest ()) (rest' ()) := by
    refine h.parentheses fun query hallowed hquery => (ignores_keyword? _).bind fun _ _ => ?_
    exact follows_when carries_identifier (follows_pure rfl (by simp [hallowed, hquery]))
  have has : t.Follows (Cte.rename t.rename) (expectKeyword "AS" >>= fun _ => rest ())
      (expectKeyword "AS" >>= fun _ => rest' ()) :=
    (ignores_expectKeyword _).bind fun _ _ => hrest
  refine follows_ite ((ignores_symbol? _).bind fun _ _ => follows_ite ?_ has) hrest
  exact carries_typedNames.bind fun _ _ => (ignores_expectSymbol _).bind fun _ _ => has

theorem carries_with? (h : t.Level inner) :
    t.Carries (List.map (Cte.rename t.rename)) (with? inner) := by
  refine (ignores_keyword? _).bind fun _ _ => follows_ite ?_ (follows_pure rfl (by simp))
  exact (ignores_keyword? _).bind fun _ _ => follows_commaSeparated (carries_cte h)

theorem carries_limits (h : t.Level inner) : t.Carries t.exprs (limits inner) := by
  unfold limits
  extract_lets limit offset
  have hlimit : t.Carries t.exprs limit :=
    (ignores_keyword? _).bind fun _ _ => follows_ite (follows_pure rfl (by simp)) h.single
  have hoffset : t.Carries t.exprs offset :=
    h.expr.bind fun value hvalue => (ignores_oneOf? _).bind fun _ _ =>
      follows_pure rfl (by simpa using hvalue)
  refine (ignores_keyword? _).bind fun _ _ =>
    follows_ite (hlimit.bind fun values hvalues => ?_) ?_
  · refine (ignores_keyword? _).bind fun _ _ => follows_ite (hoffset.bind fun more hmore => ?_) ?_
    · exact follows_pure (by simp) (by simp [hvalues, hmore])
    -- `LIMIT` with a comma is told by whether a value was read, which renaming leaves alone
    · rw [Trace.exprs, List.isEmpty_map]
      refine follows_ite (follows_pure rfl hvalues) ((ignores_symbol? _).bind fun _ _ => ?_)
      refine follows_ite (h.expr.bind fun value hvalue => ?_) (follows_pure rfl hvalues)
      exact follows_pure (by simp) (by simp [hvalues, hvalue])
  · refine (ignores_keyword? _).bind fun _ _ => follows_ite ?_ (follows_pure rfl (by simp))
    refine hoffset.bind fun values hvalues => (ignores_keyword? _).bind fun _ _ => ?_
    refine follows_ite (hlimit.bind fun more hmore => ?_) (follows_pure rfl hvalues)
    exact follows_pure (by simp) (by simp [hvalues, hmore])

theorem carries_fetch? : t.Carries t.exprs fetch? := by
  refine (ignores_keyword? _).bind fun _ _ => follows_ite ?_ (follows_pure rfl (by simp))
  refine (ignores_expectOneOf _).bind fun _ _ => (ignores_oneOf? _).bind fun _ _ => ?_
  extract_lets close
  have hclose : ∀ quantity, HoldsOnly t.allows quantity →
      t.Follows t.exprs (close quantity) (close (t.exprs quantity)) :=
    fun quantity hquantity => (ignores_keyword? _).bind fun _ _ =>
      follows_when (ignores_keywords? _) (follows_pure rfl hquantity)
  refine follows_ite (hclose [] (by simp)) (ignores_constant.bind fun _ _ => ?_)
  refine (ignores_keyword? _).bind fun _ _ => (ignores_expectOneOf _).bind fun _ _ => ?_
  exact hclose [.literal] (by simp)

theorem ignores_locks (fuel : Nat) : t.Ignores (locks fuel) := by
  induction fuel with
  | zero => exact follows_pure rfl (by simp)
  | succ fuel ih =>
      refine (ignores_keyword? _).bind fun _ _ => follows_ite ?_ (follows_pure rfl (by simp))
      refine (ignores_expectOneOf _).bind fun _ _ => (ignores_keyword? _).bind fun _ _ => ?_
      refine follows_when carries_objectName ((ignores_keyword? _).bind fun _ _ => ?_)
      exact follows_when (ignores_keywords? _) ih

/-- **Queries follow what is traced.** -/
theorem carries_query (h : t.Level inner) : t.Carries (Query.rename t.rename) (query inner) := by
  refine (carries_with? h).bind fun ctes hctes =>
    (ignores_keyword? _).bind fun _ _ => follows_ite ?_ ?_
  · exact (carries_insertTail h).bind fun change hchange =>
      follows_pure (by simp [Body.rename]) (by simp [hctes, hchange])
  refine (ignores_keyword? _).bind fun _ _ => follows_ite ?_ ?_
  · exact (carries_updateTail h).bind fun change hchange =>
      follows_pure (by simp [Body.rename]) (by simp [hctes, hchange])
  refine (carries_body h).bind fun body hbody => (carries_orderBy? h).bind fun order horder => ?_
  refine (carries_limits h).bind fun limits hlimits => carries_fetch?.bind fun fetch hfetch => ?_
  exact follows_fuel fun fuel => (ignores_locks fuel).bind fun _ _ =>
    follows_pure (by simp) (by simp [hctes, hbody, horder, hlimits, hfetch])

/-! ## Levels and statements

What a trace knows of inner queries has to be shown of the queries that are read behind an opening
parenthesis, and of one level over the other only. -/

/-- Queries that are read behind an opening parenthesis over a level that follows the trace are
allowed by it. -/
def Trace.Encloses (t : Trace) : Prop :=
  ∀ inner, t.Level inner → ∀ tokens found rest, t.keeps (.symbol "(" :: tokens) →
    query inner tokens = .ok (found, rest) → t.allows found

/-- **Every level follows what is traced**, by induction on the nesting that is left. -/
theorem Trace.Encloses.level (hencloses : t.Encloses) (depth : Nat) : t.Level (level depth) := by
  induction depth with
  | zero =>
      refine ⟨fun _ => follows_throw _, follows_throw _, follows_throw _, ?_⟩
      intro tokens found rest _ hrun
      exact absurd ((throw_run .tooDeep tokens).symm.trans hrun) (by simp)
  | succ depth ih =>
      -- a level calls the one below it only, so the parsers of the grammar are taken over `ih`
      exact ⟨carries_expression ih, carries_query ih, carries_joinedSource ih, hencloses _ ih⟩

theorem Trace.Encloses.statement (hencloses : t.Encloses) :
    t.Carries (Statement.rename t.rename) statement := by
  have h := hencloses.level (depthLimit - 1)
  have hquery : t.Carries (Statement.rename t.rename)
      (do return .query (← (Grammar.level (depthLimit - 1)).query)) :=
    h.query.bind fun query hquery => follows_pure rfl (by simpa using hquery)
  refine follows_get fun tokens => ?_
  split
  · exact hquery _
  · refine followsAt_ite (hquery _) ?_
    refine followsAt_ite ((carries_insertTail h).behind _ _) ?_
    refine followsAt_ite ((carries_updateTail h).behind _ _) ?_
    exact followsAt_ite ((carries_deleteTail h).behind _ _) (follows_fail _)
  · rename_i hopen hword
    refine Trace.FollowsAt.of_eq ?_ (follows_fail tokens)
    split
    · obtain ⟨rest, rfl, -⟩ := cons_symbol_of_rename ‹_›
      exact absurd rfl (hopen rest)
    · obtain ⟨_, rest, rfl, -⟩ := cons_word_of_rename ‹_›
      exact absurd rfl (hword _ _ rest)
    · rfl

theorem Trace.Encloses.statementsFrom (hencloses : t.Encloses) (fuel : Nat) (separated : Bool) :
    t.Carries (List.map (Statement.rename t.rename)) (statementsFrom fuel separated) := by
  induction fuel generalizing separated with
  | zero => exact follows_fail
  | succ fuel ih =>
      refine follows_get fun tokens => ?_
      split
      · exact follows_pure rfl (by simp) _
      · exact (ih true).behind _ _
      · rename_i token rest hsemicolon
        have hstatement : t.Carries (List.map (Statement.rename t.rename)) (do
            let first ← Grammar.statement
            return first :: (← Grammar.statementsFrom fuel false)) := by
          refine hencloses.statement.bind fun first hfirst => (ih false).bind fun more hmore => ?_
          exact follows_pure (List.map_cons ..) (by simp [hfirst, hmore])
        have hend : t.Follows (List.map (Statement.rename t.rename))
            (if token.isKeyword "END" then pure [] else fail)
            (if (token.rename t.rename).isKeyword "END" then pure [] else fail) := by
          rw [isKeyword_rename]
          exact follows_ite (follows_pure rfl (by simp)) follows_fail
        refine Trace.FollowsAt.of_eq ?_ (followsAt_ite (hstatement _) (hend _))
        -- a token that is no semicolon is none either once it is renamed
        rw [renameTokens, List.map_cons]
        split
        · rename_i heq
          exact absurd heq (by simp)
        · rename_i heq
          obtain ⟨htoken, -⟩ := List.cons.inj heq
          cases token with
          | symbol text => exact absurd htoken hsemicolon
          | _ => simp [Token.rename] at htoken
        · rename_i heq
          obtain ⟨rfl, -⟩ := List.cons.inj heq
          rfl

/-- **Statements follow what is traced.** Renamed tokens give the renamed statements, and the queries
inside statements are ones that the trace allows. -/
theorem Trace.Encloses.statements (hencloses : t.Encloses) {tokens : List Token}
    (htokens : t.keeps tokens) :
    statements (renameTokens t.rename tokens)
        = (statements tokens).map (List.map (Statement.rename t.rename)) ∧
      ∀ found, statements tokens = .ok found → HoldsOnly t.allows found := by
  have hfrom := hencloses.statementsFrom (tokens.length + 1) true tokens htokens
  rw [Grammar.statements, Grammar.statements, renameTokens, List.length_map, StateT.run, StateT.run]
  generalize Grammar.statementsFrom (tokens.length + 1) true tokens = first,
    Grammar.statementsFrom (tokens.length + 1) true (renameTokens t.rename tokens) = second
      at hfrom ⊢
  cases hfrom with
  | error cause => exact ⟨rfl, fun found hfound => absurd hfound (by simp [bind, Except.bind])⟩
  | ok hvalue hrest => exact ⟨rfl, fun found hfound => Except.ok.inj hfound ▸ hvalue⟩

/-! ## Renaming -/

/-- Names alone are traced. -/
def Trace.renaming {f : String → String} (hf : ∀ word ∈ callWords, f word = word) : Trace where
  rename := f
  keeps _ := True
  allows _ := True
  rename_callWord := hf
  keeps_tail _ := trivial
  allows_values _ := trivial

/-- **The statements of renamed tokens are the renamed statements.** -/
theorem statements_rename {f : String → String} (hf : ∀ word ∈ callWords, f word = word)
    (tokens : List Token) :
    statements (renameTokens f tokens)
      = (statements tokens).map (List.map (Statement.rename f)) := by
  have hencloses : (Trace.renaming hf).Encloses := fun _ _ _ _ _ _ _ => trivial
  exact (hencloses.statements trivial).1

end RepoPolicy.Sql.Grammar
