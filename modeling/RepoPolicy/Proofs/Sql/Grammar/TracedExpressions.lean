import RepoPolicy.Proofs.Sql.Grammar.Tracing
import RepoPolicy.Sql.Grammar.Expression

set_option autoImplicit false

/-! # Tracing expressions

If the parsers of the level below follow a trace, so do those of expressions. The queries inside
expressions are read behind an opening parenthesis. -/

namespace RepoPolicy.Sql.Grammar

variable {t : Trace} {inner : Inner}

/-- The parsers of a level follow a trace, and behind an opening parenthesis they read only queries
that it allows. -/
structure Trace.Level (t : Trace) (inner : Inner) : Prop where
  binding : ∀ precedence, t.Carries t.expr (inner.binding precedence)
  query : t.Carries (Query.rename t.rename) inner.query
  source : t.Carries (Source.rename t.rename) inner.source
  enclosed : ∀ tokens query rest, t.keeps (.symbol "(" :: tokens) →
    inner.query tokens = .ok (query, rest) → t.allows query

theorem Trace.Level.expr (h : t.Level inner) : t.Carries t.expr inner.expr := h.binding 0

/-- An expression, as a list. -/
theorem Trace.Level.single (h : t.Level inner) :
    t.Carries t.exprs (do return [← inner.expr]) :=
  h.expr.bind fun _ hvalue => follows_pure rfl (by simpa using hvalue)

/-- Reading a query behind an opening parenthesis. -/
theorem Trace.Level.inside {α β : Type} [HoldsQueries α] {F : α → β} (h : t.Level inner)
    {next : Query → Parser α} {following : Query → Parser β}
    (hnext : ∀ query, t.allows query → HoldsOnly t.allows query →
      t.Follows F (next query) (following (query.rename t.rename))) :
    t.FollowsInside F (inner.query >>= next) (inner.query >>= following) :=
  fun tokens htokens => (h.query tokens (t.keeps_tail htokens)).bind
    fun query rest hrun hquery => hnext query (h.enclosed tokens query rest htokens hrun) hquery rest

/-! ## Clauses that hold expressions -/

/-- An expression if a condition holds, as a list. -/
theorem follows_optional {α β : Type} [HoldsQueries α] {F : α → β} (h : t.Level inner)
    {condition : Prop} [Decidable condition] {next : List Expr → Parser α}
    {following : List Expr → Parser β}
    (hnext : ∀ values, HoldsOnly t.allows values →
      t.Follows F (next values) (following (t.exprs values))) :
    t.Follows F
      (if condition then inner.expr >>= fun value => pure [value] >>= next else pure [] >>= next)
      (if condition then inner.expr >>= fun value => pure [value] >>= following
        else pure [] >>= following) :=
  follows_ite (h.expr.bind fun value hvalue => hnext [value] (by simpa using hvalue))
    (hnext [] (by simp))

theorem carries_orderItem (h : t.Level inner) : t.Carries t.expr (orderItem inner) := by
  refine h.expr.bind fun value hvalue => (ignores_oneOf? _).bind fun _ _ => ?_
  refine (ignores_keywords? _).bind fun _ _ => ?_
  exact follows_ite ((ignores_keywords? _).bind fun _ _ => follows_pure rfl hvalue)
    (follows_pure rfl hvalue)

theorem carries_orderBy? (h : t.Level inner) : t.Carries t.exprs (orderBy? inner) :=
  (ignores_keywords? _).bind fun _ _ =>
    follows_ite (follows_commaSeparated (carries_orderItem h)) (follows_pure rfl (by simp))

theorem qualifiedStar_rename {f : String → String} : ∀ tokens : List Token,
    qualifiedStar (renameTokens f tokens) = (qualifiedStar tokens).map (renameTokens f)
  | [] => rfl
  -- a dot with a star or a name behind it; names are told by their kind, which stays
  | .symbol text :: rest => by
    by_cases hdot : text = "."
    · subst hdot
      match rest with
      | [] => rfl
      | .symbol other :: rest =>
        by_cases hstar : other = "*"
        · subst hstar
          rfl
        · simp [qualifiedStar, renameTokens, Token.rename, hstar]
      | .word _ _ :: rest => exact qualifiedStar_rename rest
      | .string _ :: rest => exact qualifiedStar_rename rest
      | .number :: _ | .literal :: _ | .parameter :: _ => rfl
    · simp [qualifiedStar, renameTokens, Token.rename, hdot]
  | .word _ _ :: _ | .string _ :: _ | .number :: _ | .literal :: _ | .parameter :: _ => rfl

def Starred.rename (f : String → String) : Starred → Starred
  | .star => .star
  | .value expr => .value (expr.rename f)

theorem Starred.toList_rename {f : String → String} (starred : Starred) :
    (starred.rename f).toList = starred.toList.map (Expr.rename f) := by
  cases starred <;> rfl

theorem carries_starred (h : t.Level inner) :
    t.Carries (Starred.rename t.rename) (starred inner) := by
  have hvalue : t.Carries (Starred.rename t.rename) (do return .value (← inner.expr)) :=
    h.expr.bind fun value hvalue => follows_pure rfl (by simpa [Starred.toList] using hvalue)
  have hstar : t.Carries (Starred.rename t.rename) (pure .star) :=
    follows_pure rfl (by simp [Starred.toList])
  refine follows_get fun tokens => ?_
  split
  · exact hstar.behind _ _
  iterate 2
    rename_i rest
    simp only [renameTokens, List.map_cons, Token.rename]
    rw [← renameTokens, qualifiedStar_rename]
    cases hbehind : qualifiedStar rest with
    | none => exact hvalue _
    | some behind =>
        have hsuffix := suffix_of_qualifiedStar hbehind
        exact .set (fun htokens => t.keeps_of_suffix hsuffix (t.keeps_tail htokens))
          (hstar behind)
  · rename_i hsymbol hword hstring
    -- tokens that begin in none of these ways do not do so either once they are renamed
    split
    · obtain ⟨rest, rfl, -⟩ := cons_symbol_of_rename ‹_›
      exact absurd rfl (hsymbol rest)
    · obtain ⟨value, rest, rfl, -⟩ := cons_word_of_rename ‹_›
      exact absurd rfl (hword value _ rest)
    · obtain ⟨value, rest, rfl, -⟩ := cons_string_of_rename ‹_›
      exact absurd rfl (hstring value rest)
    · exact hvalue _

theorem carries_argument (h : t.Level inner) : t.Carries t.exprs (argument inner) := by
  have hnamed : t.Carries (Starred.rename t.rename) (do
      let _ ← identifier
      if !(← symbol? "=>") then expectSymbol ":="
      starred inner) :=
    carries_identifier.bind fun _ _ => (ignores_symbol? _).bind fun _ _ =>
      follows_when (ignores_expectSymbol _) (carries_starred h)
  refine (follows_attempt hnamed).bind fun named hnamed => ?_
  cases named with
  | some value => exact follows_pure value.toList_rename.symm (by simpa using hnamed)
  | none =>
      exact (carries_starred h).bind fun value hvalue =>
        follows_pure value.toList_rename.symm (by simpa using hvalue)

theorem ignores_nullTreatment? : t.Ignores nullTreatment? :=
  (ignores_oneOf? _).bind fun _ _ =>
    follows_ite (ignores_expectKeyword _) (follows_pure rfl (by simp))

theorem carries_arguments (h : t.Level inner) : t.Carries t.exprs (arguments inner) := by
  refine (ignores_symbol? _).bind fun _ _ => follows_ite (follows_pure rfl (by simp)) ?_
  refine (ignores_keyword? _).bind fun _ _ => follows_when (ignores_keyword? _) ?_
  refine (follows_commaSeparated (carries_argument h)).bind fun values hvalues => ?_
  refine ignores_nullTreatment?.bind fun _ _ => (carries_orderBy? h).bind fun order horder => ?_
  refine (ignores_keyword? _).bind fun _ _ => follows_optional h fun limit hlimit => ?_
  refine (ignores_keyword? _).bind fun _ _ => follows_when ignores_constant ?_
  refine (ignores_expectSymbol _).bind fun _ _ => ?_
  exact follows_pure (by simp [List.map_flatten]) (by simp [hvalues, horder, hlimit])

theorem carries_frameBound (h : t.Level inner) : t.Carries t.exprs (frameBound inner) := by
  have hclose : ∀ distance, HoldsOnly t.allows distance → t.Follows t.exprs
      (expectOneOf ["PRECEDING", "FOLLOWING"] >>= fun _ => pure distance)
      (expectOneOf ["PRECEDING", "FOLLOWING"] >>= fun _ => pure (t.exprs distance)) :=
    fun distance hdistance => (ignores_expectOneOf _).bind fun _ _ => follows_pure rfl hdistance
  refine (ignores_keywords? _).bind fun _ _ => follows_ite (follows_pure rfl (by simp)) ?_
  refine (ignores_keyword? _).bind fun _ _ => follows_ite (hclose [] (by simp)) ?_
  exact h.expr.bind fun value hvalue => hclose [value] (by simpa using hvalue)

theorem carries_windowFrame (h : t.Level inner) : t.Carries t.exprs (windowFrame inner) := by
  refine (ignores_expectOneOf _).bind fun _ _ => (ignores_keyword? _).bind fun _ _ => ?_
  refine follows_ite ((carries_frameBound h).bind fun first hfirst => ?_) (carries_frameBound h)
  refine (ignores_expectKeyword _).bind fun _ _ => ?_
  refine (carries_frameBound h).bind fun last hlast => ?_
  exact follows_pure (by simp) (by simp [hfirst, hlast])

theorem carries_windowSpecification (h : t.Level inner) :
    t.Carries t.exprs (windowSpecification inner) := by
  -- what follows the partition, whose expressions are at hand
  have hclose : ∀ parts, HoldsOnly t.allows parts → t.Follows t.exprs
      (do
        let order ← orderBy? inner
        if ← symbol? ")" then return parts ++ order
        else
          let frame ← windowFrame inner
          expectSymbol ")"
          return parts ++ order ++ frame)
      (do
        let order ← orderBy? inner
        if ← symbol? ")" then return t.exprs parts ++ order
        else
          let frame ← windowFrame inner
          expectSymbol ")"
          return t.exprs parts ++ order ++ frame) := by
    intro parts hparts
    refine (carries_orderBy? h).bind fun order horder => (ignores_symbol? _).bind fun _ _ => ?_
    refine follows_ite (follows_pure (by simp) (by simp [hparts, horder])) ?_
    refine (carries_windowFrame h).bind fun frame hframe => ?_
    exact (ignores_expectSymbol _).bind fun _ _ =>
      follows_pure (by simp) (by simp [hparts, horder, hframe])
  refine follows_get fun tokens => ?_
  extract_lets close rest
  have hrest : t.Carries t.exprs (rest ()) := by
    refine (ignores_keywords? _).bind fun _ _ => ?_
    exact follows_ite ((follows_commaSeparated h.expr).bind hclose) (hclose [] (by simp))
  match tokens with
  | [] => exact hrest _
  | .word value spelling :: more => exact followsAt_ite (hrest.behind _ more) (hrest _)
  | .number :: _ | .string _ :: _ | .literal :: _ | .parameter :: _ | .symbol _ :: _ =>
      exact hrest _

theorem follows_callTail (h : t.Level inner) (name : List String) :
    t.Follows t.expr (callTail inner name) (callTail inner (name.map t.rename)) := by
  refine (carries_arguments h).bind fun first hfirst => (ignores_symbol? _).bind fun _ _ => ?_
  extract_lets grouped grouped'
  -- the call is put together at its end, so what was read before is carried along part by part
  have hgrouped : ∀ second, HoldsOnly t.allows second →
      t.Follows t.expr (grouped second) (grouped' (t.exprs second)) := by
    intro second hsecond
    refine (ignores_keywords? _).bind fun _ _ => ?_
    extract_lets windowed windowed'
    have hwindowed : ∀ within, HoldsOnly t.allows within →
        t.Follows t.expr (windowed within) (windowed' (t.exprs within)) := by
      intro within hwithin
      refine ignores_nullTreatment?.bind fun _ _ => (ignores_keyword? _).bind fun _ _ => ?_
      extract_lets close close'
      have hclose : ∀ window, HoldsOnly t.allows window →
          t.Follows t.expr (close window) (close' (t.exprs window)) :=
        fun window hwindow =>
          follows_pure (by simp) (by simp [hfirst, hsecond, hwithin, hwindow])
      refine follows_ite ((ignores_symbol? _).bind fun _ _ => ?_) (hclose [] (by simp))
      refine follows_ite ((carries_windowSpecification h).bind hclose) ?_
      exact carries_identifier.bind fun _ _ => hclose [] (by simp)
    refine follows_ite ((ignores_expectSymbol _).bind fun _ _ => ?_) (hwindowed [] (by simp))
    refine (carries_orderBy? h).bind fun order horder => ?_
    exact (ignores_expectSymbol _).bind fun _ _ => hwindowed order horder
  exact follows_ite ((carries_arguments h).bind hgrouped) (hgrouped [] (by simp))

/-! ## Operands that begin with a keyword -/

theorem carries_caseBranches (h : t.Level inner) (fuel : Nat) :
    t.Carries t.exprs (caseBranches inner fuel) := by
  induction fuel with
  | zero => exact follows_fail
  | succ fuel ih =>
      refine h.expr.bind fun condition hcondition => (ignores_expectKeyword _).bind fun _ _ => ?_
      refine h.expr.bind fun result hresult => (ignores_keyword? _).bind fun _ _ => ?_
      refine follows_ite (ih.bind fun more hmore => ?_) ?_
      · exact follows_pure rfl (by simp [hcondition, hresult, hmore])
      · exact follows_pure rfl (by simp [hcondition, hresult])

theorem carries_caseTail (h : t.Level inner) : t.Carries t.expr (caseTail inner) := by
  refine (ignores_keyword? _).bind fun _ _ => ?_
  extract_lets branches
  have hbranches : ∀ operand, HoldsOnly t.allows operand →
      t.Follows t.expr (branches operand) (branches (t.exprs operand)) := by
    intro operand hoperand
    refine follows_fuel fun fuel => (carries_caseBranches h fuel).bind fun found hfound => ?_
    refine (ignores_keyword? _).bind fun _ _ => follows_optional h fun otherwise hotherwise => ?_
    exact (ignores_expectKeyword _).bind fun _ _ =>
      follows_pure (by simp) (by simp [hoperand, hfound, hotherwise])
  refine follows_ite (hbranches [] (by simp)) (h.expr.bind fun value hvalue => ?_)
  exact (ignores_expectKeyword _).bind fun _ _ => hbranches [value] (by simpa using hvalue)

theorem carries_castTail (h : t.Level inner) : t.Carries t.expr (castTail inner) := by
  refine follows_inParentheses (Trace.Follows.inside ?_)
  refine h.expr.bind fun value hvalue => (ignores_expectKeyword _).bind fun _ _ => ?_
  refine ignores_dataType.bind fun _ _ => (ignores_keyword? _).bind fun _ _ => ?_
  exact follows_when ignores_constant (follows_pure (by simp) (by simpa using hvalue))

theorem carries_extractTail (h : t.Level inner) : t.Carries t.expr (extractTail inner) := by
  refine follows_inParentheses (Trace.Follows.inside ?_)
  refine ignores_dateField.bind fun _ _ => (ignores_keyword? _).bind fun _ _ => ?_
  refine follows_when (ignores_expectSymbol _) (h.expr.bind fun value hvalue => ?_)
  exact follows_pure (by simp) (by simpa using hvalue)

theorem carries_roundingTail (h : t.Level inner) : t.Carries t.expr (roundingTail inner) := by
  refine follows_inParentheses (Trace.Follows.inside ?_)
  refine h.expr.bind fun value hvalue => (ignores_keyword? _).bind fun _ _ => ?_
  extract_lets close close'
  have hclose : t.Follows t.expr (close ()) (close' ()) :=
    follows_pure (by simp) (by simpa using hvalue)
  refine follows_ite (ignores_dateField.bind fun _ _ => hclose) ?_
  refine (ignores_symbol? _).bind fun _ _ =>
    follows_ite (carries_next.bind fun token _ => ?_) hclose
  cases token with
  | number => exact hclose
  | _ => exact Trace.Follows.bind (F := fun value => value) follows_fail fun _ _ => hclose

theorem carries_positionTail (h : t.Level inner) : t.Carries t.expr (positionTail inner) := by
  refine follows_inParentheses (Trace.Follows.inside ?_)
  refine (h.binding _).bind fun value hvalue => (ignores_expectKeyword _).bind fun _ _ => ?_
  exact h.expr.bind fun text htext => follows_pure (by simp) (by simp [hvalue, htext])

theorem carries_partBehind? (h : t.Level inner) (keyword : String) :
    t.Carries t.exprs (partBehind? inner keyword) :=
  (ignores_keyword? _).bind fun _ _ => follows_ite h.single <|
    (ignores_symbol? _).bind fun _ _ => follows_ite h.single (follows_pure rfl (by simp))

theorem carries_substringTail (h : t.Level inner) : t.Carries t.expr (substringTail inner) := by
  refine follows_inParentheses (Trace.Follows.inside ?_)
  refine h.expr.bind fun text htext => (carries_partBehind? h _).bind fun first hfirst => ?_
  refine (carries_partBehind? h _).bind fun length hlength => ?_
  exact follows_pure (by simp) (by simp [htext, hfirst, hlength])

theorem carries_overlayTail (h : t.Level inner) : t.Carries t.expr (overlayTail inner) := by
  refine follows_inParentheses (Trace.Follows.inside ?_)
  refine h.expr.bind fun text htext => (ignores_expectKeyword _).bind fun _ _ => ?_
  refine h.expr.bind fun part hpart => (ignores_expectKeyword _).bind fun _ _ => ?_
  refine h.expr.bind fun first hfirst => (ignores_keyword? _).bind fun _ _ => ?_
  exact follows_optional h fun length hlength =>
    follows_pure (by simp) (by simp [htext, hpart, hfirst, hlength])

theorem carries_trimTail (h : t.Level inner) : t.Carries t.expr (trimTail inner) := by
  refine follows_inParentheses (Trace.Follows.inside ?_)
  refine (ignores_oneOf? _).bind fun _ _ => h.expr.bind fun first hfirst => ?_
  refine (ignores_keyword? _).bind fun _ _ => follows_ite (h.expr.bind fun text htext => ?_) ?_
  · exact follows_pure (by simp) (by simp [hfirst, htext])
  refine (ignores_symbol? _).bind fun _ _ =>
    follows_ite ?_ (follows_pure (by simp) (by simpa using hfirst))
  exact (follows_commaSeparated h.expr).bind fun values hvalues =>
    follows_pure (by simp) (by simp [hfirst, hvalues])

theorem carries_intervalTail (h : t.Level inner) : t.Carries t.expr (intervalTail inner) := by
  refine (h.binding _).bind fun value hvalue => (ignores_oneOf? _).bind fun _ _ => ?_
  extract_lets close close'
  have hclose : t.Follows t.expr (close ()) (close' ()) :=
    follows_pure (by simp) (by simpa using hvalue)
  refine follows_ite ?_ hclose
  refine ignores_optionalTypeArguments.bind fun _ _ => (ignores_keyword? _).bind fun _ _ => ?_
  refine follows_ite (ignores_dateField.bind fun _ _ => ?_) hclose
  exact ignores_optionalTypeArguments.bind fun _ _ => hclose

theorem carries_enclosedQuery (h : t.Level inner) (use : QueryUse) :
    t.Carries t.expr (inParentheses do return Expr.query use [] (← inner.query)) :=
  follows_inParentheses (h.inside fun query hallowed hquery =>
    follows_pure (by simp) (by simp [hallowed, hquery]))

theorem carries_notTail (h : t.Level inner) : t.Carries t.expr (notTail inner) := by
  refine (ignores_keyword? _).bind fun _ _ => follows_ite (carries_enclosedQuery h _) ?_
  exact (h.binding _).bind fun value hvalue => follows_pure (by simp) (by simpa using hvalue)

theorem carries_arrayTail (h : t.Level inner) : t.Carries t.expr (arrayTail inner) := by
  refine (ignores_symbol? _).bind fun _ _ => follows_ite (follows_pure (by simp) (by simp)) ?_
  refine (follows_commaSeparated h.expr).bind fun values hvalues => ?_
  exact (ignores_expectSymbol _).bind fun _ _ =>
    follows_pure (by simp) (by simpa using hvalues)

theorem carries_structTail (h : t.Level inner) : t.Carries t.expr (structTail inner) := by
  have hfield : t.Carries t.expr (do
      let value ← inner.expr
      if ← keyword? "AS" then
        let _ ← identifier
      return value) :=
    h.expr.bind fun value hvalue => (ignores_keyword? _).bind fun _ _ =>
      follows_when carries_identifier (follows_pure rfl hvalue)
  refine (ignores_expectSymbol _).bind fun _ _ => (ignores_symbol? _).bind fun _ _ => ?_
  refine follows_ite (follows_pure (by simp) (by simp)) ?_
  refine (follows_commaSeparated hfield).bind fun values hvalues => ?_
  exact (ignores_expectSymbol _).bind fun _ _ =>
    follows_pure (by simp) (by simpa using hvalues)

theorem carries_keywordOperand (h : t.Level inner) {spelling : String} {parser : Parser Expr}
    (hparser : keywordOperand inner spelling = some parser) : t.Carries t.expr parser := by
  have hcall : spelling ∈ callWords → t.Carries t.expr (pure (Expr.call [spelling] [])) :=
    fun hword => follows_pure (by simp [t.rename_callWord _ hword]) (by simp)
  have htime : spelling ∈ callWords → t.Carries t.expr (do
      if ← symbol? "(" then return Expr.call [spelling] (← arguments inner)
      else return Expr.call [spelling] []) := by
    intro hword
    refine (ignores_symbol? _).bind fun _ _ => follows_ite ?_ (hcall hword)
    exact (carries_arguments h).bind fun values hvalues =>
      follows_pure (by simp [t.rename_callWord _ hword]) (by simpa using hvalues)
  have harray : t.Carries t.expr (do
      if ← symbol? "[" then arrayTail inner
      else inParentheses do return Expr.query .array [] (← inner.query)) :=
    (ignores_symbol? _).bind fun _ _ =>
      follows_ite (carries_arrayTail h) (carries_enclosedQuery h _)
  unfold keywordOperand at hparser
  -- one case per keyword; the last one, of all other words, has no parser
  split at hparser
  all_goals cases hparser
  iterate 3 exact follows_pure (by simp) (by simp)
  iterate 4 exact hcall (by decide)
  iterate 5 exact htime (by decide)
  · exact carries_caseTail h
  iterate 3 exact carries_castTail h
  · exact carries_enclosedQuery h _
  · exact carries_extractTail h
  iterate 2 exact carries_roundingTail h
  · exact carries_positionTail h
  · exact carries_substringTail h
  · exact carries_overlayTail h
  · exact carries_trimTail h
  · exact carries_intervalTail h
  · exact harray
  · exact carries_structTail h
  · exact carries_notTail h

/-! ## Operands -/

theorem carries_moreNames (fuel : Nat) : t.Carries (List.map t.rename) (moreNames fuel) := by
  induction fuel with
  | zero => exact follows_pure rfl (by simp)
  | succ fuel ih =>
      refine (ignores_symbol? _).bind fun _ _ => follows_ite ?_ (follows_pure rfl (by simp))
      exact carries_identifier.bind fun _ _ => ih.bind fun _ _ => follows_pure rfl (by simp)

theorem follows_named (h : t.Level inner) (first : String) :
    t.Follows t.expr (named inner first) (named inner (t.rename first)) := by
  refine follows_fuel fun fuel => (carries_moreNames fuel).bind fun more _ => ?_
  refine (ignores_symbol? _).bind fun _ _ => ?_
  exact follows_ite (follows_callTail h (first :: more)) (follows_pure (by simp) (by simp))

theorem carries_typedLiteral (h : t.Level inner) : t.Carries t.expr (typedLiteral inner) := by
  refine ignores_dataType.bind fun name _ => ?_
  cases name with
  | interval => exact carries_intervalTail h
  | builtin =>
      exact ignores_stringLiteral.bind fun _ _ => follows_pure (by simp) (by simp)
  | custom => exact follows_fail

theorem followsInside_parenthesized (h : t.Level inner) :
    t.FollowsInside t.expr (parenthesized inner) (parenthesized inner) := by
  refine followsInside_peekOneOf fun isQuery => ?_
  extract_lets close
  -- behind the closing parenthesis a field may be taken of what is inside
  have hclose : ∀ value, HoldsOnly t.allows value →
      t.Follows t.expr (close value) (close (t.expr value)) := by
    intro value hvalue
    refine (ignores_expectSymbol _).bind fun _ _ => (ignores_symbol? _).bind fun _ _ => ?_
    refine follows_ite (carries_next.bind fun token _ => ?_) (follows_pure rfl hvalue)
    cases token with
    | word => exact follows_pure (by simp) (by simpa using hvalue)
    | _ => exact follows_fail
  refine followsInside_ite (h.inside fun query hallowed hquery => ?_) (Trace.Follows.inside ?_)
  · simpa using hclose (.query .scalar [] query) (by simp [hallowed, hquery])
  · refine (follows_commaSeparated h.expr).bind fun values hvalues => ?_
    match values with
    | [] => simpa using hclose (.operation .tuple []) (by simp)
    | [value] =>
        simpa using hclose (.operation .parenthesis [value]) (by simpa using hvalues)
    | first :: second :: more =>
        simpa using hclose (.operation .tuple (first :: second :: more)) (by simpa using hvalues)

theorem follows_wordOperand (h : t.Level inner) (value spelling : String) :
    t.Follows t.expr (wordOperand inner value spelling)
      (wordOperand inner (t.rename value) spelling) := by
  intro tokens htokens
  have hname := follows_named h value tokens htokens
  simp only [wordOperand, StateT.run]
  cases hparser : keywordOperand inner spelling with
  | none => exact hname
  | some parser =>
      have hkeyword := carries_keywordOperand h hparser tokens htokens
      dsimp only
      generalize parser tokens = found,
        parser (renameTokens t.rename tokens) = found' at hkeyword ⊢
      generalize named inner value tokens = name,
        named inner (t.rename value) (renameTokens t.rename tokens) = name' at hname ⊢
      -- the two readings fail together, so the word is read as a name in both or in neither
      cases hkeyword with
      | ok hvalue hrest => exact .ok hvalue hrest
      | error cause =>
          dsimp only
          split
          · exact .error cause
          · cases hname with
            | ok hvalue hrest => exact .ok hvalue hrest
            | error _ => exact .error cause

theorem carries_plainOperand (h : t.Level inner) : t.Carries t.expr (plainOperand inner) := by
  have hliteral : t.Carries t.expr (pure Expr.literal) := follows_pure (by simp) (by simp)
  have hsign : ∀ sign, t.Carries t.expr (do
      return Expr.operation (.unary sign) [← inner.binding signPrecedence]) :=
    fun sign => (h.binding _).bind fun value hvalue =>
      follows_pure (by simp) (by simpa using hvalue)
  refine (follows_attempt (carries_typedLiteral h)).bind fun typed htyped => ?_
  cases typed with
  | some value => exact follows_pure rfl (by simpa using htyped)
  | none =>
      -- only behind an opening parenthesis can the operand be a query
      refine follows_next_open (followsInside_parenthesized h) fun token htoken => ?_
      cases token with
      | word value spelling => exact follows_wordOperand h value spelling
      | symbol text =>
          simp only [Token.rename]
          split
          all_goals try contradiction
          · exact carries_arrayTail h
          iterate 2 exact hsign _
          · refine carries_next.bind fun name _ => ?_
            cases name with
            | word => exact hliteral
            | number => exact hliteral
            | _ => exact follows_fail
          · exact follows_fail
      | _ => exact hliteral

theorem carries_operand (h : t.Level inner) : t.Carries t.expr (operand inner) := by
  refine (carries_plainOperand h).bind fun value hvalue => (ignores_keyword? _).bind fun _ _ => ?_
  refine follows_ite (carries_objectName.bind fun _ _ => ?_) (follows_pure rfl hvalue)
  exact follows_pure (by simp) (by simpa using hvalue)

/-! ## Operators -/

section Operators

variable (h : t.Level inner) {value : Expr} (hvalue : HoldsOnly t.allows value)

include h hvalue

theorem follows_inTail : t.Follows t.expr (inTail inner value) (inTail inner (t.expr value)) := by
  refine follows_inParentheses (followsInside_peekOneOf fun _ => ?_)
  refine followsInside_ite (h.inside fun query hallowed hquery => ?_) (Trace.Follows.inside ?_)
  · exact follows_pure (by simp) (by simp [hvalue, hallowed, hquery])
  · exact (follows_commaSeparated h.expr).bind fun values hvalues =>
      follows_pure (by simp) (by simp [hvalue, hvalues])

theorem follows_betweenTail :
    t.Follows t.expr (betweenTail inner value) (betweenTail inner (t.expr value)) := by
  refine (h.binding _).bind fun low hlow => (ignores_expectKeyword _).bind fun _ _ => ?_
  exact (h.binding _).bind fun high hhigh =>
    follows_pure (by simp) (by simp [hvalue, hlow, hhigh])

theorem follows_likeTail :
    t.Follows t.expr (likeTail inner value) (likeTail inner (t.expr value)) := by
  refine (ignores_keyword? _).bind fun _ _ => (h.binding _).bind fun pattern hpattern => ?_
  refine (ignores_keyword? _).bind fun _ _ => follows_when ignores_stringLiteral ?_
  exact follows_pure (by simp) (by simp [hvalue, hpattern])

theorem follows_isTail : t.Follows t.expr (isTail inner value) (isTail inner (t.expr value)) := by
  refine (ignores_keyword? _).bind fun _ _ => (ignores_oneOf? _).bind fun _ _ => ?_
  refine follows_ite (follows_pure (by simp) (by simpa using hvalue)) ?_
  refine (ignores_keywords? _).bind fun _ _ => ?_
  refine follows_ite (h.expr.bind fun other hother => ?_) follows_fail
  exact follows_pure (by simp) (by simp [hvalue, hother])

/-- An operator with its right operand. -/
theorem follows_right (operator : Operator) (precedence : Nat) : t.Follows t.expr
    (do return Expr.operation operator [value, ← inner.binding precedence])
    (do return Expr.operation operator [t.expr value, ← inner.binding precedence]) :=
  (h.binding _).bind fun right hright => follows_pure (by simp) (by simp [hvalue, hright])

theorem follows_predicateTail :
    t.Follows t.expr (predicateTail inner value) (predicateTail inner (t.expr value)) := by
  refine (ignores_keyword? _).bind fun _ _ => (ignores_oneOf? _).bind fun keyword _ => ?_
  split
  · exact follows_inTail h hvalue
  · exact follows_betweenTail h hvalue
  · exact (ignores_expectKeyword _).bind fun _ _ => follows_likeTail h hvalue
  iterate 2 exact follows_right h hvalue _ _
  · exact follows_likeTail h hvalue
  · exact follows_fail

theorem follows_binaryTail (symbol : String) (precedence : Nat) :
    t.Follows t.expr (binaryTail inner value symbol precedence)
      (binaryTail inner (t.expr value) symbol precedence) := by
  refine (ignores_oneOf? _).bind fun quantifier _ => ?_
  cases quantifier with
  | none => exact follows_right h hvalue _ _
  | some keyword =>
      refine follows_when (F := fun value => value) follows_fail
        (follows_get fun tokens htokens => ?_)
      -- before a query the parser goes back to these tokens, so they are kept at hand
      refine (ignores_expectSymbol _).bind (fun _ _ => ?_) tokens htokens
      refine (ignores_peekOneOf _).bind fun _ _ => follows_ite ?_ ?_
      · exact fun _ => .set (fun _ => htokens) (follows_right h hvalue _ _ tokens)
      · refine (h.binding _).bind fun right hright => (ignores_expectSymbol _).bind fun _ _ => ?_
        exact follows_pure (by simp) (by simp [hvalue, hright])

theorem follows_subscriptTail :
    t.Follows t.expr (subscriptTail inner value) (subscriptTail inner (t.expr value)) := by
  -- what is read from the upper bound on, behind the operands read before
  have hupper : ∀ before : List Expr, HoldsOnly t.allows before → t.Follows t.expr
      (do
        let upper ← inner.expr
        expectSymbol "]"
        return Expr.operation .subscript (before ++ [upper]))
      (do
        let upper ← inner.expr
        expectSymbol "]"
        return Expr.operation .subscript (t.exprs before ++ [upper])) := by
    intro before hbefore
    refine h.expr.bind fun upper hupper => (ignores_expectSymbol _).bind fun _ _ => ?_
    exact follows_pure (by simp) (by simp [hbefore, hupper])
  refine (ignores_symbol? _).bind fun _ _ => follows_ite ?_ (h.expr.bind fun lower hlower => ?_)
  · refine (ignores_symbol? _).bind fun _ _ =>
      follows_ite (follows_pure (by simp) (by simpa using hvalue)) ?_
    exact hupper [value] (by simpa using hvalue)
  · have hclosed : t.Follows t.expr (pure (Expr.operation .subscript [value, lower]))
        (pure (Expr.operation .subscript [t.expr value, t.expr lower])) :=
      follows_pure (by simp) (by simp [hvalue, hlower])
    refine (ignores_symbol? _).bind fun _ _ => follows_ite ?_ ?_
    · refine (ignores_symbol? _).bind fun _ _ => follows_ite hclosed ?_
      exact hupper [value, lower] (by simp [hvalue, hlower])
    · exact (ignores_expectSymbol _).bind fun _ _ => hclosed

theorem follows_extend (precedence : Nat) :
    t.Follows t.expr (extend inner value precedence) (extend inner (t.expr value) precedence) := by
  refine follows_get fun tokens => ?_
  split
  · refine Trace.Follows.behind (ignores_dataType.bind fun _ _ => ?_) _ _
    exact follows_pure (by simp) (by simpa using hvalue)
  · exact (follows_subscriptTail h hvalue).behind _ _
  · rename_i text rest hcast hbracket
    refine Trace.FollowsAt.of_eq ?_
      (followsAt_ite ((follows_binaryTail h hvalue text precedence).behind _ rest)
        (follows_fail _))
    simp only [renameTokens, List.map_cons, Token.rename]
  · exact (follows_isTail h hvalue).behind _ _
  · refine Trace.Follows.behind ((ignores_expectKeyword _).bind fun _ _ => ?_) _ _
    refine (ignores_expectKeyword _).bind fun _ _ => (h.binding _).bind fun zone hzone => ?_
    exact follows_pure (by simp) (by simp [hvalue, hzone])
  · rename_i spelling rest his hat
    refine Trace.FollowsAt.of_eq ?_
      (followsAt_ite ((follows_binaryTail h hvalue spelling precedence).behind _ rest)
        (follows_predicateTail h hvalue _))
    simp only [renameTokens, List.map_cons, Token.rename]
  -- what is neither a symbol nor a word extends nothing, renamed or not
  · rename_i hsymbol _ _ hword
    cases tokens with
    | nil => exact follows_fail _
    | cons token rest =>
        cases token with
        | symbol text => exact absurd rfl (hsymbol text rest)
        | word other spelling => exact absurd rfl (hword other spelling rest)
        | _ => exact follows_fail _

end Operators

theorem operatorPrecedence_rename {f : String → String} (tokens : List Token) :
    operatorPrecedence (renameTokens f tokens) = operatorPrecedence tokens := by
  rw [operatorPrecedence.eq_def tokens]
  split
  iterate 7 rfl
  · rename_i value spelling rest hor hand hxor hzone hnot his hdiv
    rw [operatorPrecedence.eq_def]
    -- a renamed word is none of the words above either, as its spelling and the next ones stay
    simp only [renameTokens, List.map_cons, Token.rename]
    split
    · simp_all
    · simp_all
    · simp_all
    · rename_i heq
      obtain ⟨hat, hrest⟩ := List.cons.inj heq
      obtain ⟨_, more, rfl, hmore⟩ := cons_word_of_rename hrest
      obtain ⟨_, tail, rfl, -⟩ := cons_word_of_rename hmore.symm
      exact absurd (Token.word.inj hat).2 (hzone _ _ tail rfl)
    · rename_i heq
      obtain ⟨hword, hrest⟩ := List.cons.inj heq
      obtain ⟨_, more, rfl, -⟩ := cons_word_of_rename hrest
      exact absurd (Token.word.inj hword).2 (hnot _ _ more rfl)
    · simp_all
    · simp_all
    · simp_all
    · simp_all
    · simp_all
  · rfl
  · rename_i hword hsymbol
    cases tokens with
    | nil => rfl
    | cons token rest =>
        cases token with
        | word value spelling => exact absurd rfl (hword value spelling rest)
        | symbol text => exact absurd rfl (hsymbol text rest)
        | _ => rfl

theorem follows_extendWhile (h : t.Level inner) (precedence fuel : Nat) {value : Expr}
    (hvalue : HoldsOnly t.allows value) :
    t.Follows t.expr (extendWhile inner precedence fuel value)
      (extendWhile inner precedence fuel (t.expr value)) := by
  induction fuel generalizing value with
  | zero => exact follows_pure rfl hvalue
  | succ fuel ih =>
      refine follows_get fun tokens => ?_
      simp only [operatorPrecedence_rename]
      refine followsAt_ite ?_ (follows_pure rfl hvalue tokens)
      exact (follows_extend h hvalue _).bind (fun _ hlonger => ih hlonger) tokens

/-- **Expressions follow what is traced.** -/
theorem carries_expression (h : t.Level inner) (precedence : Nat) :
    t.Carries t.expr (expression inner precedence) :=
  (carries_operand h).bind fun _ hfirst => follows_fuel fun fuel =>
    follows_extendWhile h precedence fuel hfirst

/-! ## Select lists -/

theorem ignores_starOptions : t.Ignores starOptions := by
  refine (ignores_oneOf? _).bind fun _ _ => follows_ite ?_ (follows_pure rfl (by simp))
  refine (ignores_peekSymbol _).bind fun _ _ => follows_ite ?_ ?_
  · exact carries_columnNames.bind fun _ _ => follows_pure rfl (by simp)
  · exact carries_identifier.bind fun _ _ => follows_pure rfl (by simp)

theorem carries_selectItem (h : t.Level inner) :
    t.Carries (SelectItem.rename t.rename) (selectItem inner) := by
  have hitem : ∀ value : Expr, HoldsOnly t.allows value → t.Follows (SelectItem.rename t.rename)
      (do return SelectItem.expression value (← alias? reservedForColumnAlias))
      (do return SelectItem.expression (t.expr value) (← alias? reservedForColumnAlias)) :=
    fun value hvalue => (carries_alias? _).bind fun _ _ =>
      follows_pure rfl (by simpa using hvalue)
  refine (ignores_peekOneOf _).bind fun _ _ => (carries_starred h).bind fun found hfound => ?_
  cases found with
  | star => exact ignores_starOptions.bind fun _ _ => follows_pure rfl (by simp)
  | value value =>
      have hvalue : HoldsOnly t.allows value := by simpa [Starred.toList] using hfound
      match value with
      | .column [name] =>
          exact follows_when (F := fun value => value) follows_fail (hitem (.column [name]) hvalue)
      | .column [] | .column (_ :: _ :: _) | .literal | .operation _ _ | .call _ _ | .query _ _ _ =>
          exact hitem _ hvalue

theorem carries_returning? (h : t.Level inner) :
    t.Carries (List.map (SelectItem.rename t.rename)) (returning? inner) :=
  (ignores_keyword? _).bind fun _ _ =>
    follows_ite (follows_commaSeparated (carries_selectItem h)) (follows_pure rfl (by simp))

theorem carries_where? (h : t.Level inner) : t.Carries t.exprs (where? inner) :=
  (ignores_keyword? _).bind fun _ _ => follows_ite h.single (follows_pure rfl (by simp))

end RepoPolicy.Sql.Grammar
