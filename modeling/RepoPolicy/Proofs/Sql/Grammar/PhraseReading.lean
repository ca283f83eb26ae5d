import RepoPolicy.Proofs.Sql.Grammar.Phrases

set_option autoImplicit false

/-! # Reading expressions

An expression is read from a phrase: outside brackets it has no comma, if it is a reference to a
column it ends in its name, and otherwise it does not look as if it had a name. This is shown for
the grammar of expressions on top of the level below it. -/

namespace RepoPolicy.Sql.Grammar

/-- The parsers of a level read phrases, and text with its brackets in pairs. -/
structure PhrasesAll (inner : Inner) : Prop where
  binding : ∀ precedence, Reads Phrase (inner.binding precedence)
  query : Balanced inner.query
  source : Balanced inner.source

variable {inner : Inner}

theorem PhrasesAll.expr (h : PhrasesAll inner) : Reads Phrase inner.expr := h.binding 0

/-! ## Clauses that hold expressions -/

theorem balanced_orderItem (h : PhrasesAll inner) : Balanced (orderItem inner) := by
  refine h.expr.bind fun _ _ _ => (balanced_oneOf? _).bind fun _ _ _ => ?_
  refine (balanced_keywords? _ _).bind fun _ _ _ => ?_
  exact balanced_when (balanced_keywords? _ _) (balanced_pure _)

theorem balanced_orderBy? (h : PhrasesAll inner) : Balanced (orderBy? inner) :=
  (balanced_keywords? _ _).bind fun _ _ _ =>
    reads_ite (balanced_commaSeparated (balanced_orderItem h)) (balanced_pure _)

theorem outline_of_qualifiedStar {tokens rest : List Token}
    (h : qualifiedStar tokens = some rest) :
    ∃ front, tokens = front ++ [.symbol "*"] ++ rest ∧ Outline (front ++ [.symbol "*"])
      (front ++ [.symbol "*"]) ∧ .symbol "," ∉ front := by
  fun_induction qualifiedStar tokens with
  | case1 more =>
      obtain rfl := Option.some.inj h
      exact ⟨[.symbol "."], rfl, .token rfl (.single rfl), by simp⟩
  | case2 value keyword more ih =>
      obtain ⟨front, rfl, houtline, hfree⟩ := ih h
      exact ⟨.symbol "." :: .word value keyword :: front, rfl, .token rfl (.token rfl houtline),
        by simpa using hfree⟩
  | case3 value more ih =>
      obtain ⟨front, rfl, houtline, hfree⟩ := ih h
      exact ⟨.symbol "." :: .string value :: front, rfl, .token rfl (.token rfl houtline),
        by simpa using hfree⟩
  | case4 => exact absurd h (by simp)

def StarredShape (shape : List Token) : Starred → Prop
  | .star => ∃ front, shape = front ++ [.symbol "*"] ∧ .symbol "," ∉ front
  | .value value => Phrase value shape

theorem reads_starred (h : PhrasesAll inner) :
    Reads (fun found shape => StarredShape shape found) (starred inner) := by
  have hvalue : Reads (fun found shape => StarredShape shape found)
      (inner.expr >>= fun value => pure (Starred.value value)) := by
    refine h.expr.bind fun value shape hshape => reads_pure ?_
    rw [List.append_nil]
    exact hshape
  -- a star behind a name and dots is read up to the star
  have hstar : ∀ {first : Token} {tokens rest : List Token}, isBracket first = false →
      first ≠ .symbol "," → qualifiedStar tokens = some rest →
      ReadsAt (fun found shape => StarredShape shape found)
        (set rest >>= fun _ => pure Starred.star) (first :: tokens) := by
    intro first tokens rest hfirst hcomma hrest
    obtain ⟨front, rfl, houtline, hfree⟩ := outline_of_qualifiedStar hrest
    rw [← List.cons_append]
    refine ReadsAt.set (.token hfirst houtline) (reads_pure ?_)
    exact ⟨first :: front, by simp, by simp [hcomma.symm, hfree]⟩
  refine reads_get fun tokens => ?_
  split
  · exact readsAt_behind rfl (reads_pure ⟨[], rfl, by simp⟩)
  · split
    · exact hstar rfl (by simp) ‹_›
    · exact hvalue _
  · split
    · exact hstar rfl (by simp) ‹_›
    · exact hvalue _
  · exact hvalue _

theorem balanced_argument (h : PhrasesAll inner) : Balanced (argument inner) := by
  have hnamed : Balanced (do
      let _ ← identifier
      if !(← symbol? "=>") then expectSymbol ":="
      starred inner) := by
    refine reads_identifier.bind fun _ _ _ => (balanced_symbol? rfl).bind fun _ _ _ => ?_
    exact balanced_when (balanced_expectSymbol rfl) (reads_starred h).balanced
  refine (reads_attempt hnamed).bind fun named _ _ => ?_
  cases named with
  | some value => exact balanced_pure _
  | none => exact (reads_starred h).bind fun _ _ _ => balanced_pure _

theorem reads_nullTreatment? : Reads (fun _ shape => shape = [] ∨ ∃ value spelling value',
    shape = [.word value spelling, .word value' "NULLS"] ∧ spelling ≠ "AS") nullTreatment? := by
  refine reads_oneOf?_bind (fun value spelling hmem => ?_) (reads_pure (.inl rfl))
  refine reads_keyword?_bind (fun value' => reads_pure (.inr ⟨value, spelling, value', rfl, ?_⟩))
    reads_fail
  rintro rfl
  exact absurd hmem (by decide)

/-- An expression if a condition holds, inside brackets. -/
theorem readsUpTo_optional {α : Type} {P : α → List Token → Prop} (h : PhrasesAll inner)
    {closing : String} {condition : Prop} [Decidable condition] {next : List Expr → Parser α}
    (hnext : ∀ values, ReadsUpTo closing P (next values)) :
    ReadsUpTo closing P (if condition then inner.expr >>= fun value => pure [value] >>= next
      else pure [] >>= next) := by
  refine readsUpTo_ite (h.expr.inside fun _ _ _ => ?_) ?_
  · exact (balanced_pure _).inside fun _ _ _ => hnext _
  · exact (balanced_pure _).inside fun _ _ _ => hnext _

theorem readsUpTo_arguments (h : PhrasesAll inner) :
    ReadsUpTo ")" (fun _ shape => shape = []) (arguments inner) := by
  refine readsUpTo_symbol? (reads_pure rfl) ?_
  refine (balanced_keyword? _).inside fun _ _ _ => ?_
  refine readsUpTo_when (balanced_keyword? _) ?_
  refine (balanced_commaSeparated (balanced_argument h)).inside fun _ _ _ => ?_
  refine reads_nullTreatment?.inside fun _ _ _ => (balanced_orderBy? h).inside fun _ _ _ => ?_
  refine (balanced_keyword? _).inside fun _ _ _ => readsUpTo_optional h fun _ => ?_
  refine (balanced_keyword? _).inside fun _ _ _ => readsUpTo_when balanced_constant ?_
  exact readsUpTo_expectSymbol (reads_pure rfl)

theorem balanced_frameBound (h : PhrasesAll inner) : Balanced (frameBound inner) := by
  have hclose : ∀ distance : List Expr, Balanced (do
      let _ ← expectOneOf ["PRECEDING", "FOLLOWING"]
      return distance) :=
    fun _ => (balanced_expectOneOf _).bind fun _ _ _ => balanced_pure _
  refine (balanced_keywords? _ _).bind fun _ _ _ => reads_ite (balanced_pure _) ?_
  refine (balanced_keyword? _).bind fun _ _ _ => reads_ite ?_ (h.expr.bind fun _ _ _ => ?_)
  · exact (balanced_pure _).bind fun _ _ _ => hclose _
  · exact (balanced_pure _).bind fun _ _ _ => hclose _

theorem balanced_windowFrame (h : PhrasesAll inner) : Balanced (windowFrame inner) := by
  refine (balanced_expectOneOf _).bind fun _ _ _ => (balanced_keyword? _).bind fun _ _ _ => ?_
  refine reads_ite ((balanced_frameBound h).bind fun _ _ _ => ?_) (balanced_frameBound h)
  refine (balanced_expectKeyword _).bind fun _ _ _ => ?_
  exact (balanced_frameBound h).bind fun _ _ _ => balanced_pure _

theorem readsUpTo_windowSpecification (h : PhrasesAll inner) :
    ReadsUpTo ")" (fun _ shape => shape = []) (windowSpecification inner) := by
  have hclose : ∀ parts : List Expr, ReadsUpTo ")" (fun _ shape => shape = []) (do
      let order ← orderBy? inner
      if ← symbol? ")" then return parts ++ order
      else
        let frame ← windowFrame inner
        expectSymbol ")"
        return parts ++ order ++ frame) := by
    intro parts
    refine (balanced_orderBy? h).inside fun _ _ _ => readsUpTo_symbol? (reads_pure rfl) ?_
    refine (balanced_windowFrame h).inside fun _ _ _ => ?_
    exact readsUpTo_expectSymbol (reads_pure rfl)
  have hparts : ReadsUpTo ")" (fun _ shape => shape = []) (do
      let parts ←
        if ← keywords? ["PARTITION", "BY"] then commaSeparated inner.expr else pure []
      let order ← orderBy? inner
      if ← symbol? ")" then return parts ++ order
      else
        let frame ← windowFrame inner
        expectSymbol ")"
        return parts ++ order ++ frame) := by
    refine (balanced_keywords? _ _).inside fun _ _ _ => readsUpTo_ite ?_ ?_
    · exact (balanced_commaSeparated h.expr.balanced).inside fun parts _ _ => hclose parts
    · exact (balanced_pure _).inside fun parts _ _ => hclose parts
  intro tokens value rest hrun
  match tokens with
  | .word name spelling :: tokens =>
      -- the name of a window may stand in front
      by_cases hname : (!(["PARTITION", "ORDER", "ROWS", "RANGE", "GROUPS"].contains spelling)) = true
      · replace hrun : (if _ then _ else _ : Parser _) _ = _ := hrun
        rw [if_pos hname] at hrun
        exact hparts.behind rfl hrun
      · replace hrun : (if _ then _ else _ : Parser _) _ = _ := hrun
        rw [if_neg hname] at hrun
        exact hparts _ value rest hrun
  | [] | .number :: _ | .string _ :: _ | .literal :: _ | .parameter :: _ | .symbol _ :: _ =>
      exact hparts _ value rest hrun

/-! ## Calls -/

/-- What may follow the closing parenthesis of a call, in outline. -/
structure CallEnd (shape : List Token) : Prop where
  commaFree : .symbol "," ∉ shape
  unnamed : Unnamed (.symbol ")" :: shape)

theorem callEnd_nil : CallEnd [] :=
  ⟨by simp, unnamed_of_last [] (by simp)⟩

theorem CallEnd.append {shape more : List Token} (h : CallEnd shape)
    (hfree : .symbol "," ∉ more) (hmore : Unnamed more) : CallEnd (shape ++ more) :=
  ⟨by simp [h.commaFree, hfree], hmore.append_left (.symbol ")" :: shape)⟩

theorem CallEnd.closed {shape : List Token} (h : CallEnd shape) (more : List Token)
    (hfree : .symbol "," ∉ more) : CallEnd (shape ++ (more ++ [.symbol ")"])) :=
  h.append (by simp [hfree]) (unnamed_of_last _ (by simp))

theorem unnamed_nulls {value spelling value' : String} (h : spelling ≠ "AS") :
    Unnamed [.word value spelling, .word value' "NULLS"] := by
  refine unnamed_of (fun front => Bool.eq_false_iff.2 fun hpath => ?_) fun front => ?_
  · cases eq_dot_of_isPath hpath
  · have hends : "NULLS" ∈ endWords := by decide
    simp [endsInAlias, Token.isKeyword, h, hends]

/-- The end of a call: the treatment of nulls and the window. -/
theorem reads_window (h : PhrasesAll inner) {shape : List Token} (hshape : CallEnd shape)
    (finish : List Expr → Expr) (hfinish : ∀ window, (finish window).name? = none) :
    Reads (fun result more => result.name? = none ∧ CallEnd (shape ++ more)) (do
      nullTreatment?
      let window ←
        if ← keyword? "OVER" then
          if ← symbol? "(" then windowSpecification inner
          else
            let _ ← identifier
            pure []
        else pure []
      return finish window) := by
  refine reads_nullTreatment?.bind fun _ nulls hnulls => ?_
  have hnulls : CallEnd (shape ++ nulls) := by
    rcases hnulls with rfl | ⟨value, spelling, value', rfl, hspelling⟩
    · simpa using hshape
    · exact hshape.append (by simp) (unnamed_nulls hspelling)
  simp only [← List.append_assoc, pure_bind]
  refine reads_keyword?_bind (fun value => ?_) (reads_pure ⟨hfinish _, by simpa using hnulls⟩)
  refine reads_symbol?_opening .round ?_ (reads_identifier.bind fun name _ hname => ?_)
  -- a window in parentheses is closed by them, one with a name ends in it behind `OVER`
  · refine (readsUpTo_windowSpecification h).bind fun window more hmore => reads_pure ?_
    rw [hmore]
    exact ⟨hfinish _, hnulls.closed [.word value "OVER"] (by simp)⟩
  · obtain ⟨token, rfl, htoken⟩ := hname
    have hpath := pathShape_name htoken
    have hover : Unnamed [.word value "OVER", token] := hpath.unnamed_behind rfl
    exact reads_pure ⟨hfinish _, hnulls.append (by simpa using hpath.commaFree) hover⟩

/-- The end of a call from the clause `WITHIN GROUP` on. -/
theorem reads_withinGroup (h : PhrasesAll inner) {shape : List Token} (hshape : CallEnd shape)
    (finish : List Expr → List Expr → Expr)
    (hfinish : ∀ within window, (finish within window).name? = none) :
    Reads (fun result more => result.name? = none ∧ CallEnd (shape ++ more)) (do
      let within ←
        if ← keywords? ["WITHIN", "GROUP"] then
          expectSymbol "("
          let order ← orderBy? inner
          expectSymbol ")"
          pure order
        else pure []
      nullTreatment?
      let window ←
        if ← keyword? "OVER" then
          if ← symbol? "(" then windowSpecification inner
          else
            let _ ← identifier
            pure []
        else pure []
      return finish within window) := by
  simp only [pure_bind]
  refine reads_keywords?_bind (fun value value' => ?_) ?_
  -- the clause is closed by its parenthesis, and what ends the call goes on from there
  · have hgroup := hshape.closed [.word value "WITHIN", .word value' "GROUP"] (by simp)
    refine reads_expectSymbol_opening .round ((balanced_orderBy? h).inside fun order _ _ => ?_)
    refine readsUpTo_expectSymbol ((reads_window h hgroup (finish order) (hfinish order)).imp ?_)
    intro result more hmore
    simpa using hmore
  · exact reads_window h hshape (finish []) (hfinish [])

theorem readsUpTo_callTail (h : PhrasesAll inner) (name : List String) :
    ReadsUpTo ")" (fun value shape => value.name? = none ∧ CallEnd shape)
      (callTail inner name) := by
  refine (readsUpTo_arguments h).bind fun first shape hfirst => ?_
  rw [hfirst]
  simp only [pure_bind]
  refine reads_symbol?_opening .round ?_ ?_
  · refine (readsUpTo_arguments h).bind fun second shape hsecond => ?_
    rw [hsecond]
    exact reads_withinGroup h (callEnd_nil.closed [] (by simp))
      (fun within window => .call name (first ++ second ++ within ++ window)) fun _ _ => rfl
  · exact reads_withinGroup h callEnd_nil
      (fun within window => .call name (first ++ [] ++ within ++ window)) fun _ _ => rfl

/-! ## Operands that begin with a keyword -/

/-- Words of an expression up to an operator and its operand. -/
structure OperandEnd (shape : List Token) : Prop where
  commaFree : .symbol "," ∉ shape
  operand : ∃ front operator value phrase, shape = front ++ operator :: phrase ∧
    leadsOperand operator = true ∧ Phrase value phrase

theorem OperandEnd.append_left {shape : List Token} (h : OperandEnd shape) (front : List Token)
    (hfree : .symbol "," ∉ front) : OperandEnd (front ++ shape) := by
  obtain ⟨before, operator, value, phrase, rfl, hoperator, hphrase⟩ := h.operand
  refine ⟨by simpa [hfree] using h.commaFree, front ++ before, operator, value, phrase, ?_, hoperator,
    hphrase⟩
  rw [List.append_assoc]

theorem Phrase.operandEnd {value : Expr} {shape : List Token} (h : Phrase value shape)
    {operator : Token} (hoperator : leadsOperand operator = true) :
    OperandEnd (operator :: shape) := by
  obtain ⟨-, -, -, hcomma⟩ := leadsOperand_iff.1 hoperator
  exact ⟨by simp [hcomma.symm, h.commaFree], [], operator, value, shape, rfl, hoperator, h⟩

theorem reads_caseBranches (h : PhrasesAll inner) (fuel : Nat) :
    Reads (fun _ shape => OperandEnd shape) (caseBranches inner fuel) := by
  induction fuel with
  | zero => exact reads_fail
  | succ fuel ih =>
      refine h.expr.bind fun condition shape hcondition => ?_
      refine reads_expectKeyword_bind fun thenWord => h.expr.bind fun result shape' hresult => ?_
      have hthen : OperandEnd (.word thenWord "THEN" :: shape') := hresult.operandEnd rfl
      refine reads_keyword?_bind (fun whenWord => ih.bind fun more shape'' hmore => ?_) ?_
      · have hfree := hthen.commaFree
        refine reads_pure ?_
        have hall := hmore.append_left (shape ++ (.word thenWord "THEN" :: shape') ++
          [.word whenWord "WHEN"]) (by simpa [hcondition.commaFree] using hfree)
        simpa using hall
      · refine reads_pure ?_
        simpa using hthen.append_left shape hcondition.commaFree

/-- An expression without a name whose first token leads it. -/
theorem phrase_of_unnamed {value : Expr} {first : Token} {shape : List Token} (front : List Token)
    (hname : value.name? = none) (hfirst : first ≠ .symbol ".")
    (hfree : .symbol "," ∉ first :: (front ++ shape)) (h : Unnamed shape) :
    Phrase value (first :: (front ++ shape)) :=
  ⟨hfree, ⟨first, front ++ shape, rfl, hfirst⟩,
    .inr ⟨hname, (h.append_left (first :: front)).carriesName⟩⟩

/-- What follows the operand of a `CASE`. -/
theorem reads_caseEnd (h : PhrasesAll inner) (value : String) {front : List Token}
    (hfront : .symbol "," ∉ front) (operand : List Expr) :
    Reads (fun result more => Phrase result (.word value "CASE" :: (front ++ more))) (do
      let tokens ← get
      let branches ← caseBranches inner (tokens.length + 1)
      if ← keyword? "ELSE" then
        let otherwise ← inner.expr
        expectKeyword "END"
        return .operation .branch (operand ++ branches ++ [otherwise])
      else
        expectKeyword "END"
        return .operation .branch (operand ++ branches ++ [])) := by
  -- `END` stands behind an operand, so it is no name of the whole
  have hend : ∀ {shape : List Token} (values : List Expr), OperandEnd shape →
      Reads (fun result more => Phrase result (.word value "CASE" :: (front ++ (shape ++ more)))) (do
        expectKeyword "END"
        return .operation .branch values) := by
    intro shape values hshape
    obtain ⟨before, operator, operand, phrase, rfl, hoperator, hphrase⟩ := hshape.operand
    refine reads_expectKeyword_bind fun endWord => reads_pure ?_
    have hclosed : Unnamed (operator :: (phrase ++ [.word endWord "END"])) :=
      hphrase.unnamed_closed hoperator (by decide)
    have hcase : Phrase (.operation .branch values) (.word value "CASE" :: ((front ++ before) ++
        operator :: (phrase ++ [.word endWord "END"]))) :=
      phrase_of_unnamed _ rfl (by simp) (by simpa [hfront] using hshape.commaFree) hclosed
    simpa using hcase
  refine reads_get fun tokens => (reads_caseBranches h _ tokens).bind fun branches shape hshape => ?_
  refine reads_keyword?_bind (fun elseWord => h.expr.bind fun otherwise shape' hother => ?_) ?_
  · have helse : OperandEnd (.word elseWord "ELSE" :: shape') := hother.operandEnd rfl
    refine (hend _ (helse.append_left shape hshape.commaFree)).imp fun result more hresult => ?_
    simpa using hresult
  · exact hend _ hshape

theorem reads_caseTail (h : PhrasesAll inner) (value : String) :
    Reads (fun result shape => Phrase result (.word value "CASE" :: shape)) (caseTail inner) := by
  unfold caseTail
  simp only [pure_bind]
  refine reads_keyword?_bind (fun whenWord => ?_) (h.expr.bind fun operand shape hoperand => ?_)
  · have hfree : .symbol "," ∉ [Token.word whenWord "WHEN"] := by simp
    exact reads_caseEnd h value hfree []
  · refine reads_expectKeyword_bind fun whenWord => ?_
    have hfree : .symbol "," ∉ shape ++ [.word whenWord "WHEN"] := by simpa using hoperand.commaFree
    refine (reads_caseEnd h value hfree [operand]).imp fun result more hresult => ?_
    simpa using hresult

def Enclosed (value : Expr) (shape : List Token) : Prop :=
  value.name? = none ∧ shape = [.symbol ")"]

theorem Enclosed.phrase {value : Expr} {shape : List Token} (h : Enclosed value shape)
    {first : Token} (hdot : first ≠ .symbol ".") (hcomma : first ≠ .symbol ",") :
    Phrase value (first :: shape) := by
  obtain ⟨hname, rfl⟩ := h
  exact phrase_of_unnamed [] hname hdot (by simpa using hcomma.symm) (unnamed_of_last [] (by simp))

theorem reads_castTail (h : PhrasesAll inner) : Reads Enclosed (castTail inner) := by
  refine reads_inParentheses (h.expr.bind fun value _ _ => ?_)
  refine (balanced_expectKeyword _).bind fun _ _ _ => reads_dataType.bind fun _ _ _ => ?_
  exact (balanced_keyword? _).bind fun _ _ _ => reads_when balanced_constant (reads_pure rfl)

theorem reads_dateField : Reads (fun _ shape => ∃ token name, shape = [token] ∧
    nameOf? token = some name) dateField := by
  refine reads_next_bind readsUpTo_fail readsUpTo_fail ⟨rfl, rfl⟩ fun token _ => ?_
  cases token with
  | word value spelling => exact reads_pure ⟨_, _, rfl, rfl⟩
  | string value => exact reads_pure ⟨_, _, rfl, rfl⟩
  | _ => exact reads_fail

theorem reads_extractTail (h : PhrasesAll inner) : Reads Enclosed (extractTail inner) := by
  refine reads_inParentheses (reads_dateField.bind fun _ _ _ => ?_)
  refine (balanced_keyword? _).bind fun _ _ _ => reads_when (balanced_expectSymbol rfl) ?_
  exact h.expr.bind fun _ _ _ => reads_pure rfl

theorem reads_roundingTail (h : PhrasesAll inner) : Reads Enclosed (roundingTail inner) := by
  refine reads_inParentheses (h.expr.bind fun value _ _ => (balanced_keyword? _).bind fun _ _ _ => ?_)
  extract_lets finish
  have hfinish : ∀ done, Reads (fun (result : Expr) _ => result.name? = none) (finish done) :=
    fun _ => reads_pure rfl
  refine reads_ite (reads_dateField.bind fun done _ _ => hfinish done) ?_
  refine (balanced_symbol? rfl).bind fun _ _ _ => reads_ite ?_ (hfinish ())
  refine reads_next_bind readsUpTo_fail_bind readsUpTo_fail_bind ⟨rfl, rfl⟩ fun token _ => ?_
  cases token with
  | number => exact hfinish ()
  | _ => exact reads_fail_bind

theorem reads_positionTail (h : PhrasesAll inner) : Reads Enclosed (positionTail inner) := by
  refine reads_inParentheses ((h.binding _).bind fun _ _ _ => ?_)
  exact (balanced_expectKeyword _).bind fun _ _ _ => h.expr.bind fun _ _ _ => reads_pure rfl

theorem balanced_partBehind? (h : PhrasesAll inner) (keyword : String) :
    Balanced (partBehind? inner keyword) := by
  have hvalue : Balanced (inner.expr >>= fun value => pure [value]) :=
    h.expr.bind fun _ _ _ => balanced_pure _
  refine (balanced_keyword? _).bind fun _ _ _ => reads_ite hvalue ?_
  exact (balanced_symbol? rfl).bind fun _ _ _ => reads_ite hvalue (balanced_pure _)

theorem reads_substringTail (h : PhrasesAll inner) : Reads Enclosed (substringTail inner) := by
  refine reads_inParentheses (h.expr.bind fun _ _ _ => ?_)
  refine (balanced_partBehind? h _).bind fun _ _ _ => ?_
  exact (balanced_partBehind? h _).bind fun _ _ _ => reads_pure rfl

theorem reads_overlayTail (h : PhrasesAll inner) : Reads Enclosed (overlayTail inner) := by
  refine reads_inParentheses (h.expr.bind fun _ _ _ => (balanced_expectKeyword _).bind fun _ _ _ => ?_)
  refine h.expr.bind fun _ _ _ => (balanced_expectKeyword _).bind fun _ _ _ => ?_
  refine h.expr.bind fun _ _ _ => (balanced_keyword? _).bind fun _ _ _ => reads_ite ?_ ?_
  · exact h.expr.bind fun _ _ _ => (balanced_pure _).bind fun _ _ _ => reads_pure rfl
  · exact (balanced_pure _).bind fun _ _ _ => reads_pure rfl

theorem reads_trimTail (h : PhrasesAll inner) : Reads Enclosed (trimTail inner) := by
  refine reads_inParentheses ((balanced_oneOf? _).bind fun _ _ _ => h.expr.bind fun _ _ _ => ?_)
  refine (balanced_keyword? _).bind fun _ _ _ => reads_ite ?_ ?_
  · exact h.expr.bind fun _ _ _ => reads_pure rfl
  · refine (balanced_symbol? rfl).bind fun _ _ _ => reads_ite ?_ (reads_pure rfl)
    exact (balanced_commaSeparated h.expr.balanced).bind fun _ _ _ => reads_pure rfl

theorem reads_existsTail (h : PhrasesAll inner) : Reads Enclosed (existsTail inner) :=
  reads_inParentheses (h.query.bind fun _ _ _ => reads_pure rfl)

theorem readsUpTo_arrayTail (h : PhrasesAll inner) :
    ReadsUpTo "]" (fun value shape => value.name? = none ∧ shape = []) (arrayTail inner) := by
  refine readsUpTo_symbol? (reads_pure ⟨rfl, rfl⟩) ?_
  refine (balanced_commaSeparated h.expr.balanced).inside fun _ _ _ => ?_
  exact readsUpTo_expectSymbol (reads_pure ⟨rfl, rfl⟩)

theorem reads_structTail (h : PhrasesAll inner) : Reads Enclosed (structTail inner) := by
  refine reads_expectSymbol_opening .round (readsUpTo_symbol? (reads_pure ⟨rfl, rfl⟩) ?_)
  refine (balanced_commaSeparated ?_).inside fun _ _ _ =>
    readsUpTo_expectSymbol (reads_pure ⟨rfl, rfl⟩)
  refine h.expr.bind fun _ _ _ => (balanced_keyword? _).bind fun _ _ _ => ?_
  exact balanced_when reads_identifier.balanced (balanced_pure _)

theorem reads_notTail (h : PhrasesAll inner) (value : String) :
    Reads (fun result shape => Phrase result (.word value "NOT" :: shape)) (notTail inner) := by
  refine reads_keyword?_bind (fun existsWord => (reads_existsTail h).imp fun result shape hshape => ?_)
    ((h.binding _).bind fun operand shape hshape => reads_pure ?_)
  · obtain ⟨hname, rfl⟩ := hshape
    exact phrase_of_unnamed [.word existsWord "EXISTS"] hname (by simp) (by simp)
      (unnamed_of_last [] (by simp))
  · rw [List.append_nil]
    have hnot : Unnamed (.word value "NOT" :: shape) := hshape.unnamed_behind rfl
    exact ⟨by simpa using hshape.commaFree, ⟨_, shape, rfl, by simp⟩, .inr ⟨rfl, hnot.carriesName⟩⟩

/-- Arguments in parentheses give no name. -/
theorem Unnamed.arguments {shape arguments : List Token} (h : Unnamed shape)
    (harguments : arguments = [] ∨ arguments = [.symbol ")"]) : Unnamed (shape ++ arguments) := by
  rcases harguments with rfl | rfl
  · rwa [List.append_nil]
  · exact unnamed_of_last shape (by simp)

theorem reads_intervalTail (h : PhrasesAll inner) (value : String) :
    Reads (fun result shape => Phrase result (.word value "INTERVAL" :: shape))
      (intervalTail inner) := by
  refine (h.binding _).bind fun operand shape hshape => ?_
  have hfinish : ∀ {used : List Token}, .symbol "," ∉ used → Unnamed (.word value "INTERVAL" :: used) →
      Reads (fun result more => Phrase result (.word value "INTERVAL" :: (used ++ more)))
        (pure (.operation .interval [operand])) := by
    intro used hfree hunnamed
    refine reads_pure ?_
    rw [List.append_nil]
    exact ⟨by simpa using hfree, ⟨_, used, rfl, by simp⟩, .inr ⟨rfl, hunnamed.carriesName⟩⟩
  have hbare : Unnamed (.word value "INTERVAL" :: shape) := hshape.unnamed_behind rfl
  refine reads_oneOf?_bind (fun unitWord unit hunit => ?_) (hfinish hshape.commaFree hbare)
  -- a unit ends the interval, and arguments or a second unit may follow it
  have hclosed : Unnamed (.word value "INTERVAL" :: (shape ++ [.word unitWord unit])) :=
    hshape.unnamed_closed rfl (List.mem_append_right _ hunit)
  extract_lets finish
  rw [if_pos Option.isSome_some]
  refine reads_optionalTypeArguments.bind fun _ arguments harguments => ?_
  have hfree : .symbol "," ∉ shape ++ [.word unitWord unit] ++ arguments := by
    rcases harguments with rfl | rfl <;> simp [hshape.commaFree]
  have hunit := hclosed.arguments harguments
  refine reads_keyword?_bind (fun toWord => reads_dateField.bind fun _ field hfield => ?_) ?_
  · obtain ⟨token, name, rfl, htoken⟩ := hfield
    have hpath := pathShape_name htoken
    refine reads_optionalTypeArguments.bind fun _ arguments' harguments' => ?_
    have hto : Unnamed [.word toWord "TO", token] := hpath.unnamed_behind rfl
    have hfree' : .symbol "," ∉ shape ++ [.word unitWord unit] ++ arguments ++
        ([.word toWord "TO", token] ++ arguments') := by
      have hcomma : .symbol "," ≠ token := by simpa using hpath.commaFree
      rcases harguments' with rfl | rfl <;> simpa [hcomma] using hfree
    have hall := ((hto.arguments harguments').append_left
      (.word value "INTERVAL" :: (shape ++ [.word unitWord unit] ++ arguments)))
    refine (hfinish hfree' hall).imp fun result more hresult => ?_
    simpa using hresult
  · refine (hfinish hfree (by simpa using hunit)).imp fun result more hresult => ?_
    simpa using hresult

/-- What a keyword with a meaning of its own begins. -/
theorem reads_keywordOperand (h : PhrasesAll inner) (value : String) {spelling : String}
    {parser : Parser Expr} (hparser : keywordOperand inner spelling = some parser) :
    Reads (fun result shape => Phrase result (.word value spelling :: shape)) parser := by
  have henclosed : ∀ {keyword : String} {tail : Parser Expr}, Reads Enclosed tail →
      Reads (fun result shape => Phrase result (.word value keyword :: shape)) tail :=
    fun htail => htail.imp fun _ _ hshape => hshape.phrase (by simp) (by simp)
  have hconstant : ∀ {result : Expr} {keyword : String}, result.name? = none →
      keyword ∈ constantWords → Phrase result [.word value keyword] := by
    intro result keyword hname hmem
    refine ⟨by simp, ⟨_, [], rfl, by simp⟩, .inr ⟨hname, ?_⟩⟩
    simp [carriesName, isConstant, endsInAlias, hmem]
  have htime : spelling ∈ constantWords → Reads (fun result shape =>
      Phrase result (.word value spelling :: shape)) (do
      if ← symbol? "(" then return Expr.call [spelling] (← arguments inner)
      else return Expr.call [spelling] []) := by
    intro hword
    refine reads_symbol?_opening .round ?_ (reads_pure (hconstant rfl hword))
    refine (readsUpTo_arguments h).bind fun values shape hshape => reads_pure ?_
    rw [hshape]
    exact Enclosed.phrase ⟨rfl, rfl⟩ (by simp) (by simp)
  have harray : Reads (fun result shape => Phrase result (.word value "ARRAY" :: shape)) (do
      if ← symbol? "[" then arrayTail inner
      else inParentheses do return Expr.query .array [] (← inner.query)) := by
    refine reads_symbol?_opening .square ((readsUpTo_arrayTail h).imp fun result shape hshape => ?_) ?_
    · obtain ⟨hname, rfl⟩ := hshape
      exact phrase_of_unnamed [] hname (by simp) (by simp) (unnamed_of_last [] (by simp))
    · exact henclosed (reads_inParentheses (h.query.bind fun _ _ _ => reads_pure rfl))
  unfold keywordOperand at hparser
  -- one case per keyword; the last one, of all other words, has no parser
  split at hparser
  all_goals cases hparser
  iterate 7 exact reads_pure (hconstant rfl (by decide))
  iterate 5 exact htime (by decide)
  · exact reads_caseTail h value
  iterate 3 exact henclosed (reads_castTail h)
  · exact henclosed (reads_existsTail h)
  · exact henclosed (reads_extractTail h)
  iterate 2 exact henclosed (reads_roundingTail h)
  · exact henclosed (reads_positionTail h)
  · exact henclosed (reads_substringTail h)
  · exact henclosed (reads_overlayTail h)
  · exact henclosed (reads_trimTail h)
  · exact reads_intervalTail h value
  · exact harray
  · exact henclosed (reads_structTail h)
  · exact reads_notTail h value

/-! ## Operands -/

theorem reads_moreNames (fuel : Nat) : Reads (fun names shape => (names = [] ∧ shape = []) ∨
    ∃ last rest, names.getLast? = some last ∧ shape = .symbol "." :: rest ∧ Dotted last rest ∧
      .symbol "," ∉ rest) (moreNames fuel) := by
  induction fuel with
  | zero => exact reads_pure (.inl ⟨rfl, rfl⟩)
  | succ fuel ih =>
      refine reads_symbol?_bind rfl (reads_identifier.bind fun name shape hname => ?_)
        (reads_pure (.inl ⟨rfl, rfl⟩))
      obtain ⟨token, rfl, htoken⟩ := hname
      have hcomma := (pathShape_name htoken).commaFree
      refine ih.bind fun names shape hshape => reads_pure (.inr ?_)
      rcases hshape with ⟨rfl, rfl⟩ | ⟨last, rest, hlast, rfl, hdotted, hfree⟩
      · exact ⟨name, [token], rfl, rfl, ⟨[], token, rfl, htoken, .inl rfl⟩, hcomma⟩
      · refine ⟨last, token :: .symbol "." :: rest, ?_, by simp, hdotted.cons token, ?_⟩
        · rw [List.getLast?_cons, hlast]
          rfl
        · simpa [hfree] using hcomma

theorem reads_named (h : PhrasesAll inner) {token : Token} {first : String}
    (htoken : nameOf? token = some first) :
    Reads (fun result shape => Phrase result (token :: shape)) (named inner first) := by
  have hpath := pathShape_name htoken
  have hdot : token ≠ .symbol "." := by
    rintro rfl
    cases htoken
  refine reads_get fun tokens => (reads_moreNames _ tokens).bind fun more shape hshape => ?_
  have hfree : .symbol "," ∉ token :: shape := by
    rcases hshape with ⟨-, rfl⟩ | ⟨last, rest, -, rfl, -, hfree⟩
    · exact hpath.commaFree
    · simpa [hfree] using hpath.commaFree
  refine reads_symbol?_opening .round ((readsUpTo_callTail h _).imp fun result tail htail => ?_)
    (reads_pure ?_)
  -- a call has no name, as it ends in its parenthesis or in what follows that
  · obtain ⟨hname, htail⟩ := htail
    refine phrase_of_unnamed shape hname hdot ?_ htail.unnamed
    have htailFree := htail.commaFree
    simp only [List.mem_cons, List.mem_append, not_or] at hfree ⊢
    exact ⟨hfree.1, hfree.2, by simp, htailFree⟩
  · rw [List.append_nil]
    refine ⟨hfree, ⟨token, shape, rfl, hdot⟩, .inl ?_⟩
    rcases hshape with ⟨rfl, rfl⟩ | ⟨last, rest, hlast, rfl, hdotted, -⟩
    · exact ⟨first, rfl, [], token, rfl, htoken, .inl rfl⟩
    · refine ⟨last, ?_, hdotted.cons token⟩
      rw [Expr.name?, List.getLast?_cons, hlast]
      rfl

theorem reads_stringLiteral : Reads (fun _ shape => ∃ token, shape = [token] ∧
    (∀ value spelling, token ≠ .word value spelling) ∧ token ≠ .symbol ",") stringLiteral := by
  refine reads_next_bind readsUpTo_fail readsUpTo_fail ⟨rfl, rfl⟩ fun token _ => ?_
  cases token with
  | string value => exact reads_pure ⟨_, rfl, by simp, by simp⟩
  | literal => exact reads_pure ⟨_, rfl, by simp, by simp⟩
  | _ => exact reads_fail

theorem reads_typedLiteral (h : PhrasesAll inner) : Reads Phrase (typedLiteral inner) := by
  refine reads_dataType.bind fun name shape hshape => ?_
  obtain ⟨htype, hinterval⟩ := hshape
  cases name with
  | interval =>
      obtain ⟨value, rfl⟩ := hinterval rfl
      exact reads_intervalTail h value
  | builtin =>
      refine reads_stringLiteral.bind fun _ literal hliteral => reads_pure ?_
      obtain ⟨token, rfl, hword, hcomma⟩ := hliteral
      refine ⟨?_, htype.leads.append _, .inr ⟨rfl, ?_⟩⟩
      · simpa [htype.commaFree] using hcomma.symm
      · exact (unnamed_of_last shape hword).carriesName
  | custom => exact reads_fail

/-- A closing parenthesis, and behind it perhaps a point with a word. -/
theorem readsUpTo_parenthesisEnd (value : Expr) (hvalue : value.name? = none) :
    ReadsUpTo ")" (fun value shape => value.name? = none ∧
      (shape = [] ∨ ∃ word spelling, shape = [.symbol ".", .word word spelling]))
      (do
        expectSymbol ")"
        if ← symbol? "." then
          match ← next with
          | .word _ _ => return Expr.operation .access [value]
          | _ => fail
        else return value) := by
  refine readsUpTo_expectSymbol (reads_symbol?_bind rfl ?_ (reads_pure ⟨hvalue, .inl rfl⟩))
  refine reads_next_bind readsUpTo_fail readsUpTo_fail ⟨rfl, rfl⟩ fun token _ => ?_
  cases token with
  | word word spelling => exact reads_pure ⟨rfl, .inr ⟨word, spelling, rfl⟩⟩
  | _ => exact reads_fail

/-- What follows an opening parenthesis: at the end there may be a field. -/
theorem readsUpTo_parenthesized (h : PhrasesAll inner) :
    ReadsUpTo ")" (fun value shape => value.name? = none ∧
      (shape = [] ∨ ∃ word spelling, shape = [.symbol ".", .word word spelling]))
      (parenthesized inner) := by
  unfold parenthesized
  simp only [pure_bind]
  refine (quiet_peekOneOf _).inside fun isQuery => readsUpTo_ite ?_ ?_
  · exact h.query.inside fun query _ _ => readsUpTo_parenthesisEnd _ rfl
  · refine (balanced_commaSeparated h.expr.balanced).inside fun values _ _ => ?_
    split <;> exact readsUpTo_parenthesisEnd _ rfl

theorem reads_wordOperand (h : PhrasesAll inner) (value spelling : String) :
    Reads (fun result shape => Phrase result (.word value spelling :: shape))
      (wordOperand inner value spelling) := by
  have hname : nameOf? (.word value spelling) = some value := rfl
  intro tokens result rest hrun
  unfold wordOperand at hrun
  split at hrun
  · exact reads_named h hname tokens result rest hrun
  · rename_i parser hparser
    split at hrun
    · rename_i found hfound
      obtain rfl := Except.ok.inj hrun
      exact reads_keywordOperand h value hparser tokens result rest hfound
    · -- the keyword has failed, so the word was read as a name if at all
      split at hrun
      · exact absurd hrun (by simp)
      · split at hrun
        · rename_i found hfound
          obtain rfl := Except.ok.inj hrun
          exact reads_named h hname tokens result rest hfound
        · exact absurd hrun (by simp)

/-- A token that is no word and no comma is a phrase of its own. -/
theorem phrase_literal {token : Token} (hword : ∀ value spelling, token ≠ .word value spelling)
    (hsymbol : ∀ text, token ≠ .symbol text) : Phrase .literal [token] :=
  ⟨by simpa using (hsymbol ",").symm, ⟨token, [], rfl, hsymbol "."⟩,
    .inr ⟨rfl, (unnamed_of_last [] hword).carriesName⟩⟩

/-- An operator and its operand, at the start of an expression. -/
theorem Phrase.prefixed {value result : Expr} {shape : List Token} {operator : Token}
    (h : Phrase value shape) (hoperator : leadsOperand operator = true)
    (hname : result.name? = none) : Phrase result (operator :: shape) := by
  obtain ⟨-, -, hdot, hcomma⟩ := leadsOperand_iff.1 hoperator
  exact ⟨by simp [hcomma.symm, h.commaFree], ⟨operator, shape, rfl, hdot⟩,
    .inr ⟨hname, (h.unnamed_behind hoperator).carriesName⟩⟩

theorem reads_plainOperand (h : PhrasesAll inner) : Reads Phrase (plainOperand inner) := by
  have hsign : ∀ sign, leadsOperand (.symbol sign) = true →
      Reads (fun result shape => Phrase result (.symbol sign :: shape)) (do
        return Expr.operation (.unary sign) [← inner.binding signPrecedence]) := by
    intro sign hleads
    refine (h.binding _).bind fun value shape hshape => reads_pure ?_
    rw [List.append_nil]
    exact hshape.prefixed hleads rfl
  refine (reads_attempt (reads_typedLiteral h)).bind fun typed shape htyped => ?_
  cases typed with
  | some value =>
      obtain ⟨_, hvalue, hshape⟩ | ⟨hnone, -⟩ := htyped
      · obtain rfl := Option.some.inj hvalue
        exact reads_pure (by simpa using hshape)
      · cases hnone
  | none =>
      obtain ⟨_, hvalue, -⟩ | ⟨-, rfl⟩ := htyped
      · cases hvalue
      -- parentheses and brackets are read up to their ends, other tokens are taken by themselves
      refine reads_next_bind ?_ ?_ ⟨rfl, rfl⟩ fun token htoken => ?_
      · refine (readsUpTo_parenthesized h).imp fun value shape hshape => ?_
        obtain ⟨hname, rfl | ⟨word, spelling, rfl⟩⟩ := hshape
        · exact ⟨by simp, ⟨_, [], rfl, by simp⟩, .inr ⟨hname, rfl⟩⟩
        · exact ⟨by simp, ⟨_, _, rfl, by simp⟩, .inr ⟨hname, rfl⟩⟩
      · refine (readsUpTo_arrayTail h).imp fun value shape hshape => ?_
        obtain ⟨hname, rfl⟩ := hshape
        exact ⟨by simp, ⟨_, [], rfl, by simp⟩, .inr ⟨hname, rfl⟩⟩
      · split
        · exact reads_wordOperand h _ _
        iterate 4 exact reads_pure (phrase_literal (by simp) (by simp))
        iterate 2 cases htoken
        iterate 2 exact hsign _ rfl
        · refine reads_next_bind readsUpTo_fail readsUpTo_fail ⟨rfl, rfl⟩ fun name _ => ?_
          split
          · rename_i word spelling _
            have hname : nameOf? (.word word spelling) = some word := rfl
            obtain ⟨_, hphrase⟩ := (pathShape_name hname).phrase
            exact reads_pure (hphrase.prefixed rfl rfl)
          · exact reads_pure ⟨by simp, ⟨_, _, rfl, by simp⟩, .inr ⟨rfl, rfl⟩⟩
          · exact reads_fail
        · exact reads_fail

/-! ## Operators -/

/-- What is read behind an expression, from the operator on, leaves nothing that has a name. -/
structure Tail (result : Expr) (shape : List Token) : Prop where
  unnamedResult : result.name? = none
  commaFree : .symbol "," ∉ shape
  unnamed : Unnamed shape

theorem Phrase.extended {value result : Expr} {shape tail : List Token} (h : Phrase value shape)
    (htail : Tail result tail) : Phrase result (shape ++ tail) :=
  ⟨by simp [h.commaFree, htail.commaFree], h.leads.append tail,
    .inr ⟨htail.unnamedResult, (htail.unnamed.append_left shape).carriesName⟩⟩

theorem reads_operand (h : PhrasesAll inner) : Reads Phrase (operand inner) := by
  refine (reads_plainOperand h).bind fun value shape hshape => ?_
  refine reads_keyword?_bind (fun collateWord => reads_objectName.bind fun _ name hname => ?_)
    (reads_pure (by simpa using hshape))
  refine reads_pure ?_
  rw [List.append_nil]
  exact hshape.extended ⟨rfl, by simpa using hname.commaFree, hname.unnamed_behind rfl⟩

structure Lead (front : List Token) : Prop where
  commaFree : .symbol "," ∉ front
  operator : ∃ before operator, front = before ++ [operator] ∧ leadsOperand operator = true

theorem lead_append {before : List Token} {operator : Token} (hbefore : .symbol "," ∉ before)
    (hoperator : leadsOperand operator = true) : Lead (before ++ [operator]) := by
  obtain ⟨-, -, -, hcomma⟩ := leadsOperand_iff.1 hoperator
  exact ⟨by simpa [hbefore] using hcomma.symm, before, operator, rfl, hoperator⟩

theorem Lead.tail {front : List Token} (h : Lead front) {value result : Expr} {shape : List Token}
    (hphrase : Phrase value shape) (hname : result.name? = none) : Tail result (front ++ shape) := by
  obtain ⟨before, operator, rfl, hoperator⟩ := h.operator
  refine ⟨hname, by simpa [hphrase.commaFree] using h.commaFree, ?_⟩
  rw [List.append_assoc, List.singleton_append]
  exact (hphrase.unnamed_behind hoperator).append_left before

/-- A tail that ends in a token which is no word. -/
theorem tail_closed {result : Expr} {front : List Token} {token : Token}
    (hname : result.name? = none) (hfront : .symbol "," ∉ front)
    (hword : ∀ value spelling, token ≠ .word value spelling) (hcomma : token ≠ .symbol ",") :
    Tail result (front ++ [token]) :=
  ⟨hname, by simpa [hfront] using hcomma.symm, unnamed_of_last front hword⟩

theorem reads_lastOperand (h : PhrasesAll inner) {front : List Token} (hfront : Lead front)
    (precedence : Nat) {finish : Expr → Expr} (hfinish : ∀ operand, (finish operand).name? = none) :
    Reads (fun result more => Tail result (front ++ more))
      (inner.binding precedence >>= fun operand => pure (finish operand)) := by
  refine (h.binding precedence).bind fun operand shape hshape => reads_pure ?_
  rw [List.append_nil]
  exact hfront.tail hshape (hfinish operand)

theorem reads_inTail (h : PhrasesAll inner) (value : Expr) : Reads Enclosed (inTail inner value) := by
  refine reads_inParentheses ((quiet_peekOneOf _).bind fun _ => reads_ite ?_ ?_)
  · exact h.query.bind fun _ _ _ => reads_pure rfl
  · exact (balanced_commaSeparated h.expr.balanced).bind fun _ _ _ => reads_pure rfl

theorem reads_betweenTail (h : PhrasesAll inner) (value : Expr) {front : List Token}
    (hfront : .symbol "," ∉ front) :
    Reads (fun result more => Tail result (front ++ more)) (betweenTail inner value) := by
  refine (h.binding _).bind fun low shape hlow => reads_expectKeyword_bind fun andWord => ?_
  have hand : Lead (front ++ shape ++ [.word andWord "AND"]) :=
    lead_append (by simp [hfront, hlow.commaFree]) rfl
  refine (reads_lastOperand h hand _ fun _ => rfl).imp fun result more hresult => ?_
  simpa using hresult

theorem reads_likeTail (h : PhrasesAll inner) (value : Expr) {front : List Token}
    (hfront : Lead front) :
    Reads (fun result more => Tail result (front ++ more)) (likeTail inner value) := by
  -- the pattern stands behind the operator or behind `ANY`
  have hpattern : ∀ {front : List Token}, Lead front →
      Reads (fun result more => Tail result (front ++ more)) (do
        let pattern ← inner.binding likePrecedence
        if ← keyword? "ESCAPE" then stringLiteral
        return Expr.operation .like [value, pattern]) := by
    intro front hfront
    refine (h.binding _).bind fun pattern shape hshape => reads_keyword?_bind (fun escapeWord => ?_)
      (reads_pure ?_)
    · refine reads_stringLiteral.bind fun _ literal hliteral => reads_pure ?_
      obtain ⟨token, rfl, hword, hcomma⟩ := hliteral
      have htail : Tail (.operation .like [value, pattern])
          ((front ++ shape ++ [.word escapeWord "ESCAPE"]) ++ [token]) :=
        tail_closed rfl (by simp [hfront.commaFree, hshape.commaFree]) hword hcomma
      simpa using htail
    · rw [List.append_nil]
      exact hfront.tail hshape rfl
  refine reads_keyword?_bind (fun anyWord => ?_) (hpattern hfront)
  have hany : Lead (front ++ [.word anyWord "ANY"]) := lead_append hfront.commaFree rfl
  refine (hpattern hany).imp fun result more hresult => ?_
  simpa using hresult

theorem reads_isTail (h : PhrasesAll inner) (value : Expr) (word : String) :
    Reads (fun result more => Tail result (.word word "IS" :: more)) (isTail inner value) := by
  -- what is tested stands behind `IS` or behind `IS NOT`
  have htest : ∀ {front : List Token}, Lead front →
      Reads (fun result more => Tail result (front ++ more)) (do
        if (← oneOf? ["NULL", "TRUE", "FALSE", "UNKNOWN"]).isSome then
          return Expr.operation .isTest [value]
        else if ← keywords? ["DISTINCT", "FROM"] then
          return Expr.operation .isDistinct [value, ← inner.expr]
        else fail) := by
    intro front hfront
    refine reads_oneOf?_bind (fun constantWord spelling _ => reads_pure ?_)
      (reads_keywords?_bind (fun distinctWord fromWord => ?_) reads_fail)
    · have hname : nameOf? (.word constantWord spelling) = some constantWord := rfl
      obtain ⟨_, hphrase⟩ := (pathShape_name hname).phrase
      exact hfront.tail hphrase rfl
    · have hfrom : Lead (front ++ [.word distinctWord "DISTINCT"] ++ [.word fromWord "FROM"]) :=
        lead_append (by simpa using hfront.commaFree) rfl
      refine (reads_lastOperand h hfrom _ fun _ => rfl).imp fun result more hresult => ?_
      simpa using hresult
  have his : Lead ([] ++ [.word word "IS"]) := lead_append (by simp) rfl
  refine reads_keyword?_bind (fun notWord => ?_) (htest his)
  have hnot : Lead ([.word word "IS"] ++ [.word notWord "NOT"]) := lead_append (by simp) rfl
  exact htest hnot

/-- What is read of a test, from its keyword on: the keyword stands first or behind `NOT`. -/
theorem reads_predicateKeyword (h : PhrasesAll inner) (value : Expr) {front : List Token}
    (hfront : .symbol "," ∉ front) :
    Reads (fun result more => Tail result (front ++ more)) (do
      match ← oneOf? ["IN", "BETWEEN", "LIKE", "ILIKE", "SIMILAR", "REGEXP", "RLIKE"] with
      | some "IN" => inTail inner value
      | some "BETWEEN" => betweenTail inner value
      | some "SIMILAR" =>
        expectKeyword "TO"
        likeTail inner value
      | some "REGEXP" => return .operation .like [value, ← inner.binding likePrecedence]
      | some "RLIKE" => return .operation .like [value, ← inner.binding likePrecedence]
      | some _ => likeTail inner value
      | none => fail) := by
  refine reads_oneOf?_bind (fun word spelling hmem => ?_) reads_fail
  have hfree : .symbol "," ∉ front ++ [.word word spelling] := by simpa using hfront
  have hlead : leadsOperand (.word word spelling) = true → Lead (front ++ [.word word spelling]) :=
    lead_append hfront
  have happend : ∀ {parser : Parser Expr},
      Reads (fun result more => Tail result (front ++ [.word word spelling] ++ more)) parser →
      Reads (fun result more => Tail result (front ++ .word word spelling :: more)) parser :=
    fun hparser => hparser.imp fun result more hresult => by simpa using hresult
  have hpattern : Lead (front ++ [.word word spelling]) →
      Reads (fun result more => Tail result (front ++ .word word spelling :: more)) (do
        return Expr.operation .like [value, ← inner.binding likePrecedence]) :=
    fun hword => happend (reads_lastOperand h hword _ fun _ => rfl)
  simp only [List.mem_cons, List.not_mem_nil, or_false] at hmem
  -- only `IN` ends in a parenthesis, all others in an operand
  rcases hmem with rfl | rfl | rfl | rfl | rfl | rfl | rfl
  · refine happend ((reads_inTail h value).imp fun result more hresult => ?_)
    obtain ⟨hname, rfl⟩ := hresult
    exact tail_closed hname hfree (by simp) (by simp)
  · exact happend (reads_betweenTail h value hfree)
  · exact happend (reads_likeTail h value (hlead rfl))
  · exact happend (reads_likeTail h value (hlead rfl))
  · refine reads_expectKeyword_bind fun toWord => ?_
    have hto : Lead (front ++ [.word word "SIMILAR"] ++ [.word toWord "TO"]) := lead_append hfree rfl
    refine (reads_likeTail h value hto).imp fun result more hresult => ?_
    simpa using hresult
  · exact hpattern (hlead rfl)
  · exact hpattern (hlead rfl)

theorem reads_predicateTail (h : PhrasesAll inner) (value : Expr) :
    Reads Tail (predicateTail inner value) := by
  have hnothing : .symbol "," ∉ ([] : List Token) := by simp
  refine reads_keyword?_bind (fun notWord => ?_) (reads_predicateKeyword h value hnothing)
  have hnot : .symbol "," ∉ [Token.word notWord "NOT"] := by simp
  exact reads_predicateKeyword h value hnot

theorem reads_binaryTail (h : PhrasesAll inner) (value : Expr) (symbol : String) (precedence : Nat)
    {operator : Token} (hoperator : leadsOperand operator = true) :
    Reads (fun result more => Tail result (operator :: more))
      (binaryTail inner value symbol precedence) := by
  have hright : ∀ (kind : Operator) {front : List Token}, Lead front →
      Reads (fun result more => Tail result (front ++ more)) (do
        return Expr.operation kind [value, ← inner.binding precedence]) :=
    fun _ _ hfront => reads_lastOperand h hfront precedence fun _ => rfl
  have hlead : Lead ([] ++ [operator]) := lead_append (by simp) hoperator
  refine reads_oneOf?_bind (fun word spelling hmem => ?_) (hright _ hlead)
  have hquantified : Lead ([operator] ++ [.word word spelling]) := by
    refine lead_append hlead.commaFree ?_
    simp only [List.mem_cons, List.not_mem_nil, or_false] at hmem
    rcases hmem with rfl | rfl | rfl <;> rfl
  refine reads_ite reads_fail_bind (reads_get fun tokens => ?_)
  intro result rest hrun
  obtain ⟨_, inside, hopening, hinside⟩ := bind_eq_ok_iff.1 hrun
  obtain ⟨isQuery, inside', hpeek, hbranch⟩ := bind_eq_ok_iff.1 hinside
  obtain rfl := quiet_peekOneOf _ _ _ _ hpeek
  cases isQuery with
  | true =>
      -- before a query the parser goes back to the parenthesis
      exact hright _ hquantified tokens result rest hbranch
  | false =>
      have hclosed : ReadsUpTo ")" (fun result more => Tail result
          ([operator] ++ [.word word spelling] ++ .symbol ")" :: more)) (do
            let right ← inner.binding precedence
            expectSymbol ")"
            return Expr.operation (.quantified symbol) [value, right]) := by
        refine (h.binding _).inside fun right _ _ => readsUpTo_expectSymbol (reads_pure ?_)
        exact tail_closed rfl hquantified.commaFree (by simp) (by simp)
      rw [if_neg Bool.false_ne_true] at hbranch
      rw [of_expectSymbol_eq_ok hopening]
      exact reads_of_opening (P := fun result more => Tail result
        ([operator] ++ [.word word spelling] ++ more)) .round hclosed hbranch

theorem readsUpTo_subscriptTail (h : PhrasesAll inner) (value : Expr) :
    ReadsUpTo "]" (fun result shape => result.name? = none ∧ shape = [])
      (subscriptTail inner value) := by
  have hupper : ∀ before : List Expr, ReadsUpTo "]"
      (fun result shape => result.name? = none ∧ shape = []) (do
        let upper ← inner.expr
        expectSymbol "]"
        return Expr.operation .subscript (before ++ [upper])) :=
    fun before => h.expr.inside fun _ _ _ => readsUpTo_expectSymbol (reads_pure ⟨rfl, rfl⟩)
  refine (balanced_symbol? rfl).inside fun _ _ _ => readsUpTo_ite ?_ (h.expr.inside fun lower _ _ => ?_)
  · exact readsUpTo_symbol? (reads_pure ⟨rfl, rfl⟩) (hupper [value])
  · refine (balanced_symbol? rfl).inside fun _ _ _ => readsUpTo_ite ?_ ?_
    · exact readsUpTo_symbol? (reads_pure ⟨rfl, rfl⟩) (hupper [value, lower])
    · exact readsUpTo_expectSymbol (reads_pure ⟨rfl, rfl⟩)

/-- An operator between two expressions needs the second one. -/
theorem leadsOperand_of_mem_binarySymbols : ∀ text ∈ binarySymbols,
    isBracket (.symbol text) = false ∧ leadsOperand (.symbol text) = true := by
  decide

theorem leadsOperand_of_mem_connectives (word : String) {spelling : String}
    (h : spelling ∈ ["AND", "OR", "XOR"]) : leadsOperand (.word word spelling) = true := by
  simp only [List.mem_cons, List.not_mem_nil, or_false] at h
  rcases h with rfl | rfl | rfl <;> rfl

theorem reads_extend (h : PhrasesAll inner) (value : Expr) (precedence : Nat) :
    Reads Tail (extend inner value precedence) := by
  refine reads_get fun tokens => ?_
  -- a cast, a subscript, an operator, `IS`, `AT TIME ZONE`, and a word or a test
  split
  · refine readsAt_behind rfl (reads_dataType.bind fun _ shape hshape => reads_pure ?_)
    rw [List.append_nil]
    exact ⟨rfl, by simpa using hshape.1.commaFree, hshape.1.unnamed⟩
  · refine readsAt_opening .square ((readsUpTo_subscriptTail h value).imp fun result shape hshape => ?_)
    obtain ⟨hname, rfl⟩ := hshape
    exact ⟨hname, by simp, unnamed_of_last [] (by simp)⟩
  · rename_i text rest _ _
    refine readsAt_ite (fun hmem => ?_) fun _ => reads_fail _
    obtain ⟨hplain, htext⟩ :=
      leadsOperand_of_mem_binarySymbols text (List.contains_iff_mem.1 hmem)
    exact readsAt_behind hplain (reads_binaryTail h value text precedence htext)
  · exact readsAt_behind rfl (reads_isTail h value _)
  · refine readsAt_behind rfl (reads_expectKeyword_bind fun timeWord => ?_)
    refine reads_expectKeyword_bind fun zoneWord => ?_
    rename_i atWord rest
    have hzone : Lead ([.word atWord "AT", .word timeWord "TIME"] ++ [.word zoneWord "ZONE"]) :=
      lead_append (by simp) rfl
    exact reads_lastOperand h hzone precedence fun _ => rfl
  · refine readsAt_ite (fun hmem => ?_) fun _ => reads_predicateTail h value _
    rename_i word spelling rest _ _
    have hword := leadsOperand_of_mem_connectives word (List.contains_iff_mem.1 hmem)
    exact readsAt_behind rfl (reads_binaryTail h value spelling precedence hword)
  · exact reads_fail _

theorem reads_extendWhile (h : PhrasesAll inner) (precedence fuel : Nat) {value : Expr}
    {shape : List Token} (hshape : Phrase value shape) :
    Reads (fun result more => Phrase result (shape ++ more))
      (extendWhile inner precedence fuel value) := by
  induction fuel generalizing value shape with
  | zero => exact reads_pure (by simpa using hshape)
  | succ fuel ih =>
      refine reads_get fun tokens => readsAt_ite (fun _ => ?_) fun _ =>
        reads_pure (by simpa using hshape) tokens
      refine (reads_extend h value _ tokens).bind fun longer tail htail => ?_
      refine (ih (hshape.extended htail)).imp fun result more hresult => ?_
      simpa using hresult

/-- **An expression is read from a phrase.** -/
theorem reads_expression (h : PhrasesAll inner) (precedence : Nat) :
    Reads Phrase (expression inner precedence) :=
  (reads_operand h).bind fun _ _ hfirst => reads_get fun tokens =>
    reads_extendWhile h _ _ hfirst tokens

end RepoPolicy.Sql.Grammar
