import RepoPolicy.Proofs.Sql.Grammar.Outline

set_option autoImplicit false

/-! # Phrases and their names

An item of a select list shows in its tokens that it has a name: it is a reference to a column, or
it ends in an alias (`carriesName`). What an expression without a name is read from does not look
so, and what a reference to a column is read from ends in its name (`Phrase`). Both are said of
outlines, since what stands in brackets at the end of an expression gives it no name. -/

namespace RepoPolicy.Sql

/-- The name of an expression that is a reference to a column: the last one of its path. -/
def Expr.name? : Expr → Option String
  | .column path => path.getLast?
  | _ => none

/-- The name of an item of a select list: its alias or else that of its column. -/
def SelectItem.name? : SelectItem → Option String
  | .wildcard => none
  | .expression value given => given.or value.name?

end RepoPolicy.Sql

namespace RepoPolicy.Sql.Grammar

/-! ## Names that can be seen -/

/-- Words that an operand or a name follows. -/
def operandWords : List String :=
  ["ALL", "AND", "ANY", "AS", "BETWEEN", "CASE", "COLLATE", "ELSE", "EXCEPT", "EXCLUDE", "FROM",
    "ILIKE", "IN", "INTERVAL", "IS", "LIKE", "NOT", "OR", "OVER", "REGEXP", "RLIKE", "SOME", "THEN",
    "TO", "WHEN", "XOR", "ZONE"]

/-- Words that end an expression and so are no alias of it. -/
def endWords : List String :=
  ["END", "NULLS", "OBJECT", "PRECISION", "UNSIGNED", "VARYING", "ZONE"] ++ timeUnits

/-- Words that are a value on their own. -/
def constantWords : List String :=
  ["TRUE", "FALSE", "NULL", "CURRENT_CATALOG", "CURRENT_USER", "SESSION_USER", "USER",
    "CURRENT_TIMESTAMP", "CURRENT_TIME", "CURRENT_DATE", "LOCALTIME", "LOCALTIMESTAMP"]

def endsOperand : Token → Bool
  | .word _ spelling => !operandWords.contains spelling
  | .symbol text => text == ")" || text == "]"
  | _ => true

/-- Whether tokens, the last one first, end in an alias: a word behind an operand, with `AS` in
between or without. -/
def endsInAlias : List Token → Bool
  | .word _ spelling :: before :: more =>
    if before.isKeyword "AS" then more.head?.any endsOperand
    else endsOperand before && !endWords.contains spelling
  | _ => false

theorem endsInAlias_word (word spelling : String) (before : Token) (more : List Token) :
    endsInAlias (.word word spelling :: before :: more)
      = if before.isKeyword "AS" then more.head?.any endsOperand
        else endsOperand before && !endWords.contains spelling := rfl

def isPath : List Token → Bool
  | [.word _ _] => true
  | .word _ _ :: .symbol "." :: rest => isPath rest
  | _ => false

def isConstant : List Token → Bool
  | [.word _ spelling] => constantWords.contains spelling
  | _ => false

def carriesName (tokens : List Token) : Bool :=
  isPath tokens && !isConstant tokens || endsInAlias tokens.reverse

/-! ## Ends without a name -/

theorem exists_of_isPath {tokens : List Token} (h : isPath tokens = true) :
    ∃ front value spelling, tokens = front ++ [.word value spelling] := by
  fun_induction isPath tokens with
  | case1 value spelling => exact ⟨[], value, spelling, rfl⟩
  | case2 value spelling rest ih =>
      obtain ⟨front, value', spelling', rfl⟩ := ih h
      exact ⟨.word value spelling :: .symbol "." :: front, value', spelling', rfl⟩
  | case3 => exact absurd h (by simp)

theorem mem_of_isPath {tokens : List Token} (h : isPath tokens = true) {token : Token}
    (hmem : token ∈ tokens) : (∃ value spelling, token = .word value spelling) ∨
      token = .symbol "." := by
  fun_induction isPath tokens with
  | case1 value spelling => exact .inl ⟨value, spelling, by simpa using hmem⟩
  | case2 value spelling rest ih =>
      simp only [List.mem_cons] at hmem
      rcases hmem with rfl | rfl | hmem
      · exact .inl ⟨value, spelling, rfl⟩
      · exact .inr rfl
      · exact ih h hmem
  | case3 => exact absurd h (by simp)

theorem eq_dot_of_isPath {value spelling : String} {following : Token} {rest : List Token} :
    ∀ {front : List Token}, isPath (front ++ .word value spelling :: following :: rest) = true →
      following = .symbol "."
  -- words and dots take turns, so the front is taken off two tokens at a time
  | [], h => by
      rw [List.nil_append] at h
      unfold isPath at h
      split at h
      · rename_i heq
        cases heq
      · rename_i heq
        cases heq
        rfl
      · cases h
  | [token], h => by
      rw [List.singleton_append] at h
      unfold isPath at h
      split at h
      · rename_i heq
        cases heq
      · rename_i heq
        cases heq
      · cases h
  | token :: token' :: front, h => by
      rw [List.cons_append, List.cons_append] at h
      unfold isPath at h
      split at h
      · rename_i heq
        cases front <;> cases heq
      · rename_i heq
        cases heq
        exact eq_dot_of_isPath h
      · cases h

/-- Whatever stands before them, tokens with this end carry no name. -/
def Unnamed (shape : List Token) : Prop := ∀ front, carriesName (front ++ shape) = false

theorem Unnamed.append_left {shape : List Token} (h : Unnamed shape) (front : List Token) :
    Unnamed (front ++ shape) := by
  intro more
  rw [← List.append_assoc]
  exact h (more ++ front)

theorem Unnamed.carriesName {shape : List Token} (h : Unnamed shape) :
    carriesName shape = false := h []

theorem unnamed_of {shape : List Token} (hpath : ∀ front, isPath (front ++ shape) = false)
    (halias : ∀ front, endsInAlias (shape.reverse ++ front) = false) : Unnamed shape := by
  intro front
  rw [Grammar.carriesName, hpath, List.reverse_append, halias]
  rfl

/-- Tokens that end in no word carry no name. -/
theorem unnamed_of_last (front : List Token) {token : Token}
    (h : ∀ value spelling, token ≠ .word value spelling) : Unnamed (front ++ [token]) := by
  refine Unnamed.append_left (unnamed_of (fun more => Bool.eq_false_iff.2 fun hpath => ?_) ?_) front
  · obtain ⟨_, value, spelling, heq⟩ := exists_of_isPath hpath
    exact h value spelling (List.append_inj_right' heq rfl |> List.singleton_inj.1)
  · intro more
    cases token with
    | word value spelling => exact absurd rfl (h value spelling)
    | _ => rfl

/-! ## Phrases -/

/-- An operand follows this token: it is an operator, or another word or symbol that needs one. -/
def leadsOperand (token : Token) : Bool :=
  !endsOperand token && !token.isKeyword "AS" && token != .symbol "." && token != .symbol ","

/-- What an expression is read from, in outline. -/
structure Phrase (value : Expr) (shape : List Token) : Prop where
  commaFree : .symbol "," ∉ shape
  leads : Leads shape
  spelled : (∃ name, value.name? = some name ∧ Dotted name shape) ∨
    (value.name? = none ∧ carriesName shape = false)

section Phrase

variable {value : Expr} {shape : List Token} {operator : Token}

theorem leadsOperand_iff : leadsOperand operator = true ↔ endsOperand operator = false ∧
    operator.isKeyword "AS" = false ∧ operator ≠ .symbol "." ∧ operator ≠ .symbol "," := by
  simp [leadsOperand, and_assoc]

/-- Behind an operator there is no path that begins before it. -/
theorem isPath_behind (hoperator : leadsOperand operator = true) (hleads : Leads shape)
    (front : List Token) : isPath (front ++ operator :: shape) = false := by
  obtain ⟨-, -, hdot, -⟩ := leadsOperand_iff.1 hoperator
  obtain ⟨first, rest, rfl, hfirst⟩ := hleads
  refine Bool.eq_false_iff.2 fun hpath => ?_
  have hmem : operator ∈ front ++ operator :: first :: rest := by simp
  rcases mem_of_isPath hpath hmem with ⟨word, spelling, rfl⟩ | rfl
  · exact hfirst (eq_dot_of_isPath hpath)
  · exact hdot rfl

theorem endsInAlias_behind {token : Token} {before : List Token}
    (hoperator : leadsOperand operator = true) :
    endsInAlias (token :: operator :: before) = false := by
  obtain ⟨hends, has, -, -⟩ := leadsOperand_iff.1 hoperator
  cases token with
  | word => simp [endsInAlias_word, hends, has]
  | _ => rfl

/-- Only the last three tokens decide whether there is an alias. -/
theorem endsInAlias_append {first second third : Token} {more front : List Token} :
    endsInAlias (first :: second :: third :: more ++ front)
      = endsInAlias (first :: second :: third :: more) := by
  cases first <;> rfl

theorem Dotted.cases {last : String} (h : Dotted last shape) :
    (∃ token, shape = [token]) ∨
      ∃ more token, shape.reverse = token :: .symbol "." :: more := by
  obtain ⟨front, token, rfl, -, rfl | ⟨more, rfl⟩⟩ := h
  · exact .inl ⟨token, rfl⟩
  · exact .inr ⟨more.reverse, token, by simp⟩

/-- **The operand of an operator gives no name to the whole.** -/
theorem Phrase.unnamed_behind (h : Phrase value shape) (hoperator : leadsOperand operator = true) :
    Unnamed (operator :: shape) := by
  refine unnamed_of (isPath_behind hoperator h.leads) fun front => ?_
  rw [List.reverse_cons, List.append_assoc, List.singleton_append]
  rcases h.spelled with ⟨name, -, hdotted⟩ | ⟨-, hnone⟩
  · rcases hdotted.cases with ⟨token, rfl⟩ | ⟨more, token, heq⟩
    · exact endsInAlias_behind hoperator
    · rw [heq]
      cases token with
      | word => rfl
      | _ => rfl
  · have halias : endsInAlias shape.reverse = false := by
      rw [carriesName, Bool.or_eq_false_iff] at hnone
      exact hnone.2
    match hshape : shape.reverse with
    | [] =>
        obtain ⟨first, rest, rfl, -⟩ := h.leads
        simp at hshape
    | [token] => exact endsInAlias_behind hoperator
    | [token, before] =>
        -- `AS` at the front of the operand has the operator before it
        obtain ⟨hends, -, -, -⟩ := leadsOperand_iff.1 hoperator
        rw [hshape] at halias
        cases token with
        | word word spelling =>
            by_cases has : before.isKeyword "AS" = true
            · simp [endsInAlias_word, has, hends]
            · simpa [endsInAlias_word, has] using halias
        | _ => rfl
    | first :: second :: third :: more =>
        rw [hshape] at halias
        rw [endsInAlias_append]
        exact halias

/-- If an expression ends in the word `AS`, no operand ends before that word: it is a name. -/
theorem Phrase.before_as (h : Phrase value shape) {last before : Token} {more : List Token}
    (hshape : shape.reverse = last :: before :: more) (hlast : last.isKeyword "AS" = true) :
    endsOperand before = false := by
  rcases h.spelled with ⟨name, -, hdotted⟩ | ⟨-, hnone⟩
  · rcases hdotted.cases with ⟨token, rfl⟩ | ⟨more', token, heq⟩
    · cases hshape
    · rw [heq] at hshape
      cases hshape
      decide
  · rw [carriesName, Bool.or_eq_false_iff, hshape] at hnone
    obtain ⟨word, rfl⟩ := eq_word_of_isKeyword hlast
    by_cases has : before.isKeyword "AS" = true
    · obtain ⟨word', rfl⟩ := eq_word_of_isKeyword has
      rfl
    · have hends : "AS" ∉ endWords := by decide
      simpa [endsInAlias_word, has, hends] using hnone.2

/-- A word that ends an expression is no name of it. -/
theorem Phrase.unnamed_closed (h : Phrase value shape) (hoperator : leadsOperand operator = true)
    {word spelling : String} (hend : spelling ∈ endWords) :
    Unnamed (operator :: (shape ++ [.word word spelling])) := by
  obtain ⟨first, rest, heq, hfirst⟩ := h.leads
  have hleads : Leads (shape ++ [.word word spelling]) :=
    ⟨first, rest ++ [.word word spelling], by rw [heq, List.cons_append], hfirst⟩
  obtain ⟨hends, -, -, -⟩ := leadsOperand_iff.1 hoperator
  refine unnamed_of (isPath_behind hoperator hleads) fun front => ?_
  rw [List.reverse_cons, List.reverse_append, List.append_assoc, List.append_assoc]
  match hshape : shape.reverse with
  | [] =>
      rw [heq] at hshape
      simp at hshape
  | last :: before =>
      -- the word before may be `AS`, but then it is a name itself and not the start of an alias
      by_cases has : last.isKeyword "AS" = true
      · cases before with
        | nil => simp [endsInAlias_word, has, hends]
        | cons token before => simp [endsInAlias_word, has, h.before_as hshape has]
      · simp [endsInAlias_word, has, hend]

end Phrase

theorem PathShape.phrase {shape : List Token} (h : PathShape shape) :
    ∃ last, Phrase (.column [last]) shape := by
  obtain ⟨last, hdotted⟩ := h.dotted
  exact ⟨last, h.commaFree, h.leads, .inl ⟨last, rfl, hdotted⟩⟩

/-- A name behind an operator is no name of the whole. -/
theorem PathShape.unnamed_behind {shape : List Token} {operator : Token} (h : PathShape shape)
    (hoperator : leadsOperand operator = true) : Unnamed (operator :: shape) := by
  obtain ⟨last, hphrase⟩ := h.phrase
  exact hphrase.unnamed_behind hoperator

theorem pathShape_name {token : Token} {name : String} (h : nameOf? token = some name) :
    PathShape [token] := by
  refine ⟨⟨name, [], token, rfl, h, .inl rfl⟩, ?_, token, [], rfl, ?_⟩
  · simp only [List.mem_singleton]
    rintro rfl
    cases h
  · rintro rfl
    cases h

/-! ## Data types -/

/-- What a data type is read from, in outline: behind `::` it gives no name. -/
structure TypeShape (shape : List Token) : Prop where
  commaFree : .symbol "," ∉ shape
  leads : Leads shape
  noAlias : ∀ front, endsInAlias (shape.reverse ++ .symbol "::" :: front) = false

section TypeShape

variable {shape : List Token}

theorem TypeShape.unnamed (h : TypeShape shape) : Unnamed (.symbol "::" :: shape) := by
  refine unnamed_of (isPath_behind rfl h.leads) fun front => ?_
  rw [List.reverse_cons, List.append_assoc, List.singleton_append]
  exact h.noAlias front

theorem typeShape_word (value spelling : String) : TypeShape [.word value spelling] :=
  ⟨by simp, ⟨_, [], rfl, by simp⟩, fun _ => endsInAlias_behind rfl⟩

theorem PathShape.typeShape (h : PathShape shape) : TypeShape shape := by
  refine ⟨h.commaFree, h.leads, fun front => ?_⟩
  obtain ⟨last, hdotted⟩ := h.dotted
  rcases hdotted.cases with ⟨token, rfl⟩ | ⟨more, token, heq⟩
  · exact endsInAlias_behind rfl
  · rw [heq]
    cases token <;> rfl

theorem Leads.append (h : Leads shape) (more : List Token) : Leads (shape ++ more) := by
  obtain ⟨first, rest, rfl, hfirst⟩ := h
  exact ⟨first, rest ++ more, rfl, hfirst⟩

/-- Brackets behind a type. -/
theorem TypeShape.closed (h : TypeShape shape) {closing : String} (hclosing : closing ≠ ",") :
    TypeShape (shape ++ [.symbol closing]) := by
  refine ⟨?_, h.leads.append _, fun front => ?_⟩
  · simpa [h.commaFree] using hclosing.symm
  · rw [List.reverse_append]
    rfl

/-- A word at the end of a type, behind a word that is not `AS` or behind a bracket. -/
theorem typeShape_endWord {front : List Token} {before : Token}
    (hfree : .symbol "," ∉ front ++ [before]) (hleads : Leads (front ++ [before]))
    (hbefore : before.isKeyword "AS" = false) {value spelling : String}
    (hend : spelling ∈ endWords) : TypeShape (front ++ [before] ++ [.word value spelling]) := by
  refine ⟨by simpa using hfree, hleads.append _, fun more => ?_⟩
  simp [endsInAlias_word, hbefore, hend]

theorem readsUpTo_typeArguments (fuel : Nat) :
    ReadsUpTo ")" (fun _ shape => shape = []) (typeArguments fuel) := by
  induction fuel with
  | zero => exact readsUpTo_fail
  | succ fuel ih =>
      intro tokens value rest hrun
      obtain ⟨token, more, htoken, hmatch⟩ := bind_eq_ok_iff.1 hrun
      rw [of_next_eq_ok htoken]
      split at hmatch
      · obtain ⟨-, rfl⟩ := Prod.mk.inj (Except.ok.inj hmatch)
        exact ⟨[], [], [], [], rfl, .nil, .nil, rfl⟩
      · exact ih.behind rfl hmatch
      · exact ih.behind rfl hmatch
      · exact ih.behind rfl hmatch
      · exact ih.behind rfl hmatch
      · rw [fail_run] at hmatch
        exact absurd hmatch (by simp)

theorem reads_optionalTypeArguments :
    Reads (fun _ shape => shape = [] ∨ shape = [.symbol ")"]) optionalTypeArguments := by
  refine reads_symbol?_opening .round (readsUpTo_get fun tokens => ?_) (reads_pure (.inl rfl))
  refine (readsUpTo_typeArguments _).imp fun _ shape hshape => ?_
  rw [hshape]
  exact .inr rfl

theorem TypeShape.arguments (h : TypeShape shape) {arguments : List Token}
    (harguments : arguments = [] ∨ arguments = [.symbol ")"]) : TypeShape (shape ++ arguments) := by
  rcases harguments with rfl | rfl
  · rwa [List.append_nil]
  · exact h.closed (by decide)

def ElementShape (name : TypeName) (shape : List Token) : Prop :=
  TypeShape shape ∧ (name = .interval → ∃ value, shape = [.word value "INTERVAL"])

theorem reads_typeEnd {name : TypeName} (hname : name ≠ .interval) (h : TypeShape shape) :
    Reads (fun result more => ElementShape result (shape ++ more)) (do
      optionalTypeArguments
      return name) := by
  refine reads_optionalTypeArguments.bind fun _ arguments harguments => reads_pure ?_
  rw [List.append_nil]
  exact ⟨h.arguments harguments, fun heq => absurd heq hname⟩

theorem reads_timeZone? : Reads (fun _ shape => shape = [] ∨ ∃ first value value',
    shape = [first, .word value "TIME", .word value' "ZONE"] ∧ first ≠ .symbol ",") timeZone? := by
  have hzone : ∀ first : Token, first ≠ .symbol "," → Reads (fun _ more => first :: more = [] ∨
      ∃ first' value value', first :: more = [first', .word value "TIME", .word value' "ZONE"] ∧
        first' ≠ .symbol ",") (expectKeyword "TIME" >>= fun _ => expectKeyword "ZONE") := by
    intro first hfirst
    refine reads_expectKeyword_bind fun value => ?_
    refine reads_keyword?_bind (fun value' => reads_pure ?_) reads_fail
    exact .inr ⟨first, value, value', rfl, hfirst⟩
  refine reads_keyword?_bind (fun value => hzone (.word value "WITH") (by simp)) ?_
  exact reads_keyword?_bind (fun value => hzone (.word value "WITHOUT") (by simp))
    (reads_pure (.inl rfl))

theorem typeShape_pair {value spelling value' spelling' : String} (has : spelling ≠ "AS")
    (hend : spelling' ∈ endWords) : TypeShape [.word value spelling, .word value' spelling'] := by
  have hleads : Leads ([] ++ [.word value spelling]) := (typeShape_word value spelling).leads
  exact typeShape_endWord (by simp) hleads (by simpa [Token.isKeyword] using has) hend

theorem typeShape_largeObject (value spelling first second : String) :
    TypeShape [.word value spelling, .word first "LARGE", .word second "OBJECT"] := by
  have hleads : Leads ([.word value spelling] ++ [.word first "LARGE"]) :=
    (typeShape_word value spelling).leads.append _
  exact typeShape_endWord (by simp) hleads rfl (by decide)

/-- A type of which the name may go on with one more word. -/
theorem reads_suffixedType {value spelling suffix : String} (has : spelling ≠ "AS")
    (hsuffix : suffix ∈ endWords) :
    Reads (fun result more => ElementShape result (.word value spelling :: more)) (do
      let _ ← keyword? suffix
      optionalTypeArguments
      return TypeName.builtin) :=
  reads_keyword?_bind (fun _ => reads_typeEnd (by decide) (typeShape_pair has hsuffix))
    (reads_typeEnd (by decide) (typeShape_word value spelling))

theorem reads_timeType (value spelling : String) :
    Reads (fun result more => ElementShape result (.word value spelling :: more)) (do
      optionalTypeArguments
      timeZone?
      return TypeName.builtin) := by
  refine reads_optionalTypeArguments.bind fun _ arguments harguments => ?_
  have htype := (typeShape_word value spelling).arguments harguments
  refine reads_timeZone?.bind fun _ zone hzone => reads_pure ⟨?_, by simp⟩
  rw [List.append_nil]
  rcases hzone with rfl | ⟨first, time, zone, rfl, hfirst⟩
  · rw [List.append_nil]
    exact htype
  -- `WITH TIME ZONE` ends in a word that ends an expression
  · have hfree : .symbol "," ∉ (.word value spelling :: arguments ++ [first]) ++
        [.word time "TIME"] := by
      simpa [hfirst.symm] using htype.commaFree
    have hleads : Leads ((.word value spelling :: arguments ++ [first]) ++
        [.word time "TIME"]) := (htype.leads.append _).append _
    simpa using typeShape_endWord hfree hleads rfl (by decide : "ZONE" ∈ endWords)

/-- A type with the list of its values. -/
theorem reads_enumeratedType (value spelling : String) :
    Reads (fun result more => ElementShape result (.word value spelling :: more)) (do
      expectSymbol "("
      typeArguments ((← get).length + 1)
      return TypeName.builtin) := by
  refine reads_expectSymbol_opening .round (readsUpTo_get fun tokens => ?_)
  refine (readsUpTo_typeArguments _).bind fun _ more hmore => reads_pure ?_
  rw [hmore]
  exact ⟨(typeShape_word value spelling).closed (by decide), by simp⟩

theorem reads_simpleType {value spelling : String} (has : spelling ≠ "AS") :
    Reads (fun result more => ElementShape result (.word value spelling :: more)) (do
      optionalTypeArguments
      let _ ← keyword? "UNSIGNED"
      return TypeName.builtin) := by
  have hword := typeShape_word value spelling
  refine reads_optionalTypeArguments.bind fun _ arguments harguments => ?_
  refine reads_keyword?_bind (fun value' => reads_pure ⟨?_, by simp⟩)
    (reads_pure ⟨?_, by simp⟩)
  · rcases harguments with rfl | rfl
    · exact typeShape_pair has (by decide)
    · have htype := hword.closed (by decide : (")" : String) ≠ ",")
      exact typeShape_endWord htype.commaFree htype.leads rfl (by decide)
  · simpa using hword.arguments harguments

theorem reads_elementType : Reads ElementShape elementType := by
  have hcustom : Reads ElementShape (do
      let _ ← objectName
      optionalTypeArguments
      return TypeName.custom) :=
    reads_objectName.bind fun _ _ hshape => reads_typeEnd (by decide) hshape.typeShape
  refine reads_get fun tokens => ?_
  split
  · rename_i value spelling rest
    by_cases has : spelling = "AS"
    · -- no type is named `AS`, but a custom one may be
      subst has
      iterate 7 rw [if_neg (by decide)]
      exact hcustom _
    refine readsAt_ite (fun hinterval => ?_) fun _ => ?_
    · rw [beq_iff_eq.1 hinterval]
      exact readsAt_behind rfl (reads_pure ⟨typeShape_word _ _, fun _ => ⟨value, rfl⟩⟩)
    refine readsAt_ite (fun _ => readsAt_behind rfl (reads_suffixedType has (by decide))) fun _ => ?_
    refine readsAt_ite (fun _ => readsAt_behind rfl ?_) fun _ => ?_
    · refine reads_keyword?_bind
        (fun _ => reads_typeEnd (by decide) (typeShape_pair has (by decide))) ?_
      exact reads_keywords?_bind
        (fun first second =>
          reads_typeEnd (by decide) (typeShape_largeObject value spelling first second))
        (reads_typeEnd (by decide) (typeShape_word value spelling))
    refine readsAt_ite (fun _ => readsAt_behind rfl (reads_suffixedType has (by decide))) fun _ => ?_
    refine readsAt_ite (fun _ => readsAt_behind rfl (reads_timeType value spelling)) fun _ => ?_
    refine readsAt_ite (fun _ => readsAt_behind rfl (reads_enumeratedType value spelling)) fun _ => ?_
    exact readsAt_ite (fun _ => readsAt_behind rfl (reads_simpleType has)) fun _ => hcustom _
  · exact hcustom _

/-- Brackets behind a type. -/
theorem reads_arrayBrackets (fuel : Nat) : Reads (fun found shape =>
    (found = false ∧ shape = []) ∨ (found = true ∧ ∃ front, shape = front ++ [.symbol "]"] ∧
      .symbol "," ∉ front)) (arrayBrackets fuel) := by
  induction fuel with
  | zero => exact reads_pure (.inl ⟨rfl, rfl⟩)
  | succ fuel ih =>
      refine reads_symbol?_opening .square ?_ (reads_pure (.inl ⟨rfl, rfl⟩))
      -- what is read up to the end is the same with a number and without one
      have hrest : ReadsUpTo "]" (fun found shape =>
          (found = false ∧ .symbol "]" :: shape = []) ∨ (found = true ∧ ∃ front,
            .symbol "]" :: shape = front ++ [.symbol "]"] ∧ .symbol "," ∉ front)) (do
          expectSymbol "]"
          let _ ← arrayBrackets fuel
          return true) := by
        refine readsUpTo_expectSymbol (ih.bind fun found shape hshape => reads_pure ?_)
        rw [List.append_nil]
        rcases hshape with ⟨-, rfl⟩ | ⟨-, front, rfl, hfree⟩
        · exact .inr ⟨rfl, [], rfl, by simp⟩
        · exact .inr ⟨rfl, .symbol "]" :: front, rfl, by simpa using hfree⟩
      intro tokens value left hrun
      obtain ⟨token, more, hpeek, hmore⟩ := bind_eq_ok_iff.1 hrun
      obtain ⟨rfl, rfl⟩ := Prod.mk.inj (Except.ok.inj hpeek)
      by_cases hnumber : tokens.head? = some .number
      · -- the token that is taken is the number that was seen
        obtain ⟨tokens, rfl⟩ := List.head?_eq_some_iff.1 hnumber
        exact hrest.behind rfl hmore
      · rw [if_neg (by simpa using hnumber)] at hmore
        exact hrest tokens value left hmore

theorem reads_dataType : Reads ElementShape dataType := by
  refine reads_elementType.bind fun element shape helement => reads_get fun tokens => ?_
  refine Reads.bind (reads_arrayBrackets _) (fun found brackets hbrackets => ?_) tokens
  rcases hbrackets with ⟨rfl, rfl⟩ | ⟨rfl, front, rfl, hfree⟩
  · exact reads_pure (by simpa using helement)
  · refine reads_pure ⟨⟨?_, ?_, ?_⟩, by simp⟩
    · simp [helement.1.commaFree, hfree]
    · exact (helement.1.leads.append _)
    · intro more
      simp [endsInAlias]

end TypeShape

end RepoPolicy.Sql.Grammar
