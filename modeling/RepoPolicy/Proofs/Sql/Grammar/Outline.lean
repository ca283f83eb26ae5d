import RepoPolicy.Proofs.Sql.Grammar.Runs
import RepoPolicy.Sql.Grammar.Query

set_option autoImplicit false

/-! # Outlines of what a parser reads

Whatever a parser takes off the front of a list of tokens has its brackets in pairs. Its *outline*
is what stands outside them, with the closing bracket in place of a pair and of what it encloses.
A parser `Reads P` if the tokens that it takes have an outline with the property `P`. Here are the
rules by which such parsers are put together, and the parsers of single tokens, lists and names. -/

namespace RepoPolicy.Sql.Grammar

/-! ## Outlines -/

inductive Brackets : String → String → Prop where
  | round : Brackets "(" ")"
  | square : Brackets "[" "]"

def isBracket : Token → Bool
  | .symbol text => ["(", ")", "[", "]"].contains text
  | _ => false

/-- The brackets of the tokens come in pairs, and `shape` is what stands outside them. -/
inductive Outline : List Token → List Token → Prop where
  | nil : Outline [] []
  | token {token : Token} {tokens shape : List Token} (h : isBracket token = false)
      (hrest : Outline tokens shape) : Outline (token :: tokens) (token :: shape)
  | pair {opening closing : String} {inside outer tokens shape : List Token}
      (h : Brackets opening closing) (hinside : Outline inside outer)
      (hrest : Outline tokens shape) :
      Outline (.symbol opening :: (inside ++ .symbol closing :: tokens))
        (.symbol closing :: shape)

theorem Outline.single {token : Token} (h : isBracket token = false) : Outline [token] [token] :=
  .token h .nil

theorem Outline.append {first second shape more : List Token} (hfirst : Outline first shape)
    (hsecond : Outline second more) : Outline (first ++ second) (shape ++ more) := by
  induction hfirst with
  | nil => exact hsecond
  | token h _ ih => exact .token h ih
  | pair h hinside _ _ ih =>
      rw [List.cons_append, List.append_assoc, List.cons_append, List.cons_append]
      exact .pair h hinside ih

/-! ## Rules -/

section Rules

variable {α β : Type} {P : α → List Token → Prop} {Q : β → List Token → Prop}

def ReadsAt (P : α → List Token → Prop) (parser : Parser α) (tokens : List Token) : Prop :=
  ∀ value rest, parser tokens = .ok (value, rest) →
    ∃ used shape, tokens = used ++ rest ∧ Outline used shape ∧ P value shape

def Reads (P : α → List Token → Prop) (parser : Parser α) : Prop := ∀ tokens, ReadsAt P parser tokens

/-- The parser reads up to a closing bracket and then something whose outline has a property. -/
def ReadsUpTo (closing : String) (P : α → List Token → Prop) (parser : Parser α) : Prop :=
  ∀ tokens value rest, parser tokens = .ok (value, rest) →
    ∃ inside outer used shape, tokens = inside ++ .symbol closing :: (used ++ rest) ∧
      Outline inside outer ∧ Outline used shape ∧ P value shape

/-- What the parser reads has its brackets in pairs. -/
abbrev Balanced (parser : Parser α) : Prop := Reads (fun _ _ => True) parser

/-- The parser reads up to a closing bracket, and it may read more behind it. -/
abbrev Closes (closing : String) (parser : Parser α) : Prop :=
  ReadsUpTo closing (fun _ _ => True) parser

theorem Reads.imp {P' : α → List Token → Prop} {parser : Parser α} (h : Reads P parser)
    (himp : ∀ value shape, P value shape → P' value shape) : Reads P' parser := by
  intro tokens value rest hrun
  obtain ⟨used, shape, rfl, houtline, hvalue⟩ := h tokens value rest hrun
  exact ⟨used, shape, rfl, houtline, himp value shape hvalue⟩

theorem Reads.balanced {parser : Parser α} (h : Reads P parser) : Balanced parser :=
  h.imp fun _ _ _ => trivial

theorem reads_pure {value : α} (h : P value []) : Reads P (pure value) := by
  intro tokens value' rest hrun
  obtain ⟨rfl, rfl⟩ := Prod.mk.inj (Except.ok.inj hrun)
  exact ⟨[], [], rfl, .nil, h⟩

theorem balanced_pure (value : α) : Balanced (pure value) := reads_pure trivial

theorem reads_throw (cause : SyntaxError) : Reads P (throw cause : Parser α) := by
  intro tokens value rest hrun
  rw [throw_run] at hrun
  exact absurd hrun (by simp)

theorem reads_fail : Reads P (fail : Parser α) := reads_throw _

theorem reads_fail_bind {next : α → Parser β} : Reads Q ((fail : Parser α) >>= next) := by
  intro tokens value rest hrun
  obtain ⟨_, _, hfail, -⟩ := bind_eq_ok_iff.1 hrun
  rw [fail_run] at hfail
  exact absurd hfail (by simp)

theorem ReadsAt.bind {first : Parser α} {next : α → Parser β} {tokens : List Token}
    (hfirst : ReadsAt P first tokens)
    (hnext : ∀ value shape, P value shape →
      Reads (fun result more => Q result (shape ++ more)) (next value)) :
    ReadsAt Q (first >>= next) tokens := by
  intro result rest hrun
  obtain ⟨value, more, hvalue, hresult⟩ := bind_eq_ok_iff.1 hrun
  obtain ⟨used, shape, rfl, houtline, hgood⟩ := hfirst value more hvalue
  obtain ⟨used', shape', rfl, houtline', hgood'⟩ :=
    hnext value shape hgood more result rest hresult
  exact ⟨used ++ used', shape ++ shape', (List.append_assoc ..).symm,
    houtline.append houtline', hgood'⟩

theorem Reads.bind {first : Parser α} {next : α → Parser β} (hfirst : Reads P first)
    (hnext : ∀ value shape, P value shape →
      Reads (fun result more => Q result (shape ++ more)) (next value)) :
    Reads Q (first >>= next) :=
  fun tokens => (hfirst tokens).bind hnext

theorem readsAt_ite {condition : Prop} [Decidable condition] {yes no : Parser α}
    {tokens : List Token} (hyes : condition → ReadsAt P yes tokens)
    (hno : ¬ condition → ReadsAt P no tokens) :
    ReadsAt P (if condition then yes else no) tokens := by
  by_cases h : condition
  · rw [if_pos h]
    exact hyes h
  · rw [if_neg h]
    exact hno h

theorem reads_ite {condition : Prop} [Decidable condition] {yes no : Parser α}
    (hyes : Reads P yes) (hno : Reads P no) : Reads P (if condition then yes else no) :=
  fun tokens => readsAt_ite (fun _ => hyes tokens) fun _ => hno tokens

/-- Go on, after something else if a condition holds. -/
theorem reads_when {good : β → Prop} {condition : Prop} [Decidable condition] {first : Parser α}
    {rest : Parser β} (hfirst : Balanced first) (hrest : Reads (fun value _ => good value) rest) :
    Reads (fun value _ => good value) (if condition then first >>= fun _ => rest else rest) :=
  reads_ite (hfirst.bind fun _ _ _ => hrest) hrest

theorem balanced_when {condition : Prop} [Decidable condition] {first : Parser α}
    {rest : Parser β} (hfirst : Balanced first) (hrest : Balanced rest) :
    Balanced (if condition then first >>= fun _ => rest else rest) :=
  reads_when hfirst hrest

/-- Look at the tokens and go on. -/
theorem reads_get {next : List Token → Parser α} (h : ∀ tokens, ReadsAt P (next tokens) tokens) :
    Reads P (get >>= next) :=
  h

/-- What is read behind tokens that have an outline adds to it. -/
theorem Reads.behind {parser : Parser α} {used rest left shape : List Token} {value : α}
    (h : Reads (fun value more => P value (shape ++ more)) parser) (houtline : Outline used shape)
    (hrun : parser rest = .ok (value, left)) :
    ∃ used' shape', used ++ rest = used' ++ left ∧ Outline used' shape' ∧ P value shape' := by
  obtain ⟨more, shape', rfl, houtline', hvalue⟩ := h rest value left hrun
  exact ⟨used ++ more, shape ++ shape', (List.append_assoc ..).symm, houtline.append houtline',
    hvalue⟩

/-- Go on behind tokens that have an outline. -/
theorem ReadsAt.set {next : Unit → Parser α} {used rest shape : List Token}
    (houtline : Outline used shape) (h : Reads (fun value more => P value (shape ++ more)) (next ())) :
    ReadsAt P (set rest >>= next) (used ++ rest) :=
  fun _ _ hrun => h.behind houtline hrun

/-- Go on behind a token that is no bracket. -/
theorem readsAt_behind {next : Unit → Parser α} {token : Token} {rest : List Token}
    (htoken : isBracket token = false)
    (h : Reads (fun value more => P value (token :: more)) (next ())) :
    ReadsAt P (set rest >>= next) (token :: rest) :=
  ReadsAt.set (.single htoken) h

/-! ## Rules for brackets -/

theorem ReadsUpTo.imp {closing : String} {P' : α → List Token → Prop} {parser : Parser α}
    (h : ReadsUpTo closing P parser) (himp : ∀ value shape, P value shape → P' value shape) :
    ReadsUpTo closing P' parser := by
  intro tokens value rest hrun
  obtain ⟨inside, outer, used, shape, rfl, hinside, houtline, hvalue⟩ := h tokens value rest hrun
  exact ⟨inside, outer, used, shape, rfl, hinside, houtline, himp value shape hvalue⟩

/-- A token inside the brackets, and what is read behind it. -/
theorem ReadsUpTo.behind {closing : String} {parser : Parser α} (h : ReadsUpTo closing P parser)
    {token : Token} (htoken : isBracket token = false) {tokens rest : List Token} {value : α}
    (hrun : parser tokens = .ok (value, rest)) :
    ∃ inside outer used shape, token :: tokens = inside ++ .symbol closing :: (used ++ rest) ∧
      Outline inside outer ∧ Outline used shape ∧ P value shape := by
  obtain ⟨inside, outer, used, shape, rfl, hinside, houtline, hvalue⟩ := h tokens value rest hrun
  exact ⟨token :: inside, token :: outer, used, shape, rfl, .token htoken hinside, houtline,
    hvalue⟩

theorem readsUpTo_fail {closing : String} : ReadsUpTo closing P (fail : Parser α) := by
  intro tokens value rest hrun
  rw [fail_run] at hrun
  exact absurd hrun (by simp)

theorem readsUpTo_fail_bind {closing : String} {next : α → Parser β} :
    ReadsUpTo closing Q ((fail : Parser α) >>= next) := by
  intro tokens value rest hrun
  obtain ⟨_, _, hfail, -⟩ := bind_eq_ok_iff.1 hrun
  rw [fail_run] at hfail
  exact absurd hfail (by simp)

/-- Read something inside the brackets and go on. -/
theorem Reads.inside {closing : String} {first : Parser α} {next : α → Parser β}
    (hfirst : Reads P first)
    (hnext : ∀ value shape, P value shape → ReadsUpTo closing Q (next value)) :
    ReadsUpTo closing Q (first >>= next) := by
  intro tokens result rest hrun
  obtain ⟨value, more, hvalue, hresult⟩ := bind_eq_ok_iff.1 hrun
  obtain ⟨used, shape, rfl, houtline, hshape⟩ := hfirst tokens value more hvalue
  obtain ⟨inside, outer, used', shape', rfl, hinside, houtline', hgood⟩ :=
    hnext value shape hshape more result rest hresult
  exact ⟨used ++ inside, shape ++ outer, used', shape', (List.append_assoc ..).symm,
    houtline.append hinside, houtline', hgood⟩

/-- Go on behind the closing bracket. -/
theorem ReadsUpTo.bind {closing : String} {first : Parser α} {next : α → Parser β}
    (hfirst : ReadsUpTo closing P first)
    (hnext : ∀ value shape, P value shape →
      Reads (fun result more => Q result (shape ++ more)) (next value)) :
    ReadsUpTo closing Q (first >>= next) := by
  intro tokens result rest hrun
  obtain ⟨value, more, hvalue, hresult⟩ := bind_eq_ok_iff.1 hrun
  obtain ⟨inside, outer, used, shape, rfl, hinside, houtline, hgood⟩ :=
    hfirst tokens value more hvalue
  obtain ⟨used', shape', rfl, houtline', hgood'⟩ :=
    hnext value shape hgood more result rest hresult
  exact ⟨inside, outer, used ++ used', shape ++ shape', by rw [List.append_assoc], hinside,
    houtline.append houtline', hgood'⟩

theorem readsUpTo_ite {closing : String} {condition : Prop} [Decidable condition]
    {yes no : Parser α} (hyes : ReadsUpTo closing P yes) (hno : ReadsUpTo closing P no) :
    ReadsUpTo closing P (if condition then yes else no) := by
  by_cases h : condition
  · rw [if_pos h]
    exact hyes
  · rw [if_neg h]
    exact hno

/-- Go on, after something else inside the brackets if a condition holds. -/
theorem readsUpTo_when {closing : String} {condition : Prop} [Decidable condition]
    {first : Parser α} {rest : Parser β} (hfirst : Balanced first)
    (hrest : ReadsUpTo closing Q rest) :
    ReadsUpTo closing Q (if condition then first >>= fun _ => rest else rest) :=
  readsUpTo_ite (hfirst.inside fun _ _ _ => hrest) hrest

theorem readsUpTo_get {closing : String} {next : List Token → Parser α}
    (h : ∀ tokens, ReadsUpTo closing P (next tokens)) : ReadsUpTo closing P (get >>= next) :=
  fun tokens => h tokens tokens

/-- The closing bracket, and what follows it. -/
theorem readsUpTo_expectSymbol {closing : String} {next : Unit → Parser α}
    (h : Reads P (next ())) : ReadsUpTo closing P (expectSymbol closing >>= next) := by
  intro tokens value rest hrun
  obtain ⟨_, more, hclosing, hvalue⟩ := bind_eq_ok_iff.1 hrun
  obtain ⟨used, shape, rfl, houtline, hgood⟩ := h more value rest hvalue
  exact ⟨[], [], used, shape, of_expectSymbol_eq_ok hclosing, .nil, houtline, hgood⟩

/-- The closing bracket at once, or something before it. -/
theorem readsUpTo_symbol? {closing : String} {next : Bool → Parser α}
    (hclosed : Reads P (next true)) (hother : ReadsUpTo closing P (next false)) :
    ReadsUpTo closing P (symbol? closing >>= next) := by
  intro tokens value rest hrun
  obtain ⟨found, more, hfound, hvalue⟩ := bind_eq_ok_iff.1 hrun
  rcases of_symbol?_eq_ok hfound with ⟨rfl, rfl⟩ | ⟨rfl, rfl⟩
  · obtain ⟨used, shape, rfl, houtline, hgood⟩ := hclosed more value rest hvalue
    exact ⟨[], [], used, shape, rfl, .nil, houtline, hgood⟩
  · exact hother more value rest hvalue

/-- A bracket is opened, and closed again by what follows. -/
theorem reads_of_opening {opening closing : String} (hpair : Brackets opening closing)
    {parser : Parser α}
    (h : ReadsUpTo closing (fun value shape => P value (.symbol closing :: shape)) parser)
    {tokens rest : List Token} {value : α} (hrun : parser tokens = .ok (value, rest)) :
    ∃ used shape, .symbol opening :: tokens = used ++ rest ∧ Outline used shape ∧
      P value shape := by
  obtain ⟨inside, outer, used, shape, rfl, hinside, houtline, hgood⟩ := h tokens value rest hrun
  exact ⟨.symbol opening :: (inside ++ .symbol closing :: used), .symbol closing :: shape,
    by simp, .pair hpair hinside houtline, hgood⟩

theorem reads_symbol?_opening {opening closing : String} (hpair : Brackets opening closing)
    {next : Bool → Parser α}
    (hopen : ReadsUpTo closing (fun value shape => P value (.symbol closing :: shape)) (next true))
    (hother : Reads P (next false)) : Reads P (symbol? opening >>= next) := by
  intro tokens value rest hrun
  obtain ⟨found, more, hfound, hvalue⟩ := bind_eq_ok_iff.1 hrun
  rcases of_symbol?_eq_ok hfound with ⟨rfl, rfl⟩ | ⟨rfl, rfl⟩
  · exact reads_of_opening hpair hopen hvalue
  · exact hother more value rest hvalue

theorem reads_expectSymbol_opening {opening closing : String} (hpair : Brackets opening closing)
    {next : Unit → Parser α}
    (h : ReadsUpTo closing (fun value shape => P value (.symbol closing :: shape)) (next ())) :
    Reads P (expectSymbol opening >>= next) := by
  intro tokens value rest hrun
  obtain ⟨_, more, hopening, hvalue⟩ := bind_eq_ok_iff.1 hrun
  rw [of_expectSymbol_eq_ok hopening]
  exact reads_of_opening hpair h hvalue

/-- Brackets whose opening one has been seen. -/
theorem readsAt_opening {opening closing : String} (hpair : Brackets opening closing)
    {next : Unit → Parser α} {rest : List Token}
    (h : ReadsUpTo closing (fun value shape => P value (.symbol closing :: shape)) (next ())) :
    ReadsAt P (set rest >>= next) (.symbol opening :: rest) :=
  fun _ _ hrun => reads_of_opening hpair h hrun

/-- Something in parentheses leaves the closing one. -/
theorem reads_inParentheses {good : α → Prop} {inside : Parser α}
    (h : Reads (fun value _ => good value) inside) :
    Reads (fun value shape => good value ∧ shape = [.symbol ")"]) (inParentheses inside) := by
  refine reads_expectSymbol_opening .round (h.inside fun value _ hvalue => ?_)
  exact readsUpTo_expectSymbol (reads_pure ⟨hvalue, rfl⟩)

theorem balanced_inParentheses {inside : Parser α} (h : Balanced inside) :
    Balanced (inParentheses inside) :=
  (reads_inParentheses h).balanced

end Rules

/-! ## Parsers that only look ahead -/

section Quiet

variable {α β : Type} {Q : β → List Token → Prop}

def Quiet (parser : Parser α) : Prop :=
  ∀ tokens value rest, parser tokens = .ok (value, rest) → rest = tokens

theorem Quiet.bind {first : Parser α} {next : α → Parser β} (h : Quiet first)
    (hnext : ∀ value, Reads Q (next value)) : Reads Q (first >>= next) := by
  intro tokens result rest hrun
  obtain ⟨value, more, hvalue, hresult⟩ := bind_eq_ok_iff.1 hrun
  obtain rfl := h tokens value more hvalue
  exact hnext value more result rest hresult

theorem Quiet.inside {closing : String} {first : Parser α} {next : α → Parser β} (h : Quiet first)
    (hnext : ∀ value, ReadsUpTo closing Q (next value)) :
    ReadsUpTo closing Q (first >>= next) := by
  intro tokens result rest hrun
  obtain ⟨value, more, hvalue, hresult⟩ := bind_eq_ok_iff.1 hrun
  obtain rfl := h tokens value more hvalue
  exact hnext value more result rest hresult

theorem quiet_peekSymbol (text : String) : Quiet (peekSymbol text) :=
  fun _ _ _ hrun => (Prod.mk.inj (Except.ok.inj hrun)).2.symm

theorem quiet_peekOneOf (keywords : List String) : Quiet (peekOneOf keywords) := by
  intro tokens value rest hrun
  cases tokens with
  | nil => exact (Prod.mk.inj (Except.ok.inj hrun)).2.symm
  | cons token tokens => exact (Prod.mk.inj (Except.ok.inj hrun)).2.symm

end Quiet

/-! ## Single tokens -/

section Tokens

variable {α : Type} {P : α → List Token → Prop}

theorem eq_word_of_isKeyword {keyword : String} {token : Token}
    (h : token.isKeyword keyword = true) : ∃ value, token = .word value keyword := by
  cases token with
  | word value spelling => exact ⟨value, by rw [beq_iff_eq.1 h]⟩
  | _ => cases h

/-- A keyword is taken, or the tokens stay as they are. -/
theorem exists_of_keyword?_eq_ok {keyword : String} {tokens rest : List Token} {found : Bool}
    (h : keyword? keyword tokens = .ok (found, rest)) :
    (found = true ∧ ∃ value, tokens = .word value keyword :: rest) ∨
      (found = false ∧ rest = tokens) := by
  rcases of_keyword?_eq_ok h with ⟨rfl, token, rfl, htoken⟩ | hnone
  · obtain ⟨value, rfl⟩ := eq_word_of_isKeyword htoken
    exact .inl ⟨rfl, value, rfl⟩
  · exact .inr hnone

theorem reads_keyword?_bind {keyword : String} {next : Bool → Parser α}
    (hfound : ∀ value, Reads (fun result more => P result (.word value keyword :: more)) (next true))
    (hother : Reads P (next false)) : Reads P (keyword? keyword >>= next) := by
  intro tokens result rest hrun
  obtain ⟨found, more, hkeyword, hresult⟩ := bind_eq_ok_iff.1 hrun
  rcases exists_of_keyword?_eq_ok hkeyword with ⟨rfl, value, rfl⟩ | ⟨rfl, rfl⟩
  · exact (hfound value).behind (.single rfl) hresult
  · exact hother more result rest hresult

theorem balanced_keyword? (keyword : String) : Balanced (keyword? keyword) := by
  intro tokens found rest hrun
  rcases exists_of_keyword?_eq_ok hrun with ⟨-, value, rfl⟩ | ⟨-, rfl⟩
  · exact ⟨[.word value keyword], [.word value keyword], rfl, .single rfl, trivial⟩
  · exact ⟨[], [], rfl, .nil, trivial⟩

theorem reads_keywords?_bind {first second : String} {next : Bool → Parser α}
    (hfound : ∀ value value', Reads (fun result more =>
      P result (.word value first :: .word value' second :: more)) (next true))
    (hother : Reads P (next false)) : Reads P (keywords? [first, second] >>= next) := by
  -- unless both words stand there, nothing is taken
  have hnone : ∀ tokens : List Token, keywords? [first, second] tokens = .ok (false, tokens) →
      ReadsAt P (keywords? [first, second] >>= next) tokens := by
    intro tokens hkeywords result rest hrun
    obtain ⟨found, more, hfalse, hresult⟩ := bind_eq_ok_iff.1 hrun
    obtain ⟨rfl, rfl⟩ := Prod.mk.inj (Except.ok.inj (hkeywords.symm.trans hfalse))
    exact hother tokens result rest hresult
  intro tokens
  match tokens with
  | [] => exact hnone _ rfl
  | [_] => exact hnone _ rfl
  | token :: token' :: tokens =>
      by_cases h : token.isKeyword first = true ∧ token'.isKeyword second = true
      · obtain ⟨value, rfl⟩ := eq_word_of_isKeyword h.1
        obtain ⟨value', rfl⟩ := eq_word_of_isKeyword h.2
        have hkeywords : keywords? [first, second]
            (.word value first :: .word value' second :: tokens) = .ok (true, tokens) := by
          show (if _ then _ else _ : Parser Bool) _ = _
          rw [if_pos (by simp [Token.isKeyword])]
          rfl
        intro result rest hrun
        obtain ⟨found, more, htrue, hresult⟩ := bind_eq_ok_iff.1 hrun
        obtain ⟨rfl, rfl⟩ := Prod.mk.inj (Except.ok.inj (hkeywords.symm.trans htrue))
        exact (hfound value value').behind (.token rfl (.single rfl)) hresult
      · refine hnone _ ?_
        show (if _ then _ else _ : Parser Bool) _ = _
        rw [if_neg (by simpa using h)]
        rfl

theorem balanced_keywords? (first second : String) : Balanced (keywords? [first, second]) := by
  have h : Balanced (keywords? [first, second] >>= pure) :=
    reads_keywords?_bind (fun _ _ => balanced_pure _) (balanced_pure _)
  rwa [bind_pure] at h

theorem reads_oneOf?_bind {keywords : List String} {next : Option String → Parser α}
    (hfound : ∀ value spelling, spelling ∈ keywords →
      Reads (fun result more => P result (.word value spelling :: more)) (next (some spelling)))
    (hother : Reads P (next none)) : Reads P (oneOf? keywords >>= next) := by
  intro tokens result rest hrun
  obtain ⟨found, more, hfind, hresult⟩ := bind_eq_ok_iff.1 hrun
  -- one of the words is taken, or nothing is
  have hcases : (∃ value spelling, spelling ∈ keywords ∧ found = some spelling ∧
      tokens = .word value spelling :: more) ∨ (found = none ∧ more = tokens) := by
    cases tokens with
    | nil =>
        obtain ⟨rfl, rfl⟩ := Prod.mk.inj (Except.ok.inj hfind)
        exact .inr ⟨rfl, rfl⟩
    | cons token tokens =>
        cases token with
        | word value spelling =>
            replace hfind : (if keywords.contains spelling then _ else _ : Parser _) _ = _ := hfind
            split at hfind
            · rename_i hmem
              obtain ⟨rfl, rfl⟩ := Prod.mk.inj (Except.ok.inj hfind)
              exact .inl ⟨value, spelling, List.contains_iff_mem.1 hmem, rfl, rfl⟩
            · obtain ⟨rfl, rfl⟩ := Prod.mk.inj (Except.ok.inj hfind)
              exact .inr ⟨rfl, rfl⟩
        | _ =>
            obtain ⟨rfl, rfl⟩ := Prod.mk.inj (Except.ok.inj hfind)
            exact .inr ⟨rfl, rfl⟩
  rcases hcases with ⟨value, spelling, hmem, rfl, rfl⟩ | ⟨rfl, rfl⟩
  · exact (hfound value spelling hmem).behind (.single rfl) hresult
  · exact hother more result rest hresult

theorem balanced_oneOf? (keywords : List String) : Balanced (oneOf? keywords) := by
  have h : Balanced (oneOf? keywords >>= pure) :=
    reads_oneOf?_bind (fun _ _ _ => balanced_pure _) (balanced_pure _)
  rwa [bind_pure] at h

theorem reads_expectKeyword_bind {keyword : String} {next : Unit → Parser α}
    (h : ∀ value, Reads (fun result more => P result (.word value keyword :: more)) (next ())) :
    Reads P (expectKeyword keyword >>= next) := by
  rw [expectKeyword, bind_assoc]
  exact reads_keyword?_bind h reads_fail_bind

theorem balanced_expectKeyword (keyword : String) : Balanced (expectKeyword keyword) :=
  reads_keyword?_bind (fun _ => balanced_pure _) reads_fail

theorem balanced_expectOneOf (keywords : List String) : Balanced (expectOneOf keywords) :=
  reads_oneOf?_bind (fun _ _ _ => balanced_pure _) reads_fail

theorem reads_symbol?_bind {text : String} (htext : isBracket (.symbol text) = false)
    {next : Bool → Parser α}
    (hfound : Reads (fun result more => P result (.symbol text :: more)) (next true))
    (hother : Reads P (next false)) : Reads P (symbol? text >>= next) := by
  intro tokens result rest hrun
  obtain ⟨found, more, hsymbol, hresult⟩ := bind_eq_ok_iff.1 hrun
  rcases of_symbol?_eq_ok hsymbol with ⟨rfl, rfl⟩ | ⟨rfl, rfl⟩
  · exact hfound.behind (.single htext) hresult
  · exact hother more result rest hresult

theorem balanced_symbol? {text : String} (htext : isBracket (.symbol text) = false) :
    Balanced (symbol? text) := by
  have h : Balanced (symbol? text >>= pure) :=
    reads_symbol?_bind htext (balanced_pure _) (balanced_pure _)
  rwa [bind_pure] at h

theorem balanced_expectSymbol {text : String} (htext : isBracket (.symbol text) = false) :
    Balanced (expectSymbol text) :=
  reads_symbol?_bind htext (balanced_pure _) reads_fail

/-- Take the next token. An opening bracket has to be closed by what follows, and a closing one
cannot stand here. -/
theorem reads_next_bind {following : Token → Parser α}
    (hround : ReadsUpTo ")" (fun result more => P result (.symbol ")" :: more))
      (following (.symbol "(")))
    (hsquare : ReadsUpTo "]" (fun result more => P result (.symbol "]" :: more))
      (following (.symbol "[")))
    (hclosing : following (.symbol ")") = fail ∧ following (.symbol "]") = fail)
    (hother : ∀ token, isBracket token = false →
      Reads (fun result more => P result (token :: more)) (following token)) :
    Reads P (next >>= following) := by
  intro tokens result rest hrun
  obtain ⟨token, more, htoken, hresult⟩ := bind_eq_ok_iff.1 hrun
  rw [of_next_eq_ok htoken]
  by_cases h : isBracket token = false
  · exact (hother token h).behind (.single h) hresult
  · have hbracket : token ∈ [.symbol "(", .symbol "[", .symbol ")", .symbol "]"] := by
      cases token with
      | symbol text =>
          have hmem := List.contains_iff_mem.1 ((Bool.not_eq_false _).mp h)
          simp only [List.mem_cons, List.not_mem_nil, or_false] at hmem
          rcases hmem with rfl | rfl | rfl | rfl <;> simp
      | _ => exact absurd rfl h
    simp only [List.mem_cons, List.not_mem_nil, or_false] at hbracket
    rcases hbracket with rfl | rfl | rfl | rfl
    · exact reads_of_opening .round hround hresult
    · exact reads_of_opening .square hsquare hresult
    · rw [hclosing.1, fail_run] at hresult
      exact absurd hresult (by simp)
    · rw [hclosing.2, fail_run] at hresult
      exact absurd hresult (by simp)

end Tokens

/-! ## Lists and names -/

section Lists

variable {α : Type} {P : α → List Token → Prop}

theorem reads_attempt {parser : Parser α} (h : Reads P parser) :
    Reads (fun found shape => (∃ value, found = some value ∧ P value shape) ∨
      (found = none ∧ shape = [])) (attempt parser) := by
  intro tokens found rest hrun
  rcases of_attempt_eq_ok hrun with ⟨value, rfl, hvalue⟩ | ⟨rfl, rfl⟩
  · obtain ⟨used, shape, rfl, houtline, hgood⟩ := h tokens value rest hvalue
    exact ⟨used, shape, rfl, houtline, .inl ⟨value, rfl, hgood⟩⟩
  · exact ⟨[], [], rfl, .nil, .inr ⟨rfl, rfl⟩⟩

theorem balanced_commaList {item : Parser α} (h : Balanced item) (fuel : Nat) :
    Balanced (commaList item fuel) := by
  induction fuel with
  | zero => exact reads_fail
  | succ fuel ih =>
      refine h.bind fun _ _ _ => (balanced_symbol? rfl).bind fun _ _ _ => ?_
      exact reads_ite (ih.bind fun _ _ _ => balanced_pure _) (balanced_pure _)

theorem balanced_commaSeparated {item : Parser α} (h : Balanced item) :
    Balanced (commaSeparated item) :=
  reads_get fun tokens => balanced_commaList h _ tokens

end Lists

def nameOf? : Token → Option String
  | .word value _ => some value
  | .string value => some value
  | _ => none

theorem reads_identifier :
    Reads (fun name shape => ∃ token, shape = [token] ∧ nameOf? token = some name) identifier := by
  refine reads_next_bind readsUpTo_fail readsUpTo_fail ⟨rfl, rfl⟩ fun token _ => ?_
  cases token with
  | word value keyword => exact reads_pure ⟨_, rfl, rfl⟩
  | string value => exact reads_pure ⟨_, rfl, rfl⟩
  | _ => exact reads_fail

/-- Names with dots between them: the last token is a name, and it stands alone or behind a dot. -/
def Dotted (last : String) (shape : List Token) : Prop :=
  ∃ front token, shape = front ++ [token] ∧ nameOf? token = some last ∧
    (front = [] ∨ ∃ more, front = more ++ [.symbol "."])

theorem Dotted.cons {last : String} {shape : List Token} (h : Dotted last shape) (token : Token) :
    Dotted last (token :: .symbol "." :: shape) := by
  obtain ⟨front, name, rfl, hname, hfront⟩ := h
  refine ⟨token :: .symbol "." :: front, name, rfl, hname, .inr ?_⟩
  rcases hfront with rfl | ⟨more, rfl⟩
  · exact ⟨[token], rfl⟩
  · exact ⟨token :: .symbol "." :: more, rfl⟩

def Leads (shape : List Token) : Prop := ∃ first rest, shape = first :: rest ∧ first ≠ .symbol "."

/-- A name with its qualifiers. -/
structure PathShape (shape : List Token) : Prop where
  dotted : ∃ last, Dotted last shape
  commaFree : .symbol "," ∉ shape
  leads : Leads shape

theorem reads_dottedNames (fuel : Nat) :
    Reads (fun _ shape => PathShape shape) (dottedNames fuel) := by
  -- a name is neither a comma nor a dot
  have hfirst : ∀ {token : Token} {name : String}, nameOf? token = some name →
      token ≠ .symbol "," ∧ token ≠ .symbol "." := by
    intro token name hname
    constructor <;> (rintro rfl; cases hname)
  induction fuel with
  | zero => exact reads_fail
  | succ fuel ih =>
      refine reads_identifier.bind fun name _ => ?_
      rintro ⟨token, rfl, hname⟩
      obtain ⟨hcomma, hdot⟩ := hfirst hname
      refine reads_symbol?_bind rfl (Reads.bind ih fun _ shape hshape => ?_) ?_
      · obtain ⟨⟨last, hlast⟩, hfree, -⟩ := hshape
        refine reads_pure ⟨⟨last, ?_⟩, ?_, token, _, rfl, hdot⟩
        · simpa using hlast.cons token
        · simp [hfree, hcomma.symm]
      · refine reads_pure ⟨⟨name, [], token, rfl, hname, .inl rfl⟩, ?_, token, [], rfl, hdot⟩
        simpa using hcomma.symm

theorem reads_objectName : Reads (fun _ shape => PathShape shape) objectName :=
  reads_get fun tokens => reads_dottedNames _ tokens

theorem balanced_columnNames : Balanced columnNames :=
  balanced_inParentheses (balanced_commaSeparated reads_identifier.balanced)

theorem balanced_constant : Balanced constant := by
  refine reads_next_bind readsUpTo_fail readsUpTo_fail ⟨rfl, rfl⟩ fun token _ => ?_
  cases token with
  | word value keyword => exact reads_ite (balanced_pure _) reads_fail
  | symbol text => exact reads_ite (balanced_pure _) reads_fail
  | _ => exact balanced_pure _

/-- An alias is the last token that is read for it. -/
theorem reads_alias? (reserved : List String) :
    Reads (fun given shape => (given = none ∧ shape = []) ∨
      ∃ name token, given = some name ∧ nameOf? token = some name ∧
        (shape = [token] ∨ ∃ value, shape = [.word value "AS", token])) (alias? reserved) := by
  have htoken : ∀ (shape : List Token) {token : Token} {name : String}, nameOf? token = some name →
      (shape = [] ∨ ∃ value, shape = [.word value "AS"]) →
      Reads (fun given more => (given = none ∧ shape ++ token :: more = []) ∨
        ∃ name token', given = some name ∧ nameOf? token' = some name ∧
          (shape ++ token :: more = [token'] ∨
            ∃ value, shape ++ token :: more = [.word value "AS", token']))
        (pure (some name)) := by
    intro shape token name hname hshape
    refine reads_pure (.inr ⟨name, token, rfl, hname, ?_⟩)
    rcases hshape with rfl | ⟨value, rfl⟩
    · exact .inl rfl
    · exact .inr ⟨value, rfl⟩
  -- behind `AS` there has to be a name; without it a reserved word is left alone
  refine reads_keyword?_bind (fun value => reads_get fun tokens => ?_) (reads_get fun tokens => ?_)
  · split
    · exact readsAt_behind rfl (htoken [.word value "AS"] rfl (.inr ⟨value, rfl⟩))
    · exact readsAt_behind rfl (htoken [.word value "AS"] rfl (.inr ⟨value, rfl⟩))
    · exact reads_fail _
  · split
    · split
      · exact readsAt_behind rfl (htoken [] rfl (.inl rfl))
      · exact reads_pure (.inl ⟨rfl, rfl⟩) _
    · exact readsAt_behind rfl (htoken [] rfl (.inl rfl))
    · exact reads_pure (.inl ⟨rfl, rfl⟩) _

end RepoPolicy.Sql.Grammar
