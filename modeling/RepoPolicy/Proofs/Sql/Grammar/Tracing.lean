import RepoPolicy.Proofs.Sql.Grammar.HeldQueries
import RepoPolicy.Proofs.Sql.Grammar.Runs
import RepoPolicy.Proofs.Sql.Renaming

set_option autoImplicit false

/-! # Tracing names and inner queries through parsers

The grammar hands the names that it reads on to the tree without looking at them, it takes tokens
off the front only, and it reads the queries inside a tree behind an opening parenthesis. A `Trace`
follows all of this at once: it has a renaming, something that is known of the tokens which are left
to be read, and something that is known of inner queries. A parser `Follows` it if from renamed
tokens it reads what it reads from the tokens themselves, renamed, or fails in the same way; and if
what is known of the tokens, and of inner queries, stays so.

Here are the rules by which such parsers are put together, and the parsers of single tokens, lists,
names and data types. What a grammar rule does is so looked at once, whatever is traced. -/

namespace RepoPolicy.Sql.Grammar

abbrev renameTokens (f : String → String) : List Token → List Token := List.map (Token.rename f)

/-- The words that are calls by themselves. They are no names, so renaming must leave them alone. -/
def callWords : List String :=
  ["CURRENT_CATALOG", "CURRENT_USER", "SESSION_USER", "USER", "CURRENT_TIMESTAMP", "CURRENT_TIME",
    "CURRENT_DATE", "LOCALTIME", "LOCALTIMESTAMP"]

/-- What is traced through the grammar. -/
structure Trace where
  rename : String → String
  /-- What is known of the tokens that are left to be read. -/
  keeps : List Token → Prop
  /-- What is known of the queries inside a tree. -/
  allows : Query → Prop
  rename_callWord : ∀ word ∈ callWords, rename word = word
  keeps_tail : ∀ {token : Token} {tokens : List Token}, keeps (token :: tokens) → keeps tokens
  /-- A table of values is an inner query that no parenthesis opens. -/
  allows_values : ∀ values, allows (.mk [] (.values values) [])

namespace Trace

variable (t : Trace) {α β : Type} [HoldsQueries α]

abbrev expr : Expr → Expr := Expr.rename t.rename

abbrev exprs : List Expr → List Expr := List.map t.expr

/-- The second result is the first one, renamed; or both are the same failure. -/
inductive Agrees (F : α → β) : Except SyntaxError (α × List Token) →
    Except SyntaxError (β × List Token) → Prop where
  | error (cause : SyntaxError) : Agrees F (.error cause) (.error cause)
  | ok {value : α} {rest : List Token} (hvalue : HoldsOnly t.allows value)
      (hrest : t.keeps rest) : Agrees F (.ok (value, rest)) (.ok (F value, renameTokens t.rename rest))

/-- From these tokens, and from the renamed ones, the parsers give results that agree. -/
def FollowsAt (F : α → β) (first : Parser α) (second : Parser β) (tokens : List Token) : Prop :=
  t.keeps tokens → t.Agrees F (first tokens) (second (renameTokens t.rename tokens))

/-- What the second parser gives from renamed tokens is what the first one gives, renamed. -/
def Follows (F : α → β) (first : Parser α) (second : Parser β) : Prop :=
  ∀ tokens, t.FollowsAt F first second tokens

/-- The second parser follows the first one behind an opening parenthesis. -/
def FollowsInside (F : α → β) (first : Parser α) (second : Parser β) : Prop :=
  ∀ tokens, t.keeps (.symbol "(" :: tokens) →
    t.Agrees F (first tokens) (second (renameTokens t.rename tokens))

/-- The parser gives from renamed tokens what it gives from the tokens, renamed. -/
abbrev Carries (F : α → α) (parser : Parser α) : Prop := t.Follows F parser parser

/-- A parser whose results hold no names gives the same from renamed tokens. -/
abbrev Ignores (parser : Parser α) : Prop := t.Carries (fun value => value) parser

end Trace

variable {t : Trace}

/-! ## Rules -/

section Rules

variable {α β γ δ : Type} [HoldsQueries α] [HoldsQueries γ] {F : α → β} {G : γ → δ}

theorem follows_pure {value : α} {other : β} (h : F value = other)
    (hvalue : HoldsOnly t.allows value) : t.Follows F (pure value) (pure other) := by
  intro tokens htokens
  subst h
  exact .ok hvalue htokens

theorem follows_throw (cause : SyntaxError) : t.Follows F (throw cause) (throw cause) :=
  fun _ _ => .error cause

theorem follows_fail : t.Follows F fail fail := follows_throw .unexpected

/-- Go on with what the first parser has given, of which the run is known. -/
theorem Trace.Agrees.bind {first : Parser α} {second : Parser β} {next : α → Parser γ}
    {following : β → Parser δ} {tokens : List Token}
    (h : t.Agrees F (first tokens) (second (renameTokens t.rename tokens)))
    (hnext : ∀ value rest, first tokens = .ok (value, rest) → HoldsOnly t.allows value →
      t.keeps rest →
      t.Agrees G (next value rest) (following (F value) (renameTokens t.rename rest))) :
    t.Agrees G ((first >>= next) tokens) ((second >>= following) (renameTokens t.rename tokens)) := by
  show t.Agrees G (first tokens >>= fun (value, rest) => next value rest)
    (second (renameTokens t.rename tokens) >>= fun (value, rest) => following value rest)
  generalize first tokens = found, second (renameTokens t.rename tokens) = other at h hnext ⊢
  cases h with
  | error cause => exact .error cause
  | ok hvalue hrest => exact hnext _ _ rfl hvalue hrest

theorem Trace.FollowsAt.bind {first : Parser α} {second : Parser β} {next : α → Parser γ}
    {following : β → Parser δ} {tokens : List Token} (hfirst : t.FollowsAt F first second tokens)
    (hnext : ∀ value, HoldsOnly t.allows value → t.Follows G (next value) (following (F value))) :
    t.FollowsAt G (first >>= next) (second >>= following) tokens :=
  fun htokens => (hfirst htokens).bind fun value rest _ hvalue => hnext value hvalue rest

theorem Trace.Follows.bind {first : Parser α} {second : Parser β} {next : α → Parser γ}
    {following : β → Parser δ} (hfirst : t.Follows F first second)
    (hnext : ∀ value, HoldsOnly t.allows value → t.Follows G (next value) (following (F value))) :
    t.Follows G (first >>= next) (second >>= following) :=
  fun tokens => (hfirst tokens).bind hnext

theorem Trace.FollowsInside.bind {first : Parser α} {second : Parser β} {next : α → Parser γ}
    {following : β → Parser δ} (hfirst : t.FollowsInside F first second)
    (hnext : ∀ value, HoldsOnly t.allows value → t.Follows G (next value) (following (F value))) :
    t.FollowsInside G (first >>= next) (second >>= following) :=
  fun tokens htokens =>
    (hfirst tokens htokens).bind fun value rest _ hvalue => hnext value hvalue rest

theorem Trace.Follows.inside {first : Parser α} {second : Parser β}
    (h : t.Follows F first second) : t.FollowsInside F first second :=
  fun tokens htokens => h tokens (t.keeps_tail htokens)

theorem followsAt_ite {condition : Prop} [Decidable condition] {yes no : Parser α}
    {yes' no' : Parser β} {tokens : List Token} (hyes : t.FollowsAt F yes yes' tokens)
    (hno : t.FollowsAt F no no' tokens) :
    t.FollowsAt F (if condition then yes else no) (if condition then yes' else no') tokens := by
  by_cases h : condition
  · rw [if_pos h, if_pos h]
    exact hyes
  · rw [if_neg h, if_neg h]
    exact hno

theorem follows_ite {condition : Prop} [Decidable condition] {yes no : Parser α}
    {yes' no' : Parser β} (hyes : t.Follows F yes yes') (hno : t.Follows F no no') :
    t.Follows F (if condition then yes else no) (if condition then yes' else no') :=
  fun tokens => followsAt_ite (hyes tokens) (hno tokens)

theorem followsInside_ite {condition : Prop} [Decidable condition] {yes no : Parser α}
    {yes' no' : Parser β} (hyes : t.FollowsInside F yes yes') (hno : t.FollowsInside F no no') :
    t.FollowsInside F (if condition then yes else no) (if condition then yes' else no') := by
  by_cases h : condition
  · rw [if_pos h, if_pos h]
    exact hyes
  · rw [if_neg h, if_neg h]
    exact hno

/-- Go on, after something else if a condition holds. -/
theorem follows_when {condition : Prop} [Decidable condition] {first : Parser α}
    {second : Parser β} {rest : Parser γ} {rest' : Parser δ} (hfirst : t.Follows F first second)
    (hrest : t.Follows G rest rest') :
    t.Follows G (if condition then first >>= fun _ => rest else rest)
      (if condition then second >>= fun _ => rest' else rest') :=
  follows_ite (hfirst.bind fun _ _ => hrest) hrest

theorem Trace.FollowsAt.of_eq {first : Parser α} {second other : Parser β} {tokens : List Token}
    (heq : second = other) (h : t.FollowsAt F first other tokens) :
    t.FollowsAt F first second tokens :=
  heq ▸ h

/-- Look at the tokens and go on. -/
theorem follows_get {next : List Token → Parser α} {following : List Token → Parser β}
    (h : ∀ tokens, t.FollowsAt F (next tokens) (following (renameTokens t.rename tokens)) tokens) :
    t.Follows F (get >>= next) (get >>= following) :=
  h

/-- Look at how many tokens there are and go on. -/
theorem follows_fuel {next : Nat → Parser α} {following : Nat → Parser β}
    (h : ∀ fuel, t.Follows F (next fuel) (following fuel)) :
    t.Follows F (do next ((← get).length + 1)) (do following ((← get).length + 1)) := by
  refine follows_get fun tokens => ?_
  rw [renameTokens, List.length_map]
  exact h _ tokens

/-- Go on from other tokens. -/
theorem Trace.FollowsAt.set {next : Parser α} {following : Parser β} {tokens rest : List Token}
    (hrest : t.keeps tokens → t.keeps rest) (h : t.FollowsAt F next following rest) :
    t.FollowsAt F (set rest >>= fun _ => next)
      (set (renameTokens t.rename rest) >>= fun _ => following) tokens :=
  fun htokens => h (hrest htokens)

/-- Go on behind the first token. -/
theorem Trace.Follows.behind {next : Parser α} {following : Parser β}
    (h : t.Follows F next following) (token : Token) (rest : List Token) :
    t.FollowsAt F (set rest >>= fun _ => next)
      (set (renameTokens t.rename rest) >>= fun _ => following) (token :: rest) :=
  .set t.keeps_tail (h rest)

theorem Trace.Agrees.attempt {first : Parser α} {second : Parser β} {tokens : List Token}
    (htokens : t.keeps tokens)
    (h : t.Agrees F (first tokens) (second (renameTokens t.rename tokens))) :
    t.Agrees (Option.map F) (attempt first tokens)
      (attempt second (renameTokens t.rename tokens)) := by
  simp only [Grammar.attempt, StateT.run]
  generalize first tokens = found, second (renameTokens t.rename tokens) = other at h ⊢
  cases h with
  | ok hvalue hrest => exact .ok hvalue hrest
  | error cause =>
      cases cause with
      | tooDeep => exact .error _
      | _ => exact .ok (by simp) htokens

theorem follows_attempt {first : Parser α} {second : Parser β} (h : t.Follows F first second) :
    t.Follows (Option.map F) (attempt first) (attempt second) :=
  fun tokens htokens => (h tokens htokens).attempt htokens

theorem followsInside_attempt {first : Parser α} {second : Parser β}
    (h : t.FollowsInside F first second) :
    t.FollowsInside (Option.map F) (attempt first) (attempt second) :=
  fun tokens htokens => (h tokens htokens).attempt (t.keeps_tail htokens)

end Rules

/-! ## Single tokens -/

section Tokens

variable {f : String → String}

theorem cons_symbol_of_rename {tokens rest : List Token} {text : String}
    (h : renameTokens f tokens = .symbol text :: rest) :
    ∃ more, tokens = .symbol text :: more ∧ rest = renameTokens f more := by
  obtain ⟨token, more, rfl, htoken, rfl⟩ := List.map_eq_cons_iff.1 h
  cases token with
  | symbol other => exact ⟨more, by rw [← htoken]; rfl, rfl⟩
  | _ => simp [Token.rename] at htoken

theorem cons_word_of_rename {tokens rest : List Token} {value keyword : String}
    (h : renameTokens f tokens = .word value keyword :: rest) :
    ∃ other more, tokens = .word other keyword :: more ∧ rest = renameTokens f more := by
  obtain ⟨token, more, rfl, htoken, rfl⟩ := List.map_eq_cons_iff.1 h
  cases token with
  | word other spelling =>
      obtain ⟨-, rfl⟩ := Token.word.inj htoken
      exact ⟨other, more, rfl, rfl⟩
  | _ => simp [Token.rename] at htoken

theorem cons_string_of_rename {tokens rest : List Token} {value : String}
    (h : renameTokens f tokens = .string value :: rest) :
    ∃ other more, tokens = .string other :: more ∧ rest = renameTokens f more := by
  obtain ⟨token, more, rfl, htoken, rfl⟩ := List.map_eq_cons_iff.1 h
  cases token with
  | string other => exact ⟨other, more, rfl, rfl⟩
  | _ => simp [Token.rename] at htoken

@[simp] theorem isKeyword_rename (keyword : String) (token : Token) :
    (token.rename f).isKeyword keyword = token.isKeyword keyword := by
  cases token <;> rfl

@[simp] theorem isOneOf_rename (keywords : List String) (token : Token) :
    (token.rename f).isOneOf keywords = token.isOneOf keywords := by
  cases token <;> rfl

@[simp] theorem rename_beq_symbol (text : String) (token : Token) :
    (token.rename f == .symbol text) = (token == .symbol text) := by
  cases token <;> rfl

end Tokens

theorem carries_peek : t.Carries (Option.map (Token.rename t.rename)) peek := by
  refine follows_get fun tokens => ?_
  cases tokens <;> exact follows_pure rfl (by simp) _

theorem ignores_keyword? (keyword : String) : t.Ignores (keyword? keyword) := by
  refine follows_get fun tokens => ?_
  cases tokens with
  | nil => exact follows_pure rfl (by simp) _
  | cons token rest =>
      simp only [renameTokens, List.map_cons, isKeyword_rename]
      exact followsAt_ite ((follows_pure rfl (by simp)).behind token rest)
        (follows_pure rfl (by simp) _)

theorem Trace.keeps_of_suffix {tokens rest : List Token} (hrest : rest <:+ tokens)
    (h : t.keeps tokens) : t.keeps rest := by
  obtain ⟨front, rfl⟩ := hrest
  induction front with
  | nil => exact h
  | cons token front ih => exact ih (t.keeps_tail h)

theorem ignores_keywords? (keywords : List String) : t.Ignores (keywords? keywords) := by
  refine follows_get fun tokens => ?_
  have hall : ∀ found : List Token,
      ((keywords.zip (renameTokens t.rename found)).all fun pair => pair.2.isKeyword pair.1)
        = (keywords.zip found).all fun pair => pair.2.isKeyword pair.1 := by
    intro found
    rw [renameTokens, List.zip_map_right, List.all_map]
    congr 1
    funext pair
    exact isKeyword_rename pair.1 pair.2
  simp only [renameTokens, ← List.map_take, ← List.map_drop, List.length_map]
  rw [← renameTokens, hall]
  exact followsAt_ite (.set (t.keeps_of_suffix (List.drop_suffix _ _)) (follows_pure rfl (by simp) _))
    (follows_pure rfl (by simp) _)

theorem ignores_oneOf? (keywords : List String) : t.Ignores (oneOf? keywords) := by
  refine follows_get fun tokens => ?_
  match tokens with
  | [] => exact follows_pure rfl (by simp) _
  | .word value spelling :: rest =>
      exact followsAt_ite ((follows_pure rfl (by simp)).behind _ rest) (follows_pure rfl (by simp) _)
  | .number :: _ | .string _ :: _ | .literal :: _ | .parameter :: _ | .symbol _ :: _ =>
      exact follows_pure rfl (by simp) _

theorem ignores_peekOneOf (keywords : List String) : t.Ignores (peekOneOf keywords) := by
  refine carries_peek.bind fun token _ => ?_
  cases token with
  | none => exact follows_pure rfl (by simp)
  | some token => exact follows_pure (isOneOf_rename keywords token).symm (by simp)

theorem ignores_expectKeyword (keyword : String) : t.Ignores (expectKeyword keyword) :=
  (ignores_keyword? keyword).bind fun _ _ => follows_ite follows_fail (follows_pure rfl (by simp))

theorem ignores_expectOneOf (keywords : List String) : t.Ignores (expectOneOf keywords) := by
  refine (ignores_oneOf? keywords).bind fun found _ => ?_
  cases found with
  | none => exact follows_fail
  | some keyword => exact follows_pure rfl (by simp)

theorem ignores_peekSymbol (text : String) : t.Ignores (peekSymbol text) := by
  refine carries_peek.bind fun token _ => ?_
  cases token with
  | none => exact follows_pure rfl (by simp)
  | some token => exact follows_pure (by simp) (by simp)

theorem ignores_symbol? (text : String) : t.Ignores (symbol? text) := by
  refine follows_get fun tokens => ?_
  cases tokens with
  | nil => exact follows_pure rfl (by simp) _
  | cons token rest =>
      simp only [renameTokens, List.map_cons, rename_beq_symbol]
      exact followsAt_ite ((follows_pure rfl (by simp)).behind token rest)
        (follows_pure rfl (by simp) _)

theorem ignores_expectSymbol (text : String) : t.Ignores (expectSymbol text) :=
  (ignores_symbol? text).bind fun _ _ => follows_ite follows_fail (follows_pure rfl (by simp))

theorem carries_next : t.Carries (Token.rename t.rename) next := by
  refine follows_get fun tokens => ?_
  cases tokens with
  | nil => exact follows_fail _
  | cons token rest => exact (follows_pure rfl (by simp)).behind token rest

/-! ## Parentheses -/

section Parentheses

variable {α β : Type} [HoldsQueries α] {F : α → β}

/-- Behind an opening parenthesis a parser only has to follow there. -/
theorem follows_symbol?_open {next : Bool → Parser α} {following : Bool → Parser β}
    (hopen : t.FollowsInside F (next true) (following true))
    (hother : t.Follows F (next false) (following false)) :
    t.Follows F (symbol? "(" >>= next) (symbol? "(" >>= following) := by
  refine fun tokens htokens => (ignores_symbol? "(" tokens htokens).bind ?_
  intro found rest hrun _ hrest
  rcases of_symbol?_eq_ok hrun with ⟨rfl, rfl⟩ | ⟨rfl, rfl⟩
  · exact hopen rest htokens
  · exact hother rest hrest

theorem follows_expectSymbol_open {next : Unit → Parser α} {following : Unit → Parser β}
    (h : t.FollowsInside F (next ()) (following ())) :
    t.Follows F (expectSymbol "(" >>= next) (expectSymbol "(" >>= following) := by
  refine fun tokens htokens => (ignores_expectSymbol "(" tokens htokens).bind ?_
  intro _ rest hrun _ _
  rw [of_expectSymbol_eq_ok hrun] at htokens
  exact h rest htokens

theorem follows_next_open {next' : Token → Parser α} {following : Token → Parser β}
    (hopen : t.FollowsInside F (next' (.symbol "(")) (following (.symbol "(")))
    (hother : ∀ token, token ≠ .symbol "(" →
      t.Follows F (next' token) (following (token.rename t.rename))) :
    t.Follows F (next >>= next') (next >>= following) := by
  refine fun tokens htokens => (carries_next tokens htokens).bind ?_
  intro token rest hrun _ hrest
  by_cases h : token = .symbol "("
  · subst h
    rw [of_next_eq_ok hrun] at htokens
    exact hopen rest htokens
  · exact hother token h rest hrest

theorem followsInside_peekOneOf {keywords : List String} {next : Bool → Parser α}
    {following : Bool → Parser β}
    (h : ∀ found, t.FollowsInside F (next found) (following found)) :
    t.FollowsInside F (peekOneOf keywords >>= next) (peekOneOf keywords >>= following) := by
  refine fun tokens htokens =>
    (ignores_peekOneOf keywords tokens (t.keeps_tail htokens)).bind ?_
  intro found rest hrun _ _
  obtain rfl : rest = tokens := by
    cases tokens with
    | nil => exact (Prod.mk.inj (Except.ok.inj hrun)).2.symm
    | cons token tokens => exact (Prod.mk.inj (Except.ok.inj hrun)).2.symm
  exact h found rest htokens

theorem follows_inParentheses {first : Parser α} {second : Parser β}
    (h : t.FollowsInside F first second) :
    t.Follows F (inParentheses first) (inParentheses second) := by
  refine follows_expectSymbol_open (h.bind fun value hvalue => ?_)
  exact (ignores_expectSymbol ")").bind fun _ _ => follows_pure rfl hvalue

end Parentheses

/-! ## Lists, names and aliases -/

section Lists

variable {α β : Type} [HoldsQueries α] {F : α → β} {first : Parser α} {second : Parser β}

theorem follows_commaList (h : t.Follows F first second) (fuel : Nat) :
    t.Follows (List.map F) (commaList first fuel) (commaList second fuel) := by
  induction fuel with
  | zero => exact follows_fail
  | succ fuel ih =>
      refine h.bind fun value hvalue => (ignores_symbol? ",").bind fun found _ => ?_
      refine follows_ite (ih.bind fun more hmore => ?_) (follows_pure rfl (by simp [hvalue]))
      exact follows_pure rfl (by simp [hvalue, hmore])

theorem follows_commaSeparated (h : t.Follows F first second) :
    t.Follows (List.map F) (commaSeparated first) (commaSeparated second) :=
  follows_fuel (follows_commaList h)

end Lists

theorem carries_identifier : t.Carries t.rename identifier := by
  refine carries_next.bind fun token _ => ?_
  cases token with
  | word value keyword => exact follows_pure rfl (by simp)
  | string value => exact follows_pure rfl (by simp)
  | _ => exact follows_fail

theorem carries_dottedNames (fuel : Nat) : t.Carries (List.map t.rename) (dottedNames fuel) := by
  induction fuel with
  | zero => exact follows_fail
  | succ fuel ih =>
      refine carries_identifier.bind fun first _ => (ignores_symbol? ".").bind fun found _ => ?_
      refine follows_ite (ih.bind fun more _ => ?_) (follows_pure rfl (by simp))
      exact follows_pure rfl (by simp)

theorem carries_objectName : t.Carries (List.map t.rename) objectName :=
  follows_fuel carries_dottedNames

theorem carries_columnNames : t.Carries (List.map t.rename) columnNames :=
  follows_inParentheses (follows_commaSeparated carries_identifier).inside

theorem ignores_stringLiteral : t.Ignores stringLiteral := by
  refine carries_next.bind fun token _ => ?_
  cases token with
  | string value => exact follows_pure rfl (by simp)
  | literal => exact follows_pure rfl (by simp)
  | _ => exact follows_fail

theorem ignores_constant : t.Ignores constant := by
  refine carries_next.bind fun token _ => ?_
  cases token with
  | word value keyword => exact follows_ite (follows_pure rfl (by simp)) follows_fail
  | symbol text => exact follows_ite (follows_pure rfl (by simp)) follows_fail
  | _ => exact follows_pure rfl (by simp)

theorem carries_alias? (reserved : List String) :
    t.Carries (Option.map t.rename) (alias? reserved) := by
  refine (ignores_keyword? "AS").bind fun afterAs _ => follows_get fun tokens => ?_
  have hnone : t.Carries (Option.map t.rename) (if afterAs then fail else pure none) :=
    follows_ite follows_fail (follows_pure rfl (by simp))
  match tokens with
  | [] => exact hnone _
  | .word value spelling :: rest =>
      exact followsAt_ite ((follows_pure rfl (by simp)).behind _ rest) (follows_pure rfl (by simp) _)
  | .string value :: rest => exact (follows_pure rfl (by simp)).behind _ rest
  | .number :: _ | .literal :: _ | .parameter :: _ | .symbol _ :: _ => exact hnone _

/-! ## Data types -/

theorem ignores_typeArguments (fuel : Nat) : t.Ignores (typeArguments fuel) := by
  induction fuel with
  | zero => exact follows_fail
  | succ fuel ih =>
      refine carries_next.bind fun token _ => ?_
      cases token with
      | word value keyword => exact ih
      | string value => exact ih
      | number => exact ih
      | symbol text =>
          simp only [Token.rename]
          split
          · exact follows_pure rfl (by simp)
          · exact ih
          all_goals first | exact ih | exact follows_fail
      | _ => exact follows_fail

theorem ignores_optionalTypeArguments : t.Ignores optionalTypeArguments :=
  (ignores_symbol? "(").bind fun _ _ =>
    follows_ite (follows_fuel ignores_typeArguments) (follows_pure rfl (by simp))

theorem ignores_timeZone? : t.Ignores timeZone? := by
  have hzone : t.Ignores (expectKeyword "TIME" >>= fun _ => expectKeyword "ZONE") :=
    (ignores_expectKeyword _).bind fun _ _ => ignores_expectKeyword _
  refine (ignores_keyword? "WITH").bind fun _ _ => follows_ite hzone ?_
  exact (ignores_keyword? "WITHOUT").bind fun _ _ =>
    follows_ite hzone (follows_pure rfl (by simp))

theorem ignores_elementType : t.Ignores elementType := by
  have hcustom : t.Ignores (do
      let _ ← objectName
      optionalTypeArguments
      return TypeName.custom) :=
    carries_objectName.bind fun _ _ => ignores_optionalTypeArguments.bind fun _ _ =>
      follows_pure rfl (by simp)
  have harguments : t.Ignores (do
      optionalTypeArguments
      return TypeName.builtin) :=
    ignores_optionalTypeArguments.bind fun _ _ => follows_pure rfl (by simp)
  refine follows_get fun tokens => ?_
  match tokens with
  | [] => exact hcustom _
  -- the words of built-in types, one kind after the other, and at last all other names
  | .word value spelling :: rest =>
      refine followsAt_ite ((follows_pure rfl (by simp)).behind _ rest) ?_
      refine followsAt_ite (Trace.Follows.behind ?_ _ rest) ?_
      · exact (ignores_keyword? _).bind fun _ _ => harguments
      refine followsAt_ite (Trace.Follows.behind ?_ _ rest) ?_
      · refine (ignores_keyword? _).bind fun _ _ => ?_
        exact follows_ite ((ignores_keywords? _).bind fun _ _ => harguments) harguments
      refine followsAt_ite (Trace.Follows.behind ?_ _ rest) ?_
      · exact (ignores_keyword? _).bind fun _ _ => harguments
      refine followsAt_ite (Trace.Follows.behind ?_ _ rest) ?_
      · exact ignores_optionalTypeArguments.bind fun _ _ => ignores_timeZone?.bind fun _ _ =>
          follows_pure rfl (by simp)
      refine followsAt_ite (Trace.Follows.behind ?_ _ rest) ?_
      · refine (ignores_expectSymbol "(").bind fun _ _ => ?_
        exact follows_fuel fun fuel =>
          (ignores_typeArguments fuel).bind fun _ _ => follows_pure rfl (by simp)
      refine followsAt_ite (Trace.Follows.behind ?_ _ rest) (hcustom _)
      exact ignores_optionalTypeArguments.bind fun _ _ => (ignores_keyword? _).bind fun _ _ =>
        follows_pure rfl (by simp)
  | .number :: _ | .string _ :: _ | .literal :: _ | .parameter :: _ | .symbol _ :: _ =>
      exact hcustom _

theorem ignores_arrayBrackets (fuel : Nat) : t.Ignores (arrayBrackets fuel) := by
  induction fuel with
  | zero => exact follows_pure rfl (by simp)
  | succ fuel ih =>
      refine (ignores_symbol? "[").bind fun _ _ => follows_ite ?_ (follows_pure rfl (by simp))
      have hrest : t.Ignores (do
          expectSymbol "]"
          let _ ← arrayBrackets fuel
          return true) :=
        (ignores_expectSymbol "]").bind fun _ _ => ih.bind fun _ _ => follows_pure rfl (by simp)
      refine carries_peek.bind fun token _ => ?_
      -- a number is one before and after renaming
      have hnumber : (Option.map (Token.rename t.rename) token == some .number)
          = (token == some .number) := by
        rcases token with _ | token
        · rfl
        · cases token <;> rfl
      rw [hnumber]
      exact follows_ite (carries_next.bind fun _ _ => hrest) hrest

theorem ignores_dataType : t.Ignores dataType := by
  refine ignores_elementType.bind fun element _ => ?_
  refine follows_fuel fun fuel => (ignores_arrayBrackets fuel).bind fun _ _ => ?_
  exact follows_ite (follows_pure rfl (by simp)) (follows_pure rfl (by simp))

theorem ignores_dateField : t.Ignores dateField := by
  refine carries_next.bind fun token _ => ?_
  cases token with
  | word value keyword => exact follows_pure rfl (by simp)
  | string value => exact follows_pure rfl (by simp)
  | _ => exact follows_fail

end RepoPolicy.Sql.Grammar
