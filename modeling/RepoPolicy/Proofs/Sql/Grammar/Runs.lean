import RepoPolicy.Sql.Grammar.Expression

set_option autoImplicit false

/-! # Runs of parsers

What can be said of a parser that has given something: which tokens it has taken, and what its parts
have given before. -/

namespace RepoPolicy.Sql.Grammar

theorem throw_run {α : Type} (cause : SyntaxError) (tokens : List Token) :
    (throw cause : Parser α) tokens = .error cause := rfl

theorem fail_run {α : Type} (tokens : List Token) :
    (fail : Parser α) tokens = .error .unexpected := throw_run _ _

theorem bind_eq_ok_iff {α β : Type} {first : Parser α} {next : α → Parser β} {tokens rest : List Token}
    {value : β} :
    (first >>= next) tokens = .ok (value, rest) ↔
      ∃ middle more, first tokens = .ok (middle, more) ∧ next middle more = .ok (value, rest) := by
  show (first tokens >>= fun (middle, more) => next middle more) = _ ↔ _
  cases hfirst : first tokens with
  | error cause => simp [bind, Except.bind]
  | ok result =>
      obtain ⟨middle, more⟩ := result
      simp only [bind, Except.bind]
      constructor
      · intro h
        exact ⟨middle, more, rfl, h⟩
      · rintro ⟨middle', more', heq, h⟩
        obtain ⟨rfl, rfl⟩ := Prod.mk.inj (Except.ok.inj heq)
        exact h

/-! ## Single tokens -/

/-- A keyword is taken, or the tokens stay as they are. -/
theorem of_keyword?_eq_ok {keyword : String} {tokens rest : List Token} {found : Bool}
    (h : keyword? keyword tokens = .ok (found, rest)) :
    (found = true ∧ ∃ token, tokens = token :: rest ∧ token.isKeyword keyword = true) ∨
      (found = false ∧ rest = tokens) := by
  cases tokens with
  | nil =>
      obtain ⟨rfl, rfl⟩ := Prod.mk.inj (Except.ok.inj h)
      exact .inr ⟨rfl, rfl⟩
  | cons token tokens =>
      change (if token.isKeyword keyword = true then (set tokens >>= fun _ => pure true : Parser Bool)
        else pure false) (token :: tokens) = _ at h
      by_cases htoken : token.isKeyword keyword = true
      · rw [if_pos htoken] at h
        obtain ⟨rfl, rfl⟩ := Prod.mk.inj (Except.ok.inj h)
        exact .inl ⟨rfl, token, rfl, htoken⟩
      · rw [if_neg htoken] at h
        obtain ⟨rfl, rfl⟩ := Prod.mk.inj (Except.ok.inj h)
        exact .inr ⟨rfl, rfl⟩

/-- A symbol is taken, or the tokens stay as they are. -/
theorem of_symbol?_eq_ok {text : String} {tokens rest : List Token} {found : Bool}
    (h : symbol? text tokens = .ok (found, rest)) :
    (found = true ∧ tokens = .symbol text :: rest) ∨ (found = false ∧ rest = tokens) := by
  cases tokens with
  | nil =>
      obtain ⟨rfl, rfl⟩ := Prod.mk.inj (Except.ok.inj h)
      exact Or.inr ⟨rfl, rfl⟩
  | cons token tokens =>
      replace h : (if token == .symbol text then _ else _ : Parser Bool) (token :: tokens) = _ := h
      split at h
      · rename_i htoken
        obtain ⟨rfl, rfl⟩ := Prod.mk.inj (Except.ok.inj h)
        exact Or.inl ⟨rfl, by rw [beq_iff_eq.1 htoken]⟩
      · obtain ⟨rfl, rfl⟩ := Prod.mk.inj (Except.ok.inj h)
        exact Or.inr ⟨rfl, rfl⟩

theorem of_expectSymbol_eq_ok {text : String} {tokens rest : List Token}
    (h : expectSymbol text tokens = .ok ((), rest)) : tokens = .symbol text :: rest := by
  obtain ⟨found, more, hfound, hmore⟩ := bind_eq_ok_iff.1 h
  rcases of_symbol?_eq_ok hfound with ⟨rfl, rfl⟩ | ⟨rfl, rfl⟩
  · obtain ⟨-, rfl⟩ := Prod.mk.inj (Except.ok.inj hmore)
    rfl
  · replace hmore : fail _ = _ := hmore
    rw [fail_run] at hmore
    exact absurd hmore (by simp)

theorem of_next_eq_ok {tokens rest : List Token} {token : Token}
    (h : next tokens = .ok (token, rest)) : tokens = token :: rest := by
  cases tokens with
  | nil =>
      replace h : fail [] = _ := h
      rw [fail_run] at h
      exact absurd h (by simp)
  | cons first tokens =>
      obtain ⟨rfl, rfl⟩ := Prod.mk.inj (Except.ok.inj h)
      rfl

/-- What is attempted is read, or the tokens stay as they are. -/
theorem of_attempt_eq_ok {α : Type} {parser : Parser α} {tokens rest : List Token} {value : Option α}
    (h : attempt parser tokens = .ok (value, rest)) :
    (∃ found, value = some found ∧ parser tokens = .ok (found, rest)) ∨
      (value = none ∧ rest = tokens) := by
  rw [attempt] at h
  cases hrun : parser.run tokens with
  | ok result =>
      obtain ⟨found, more⟩ := result
      simp only [hrun] at h
      obtain ⟨rfl, rfl⟩ := Prod.mk.inj (Except.ok.inj h)
      exact Or.inl ⟨found, rfl, hrun⟩
  | error cause =>
      cases cause with
      -- a nesting that is too deep is no reason to try something else
      | tooDeep => simp [hrun] at h
      | badToken | unexpected =>
          simp only [hrun] at h
          obtain ⟨rfl, rfl⟩ := Prod.mk.inj (Except.ok.inj h)
          exact Or.inr ⟨rfl, rfl⟩

/-- A star behind names is read off the front. -/
theorem suffix_of_qualifiedStar {tokens rest : List Token}
    (h : qualifiedStar tokens = some rest) : rest <:+ tokens := by
  fun_induction qualifiedStar tokens with
  | case1 more => exact Option.some.inj h ▸ List.suffix_append [_, _] more
  | case2 value keyword more ih => exact (ih h).trans (List.suffix_append [_, _] more)
  | case3 value more ih => exact (ih h).trans (List.suffix_append [_, _] more)
  | case4 => exact absurd h (by simp)

/-! ## Properties of results -/

section Gives

variable {α β : Type}

def Gives (parser : Parser α) (P : α → Prop) : Prop :=
  ∀ tokens value rest, parser tokens = .ok (value, rest) → P value

theorem gives_pure {P : α → Prop} {value : α} (h : P value) : Gives (pure value) P := by
  intro tokens value' rest hrun
  obtain ⟨rfl, -⟩ := Prod.mk.inj (Except.ok.inj hrun)
  exact h

theorem Gives.after {P : α → Prop} {first : Parser β} {next : β → Parser α}
    (h : ∀ value, Gives (next value) P) : Gives (first >>= next) P := by
  intro tokens value rest hrun
  obtain ⟨middle, more, -, hmore⟩ := bind_eq_ok_iff.1 hrun
  exact h middle more value rest hmore

theorem gives_ite {P : α → Prop} {condition : Prop} [Decidable condition] {yes no : Parser α}
    (hyes : Gives yes P) (hno : Gives no P) : Gives (if condition then yes else no) P := by
  by_cases h : condition
  · rw [if_pos h]
    exact hyes
  · rw [if_neg h]
    exact hno

theorem gives_commaList (item : Parser α) (fuel : Nat) : Gives (commaList item fuel) (· ≠ []) := by
  cases fuel with
  | zero =>
      intro tokens value rest hrun
      rw [commaList, fail_run] at hrun
      exact absurd hrun (by simp)
  | succ fuel =>
      refine Gives.after fun first => Gives.after fun _ => gives_ite ?_ (gives_pure (by simp))
      exact Gives.after fun more => gives_pure (by simp)

end Gives

end RepoPolicy.Sql.Grammar
