import RepoPolicy.Proofs.Sql.Grammar.TracedQueries

set_option autoImplicit false

/-! # Where inner SELECTs come from

A query in parentheses whose first word is `SELECT` is written with an opening parenthesis and that
word next to each other. What is traced here is that no such pair is among the tokens
(`opensSelect`), and that no inner query starts with `SELECT`. So statements have no inner query that
starts with `SELECT` unless such a pair is among their tokens (`statements_selectless`). -/

namespace RepoPolicy.Sql.Grammar

variable {inner : Inner}

/-- Whether an opening parenthesis with the word `SELECT` after it is among the tokens. -/
def opensSelect : List Token → Bool
  | [] => false
  | token :: rest =>
    (token == .symbol "(" && rest.head?.any (Token.isKeyword "SELECT")) || opensSelect rest

theorem opensSelect_of_cons {token : Token} {rest : List Token}
    (h : opensSelect (token :: rest) = false) : opensSelect rest = false := by
  rw [opensSelect, Bool.or_eq_false_iff] at h
  exact h.2

theorem exists_of_opensSelect {tokens : List Token} (h : opensSelect tokens = true) :
    ∃ before select after, tokens = before ++ .symbol "(" :: select :: after ∧
      select.isKeyword "SELECT" = true := by
  induction tokens with
  | nil => exact absurd h (by simp [opensSelect])
  | cons token rest ih =>
      rw [opensSelect, Bool.or_eq_true, Bool.and_eq_true, beq_iff_eq] at h
      rcases h with ⟨rfl, hselect⟩ | hrest
      · obtain ⟨select, hhead, hkeyword⟩ := (Option.any_eq_true _ _).1 hselect
        obtain ⟨after, rfl⟩ := List.head?_eq_some_iff.1 hhead
        exact ⟨[], select, after, rfl, hkeyword⟩
      · obtain ⟨before, select, after, rfl, hkeyword⟩ := ih hrest
        exact ⟨token :: before, select, after, rfl, hkeyword⟩

/-- No parenthesis opens a `SELECT`, and no inner query starts with `SELECT`. -/
def selectless : Trace where
  rename name := name
  keeps tokens := opensSelect tokens = false
  allows query := query.startsWithSelect = false
  rename_callWord _ _ := rfl
  keeps_tail := opensSelect_of_cons
  allows_values _ := rfl

/-! ## How queries begin -/

/-- Set operators leave the first word of a body as it is. -/
theorem gives_intersections (fuel : Nat) (left : Body) :
    Gives (intersections inner fuel left)
      fun found => found.startsWithSelect = left.startsWithSelect := by
  induction fuel generalizing left with
  | zero => exact gives_pure rfl
  | succ fuel ih =>
      refine Gives.after fun _ => gives_ite ?_ (gives_pure rfl)
      exact Gives.after fun _ => Gives.after fun right => ih (.combined left right)

theorem gives_unions (fuel : Nat) (left : Body) :
    Gives (unions inner fuel left) fun found => found.startsWithSelect = left.startsWithSelect := by
  induction fuel generalizing left with
  | zero => exact gives_pure rfl
  | succ fuel ih =>
      refine Gives.after fun operator => ?_
      cases operator with
      | none => exact gives_pure rfl
      | some keyword =>
          exact Gives.after fun _ => Gives.after fun right => ih (.combined left right)

theorem not_isKeyword_of_opensSelect {token : Token} {rest : List Token}
    (h : opensSelect (.symbol "(" :: token :: rest) = false) : ¬token.isKeyword "SELECT" = true := by
  intro htoken
  simp [opensSelect, htoken] at h

/-- Behind an opening parenthesis that opens no `SELECT`, a body starts with another word. -/
theorem simpleBody_enclosed (h : selectless.Level inner) {tokens rest : List Token} {found : Body}
    (htokens : opensSelect (.symbol "(" :: tokens) = false)
    (hrun : simpleBody inner tokens = .ok (found, rest)) : found.startsWithSelect = false := by
  obtain ⟨isSelect, behind, hselect, hother⟩ := bind_eq_ok_iff.1 hrun
  rcases of_keyword?_eq_ok hselect with ⟨-, token, rfl, htoken⟩ | ⟨rfl, rfl⟩
  · exact absurd htoken (not_isKeyword_of_opensSelect htokens)
  rw [if_neg Bool.false_ne_true] at hother
  obtain ⟨isOpen, inside, hopen, hbranch⟩ := bind_eq_ok_iff.1 hother
  rcases of_symbol?_eq_ok hopen with ⟨rfl, rfl⟩ | ⟨rfl, rfl⟩
  · -- a query in parentheses, which are opened by the next token
    rw [if_pos rfl] at hbranch
    obtain ⟨query, closing, hquery, hclosing⟩ := bind_eq_ok_iff.1 hbranch
    have hstart : query.startsWithSelect = false :=
      h.enclosed _ query closing (opensSelect_of_cons htokens) hquery
    exact Gives.after (P := (·.startsWithSelect = false)) (fun _ => gives_pure hstart) closing found
      rest hclosing
  · rw [if_neg Bool.false_ne_true] at hbranch
    refine Gives.after (P := (·.startsWithSelect = false)) (fun isValues => gives_ite ?_ ?_) _ found
      rest hbranch
    · exact Gives.after fun values => gives_pure rfl
    · intro tokens found rest hfail
      rw [fail_run] at hfail
      exact absurd hfail (by simp)

theorem body_enclosed (h : selectless.Level inner) {tokens rest : List Token} {found : Body}
    (htokens : opensSelect (.symbol "(" :: tokens) = false)
    (hrun : body inner tokens = .ok (found, rest)) : found.startsWithSelect = false := by
  obtain ⟨left, more, hleft, hmore⟩ := bind_eq_ok_iff.1 hrun
  obtain ⟨first, others, hfirst, hothers⟩ := bind_eq_ok_iff.1 hleft
  calc found.startsWithSelect
      = left.startsWithSelect := gives_unions _ left more found rest hmore
    _ = first.startsWithSelect := gives_intersections _ first others left more hothers
    _ = false := simpleBody_enclosed h htokens hfirst

/-- A `WITH` clause binds a name, or the tokens stay as they are. -/
theorem of_with?_eq_ok {tokens rest : List Token} {ctes : List Cte}
    (h : with? inner tokens = .ok (ctes, rest)) : ctes ≠ [] ∨ (ctes = [] ∧ rest = tokens) := by
  obtain ⟨isWith, behind, hwith, hbranch⟩ := bind_eq_ok_iff.1 h
  rcases of_keyword?_eq_ok hwith with ⟨rfl, -⟩ | ⟨rfl, rfl⟩
  · rw [if_pos rfl] at hbranch
    have hlist : Gives (keyword? "RECURSIVE" >>= fun _ => commaSeparated (cte inner)) (· ≠ []) :=
      Gives.after fun _ => Gives.after fun _ => gives_commaList _ _
    exact .inl (hlist behind ctes rest hbranch)
  · obtain ⟨rfl, rfl⟩ := Prod.mk.inj (Except.ok.inj hbranch)
    exact .inr ⟨rfl, rfl⟩

theorem query_enclosed (h : selectless.Level inner) {tokens rest : List Token} {found : Query}
    (htokens : opensSelect (.symbol "(" :: tokens) = false)
    (hrun : query inner tokens = .ok (found, rest)) : found.startsWithSelect = false := by
  obtain ⟨ctes, behind, hctes, hquery⟩ := bind_eq_ok_iff.1 hrun
  rcases of_with?_eq_ok hctes with hne | ⟨rfl, rfl⟩
  · -- whatever its body is, the query starts with `WITH`
    obtain ⟨first, others, rfl⟩ := List.exists_cons_of_ne_nil hne
    have hstart : ∀ body clauses,
        Gives (pure (Query.mk (first :: others) body clauses)) (·.startsWithSelect = false) :=
      fun body clauses => gives_pure rfl
    refine Gives.after (P := (·.startsWithSelect = false)) (fun _ => gives_ite ?_ ?_) behind found
      rest hquery
    · exact Gives.after fun change => hstart _ _
    refine Gives.after fun _ => gives_ite (Gives.after fun change => hstart _ _) ?_
    refine Gives.after fun body => Gives.after fun order => Gives.after fun limits => ?_
    exact Gives.after fun fetch => Gives.after fun tokens => Gives.after fun _ => hstart _ _
  · have hchange : ∀ tail : Parser Statement,
        Gives (tail >>= fun change => pure (Query.mk [] (.change change) []))
          (·.startsWithSelect = false) :=
      fun tail => Gives.after fun change => gives_pure rfl
    obtain ⟨isInsert, more, hinsert, hbranch⟩ := bind_eq_ok_iff.1 hquery
    rcases of_keyword?_eq_ok hinsert with ⟨rfl, -⟩ | ⟨rfl, rfl⟩
    · exact hchange _ more found rest hbranch
    rw [if_neg Bool.false_ne_true] at hbranch
    obtain ⟨isUpdate, more', hupdate, hother⟩ := bind_eq_ok_iff.1 hbranch
    rcases of_keyword?_eq_ok hupdate with ⟨rfl, -⟩ | ⟨rfl, rfl⟩
    · exact hchange _ more' found rest hother
    rw [if_neg Bool.false_ne_true] at hother
    obtain ⟨body, clauses, hbody, hclauses⟩ := bind_eq_ok_iff.1 hother
    have hstart : body.startsWithSelect = false := body_enclosed h htokens hbody
    refine Gives.after (P := (·.startsWithSelect = false)) (fun order => ?_) clauses found rest
      hclauses
    refine Gives.after fun limits => Gives.after fun fetch => Gives.after fun tokens => ?_
    exact Gives.after fun _ => gives_pure hstart

/-- **An inner `SELECT` is opened by a parenthesis.** If no opening parenthesis with the word `SELECT`
after it is among the tokens, no query inside the statements starts with `SELECT`. -/
theorem statements_selectless {tokens : List Token} {found : List Statement}
    (htokens : opensSelect tokens = false) (hfound : statements tokens = .ok found) :
    HoldsOnly (·.startsWithSelect = false) found := by
  have hencloses : selectless.Encloses := fun _ h _ _ _ => query_enclosed h
  exact (hencloses.statements htokens).2 found hfound

end RepoPolicy.Sql.Grammar
