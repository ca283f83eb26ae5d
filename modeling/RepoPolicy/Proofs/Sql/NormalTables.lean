import RepoPolicy.Proofs.Sql.AgreedReading
import RepoPolicy.Proofs.Sql.Grammar.TracedQueries

set_option autoImplicit false

/-! # The tables of a normal form

The normal form of a text has the tokens of the text with the contents of strings left out, if both
readers see the text alike. The grammar hands the contents of strings on as names and never looks at
them, so the tree of the normal form is the tree of the text with empty names for those that were
written as strings. Where no table and no `WITH` name is written so, the text and its normal form have
the same tables (`normalize_keeps_references`). -/

namespace RepoPolicy.Sql

open RepoPolicy.Text Grammar

/-! ## Names that are words -/

/-- Whether the name that a step passes has no empty part. -/
def Step.isNamed : Step → Bool
  | .relation name => name.all (· != "")
  | .binding name => name != ""
  | _ => true

/-- Whether no table and no `WITH` name is written as a string: if the strings among the tokens are
emptied, no name has an empty part. -/
def namedByWords (sql : String) : Bool :=
  match tokenize sql with
  | .ok found =>
    match statements (found.map Token.emptied) with
    | .ok parsed => (parsed.flatMap Statement.walk).all Step.isNamed
    | .error _ => true
  | .error _ => true

/-! ## Emptying strings is renaming

A renaming does not know whether a name was a word or a string. So the tokens are marked first, and
both the tokens and the emptied tokens are the marked ones under a renaming. -/

def Token.marked : Token → Token
  | .word value keyword => .word (String.ofList ('w' :: value.toList)) keyword
  | .string value => .string (String.ofList ('s' :: value.toList))
  | token => token

/-- The name that was marked. The names that the grammar itself gives are not marked. -/
def unmark (name : String) : String :=
  if name ∈ callWords then name else String.ofList (name.toList.drop 1)

/-- The name that was marked, but an empty one for a string. -/
def unmarkEmptied (name : String) : String :=
  if name ∈ callWords then name
  else if name.toList.head? = some 's' then "" else String.ofList (name.toList.drop 1)

theorem unmark_callWord : ∀ word ∈ callWords, unmark word = word :=
  fun _ hword => if_pos hword

theorem unmarkEmptied_callWord : ∀ word ∈ callWords, unmarkEmptied word = word :=
  fun _ hword => if_pos hword

theorem marked_not_mem_callWords {mark : Char} (hmark : mark = 'w' ∨ mark = 's') (value : List Char) :
    String.ofList (mark :: value) ∉ callWords := by
  have hcapital : ∀ word ∈ callWords, word.toList.head? ≠ some 'w' ∧ word.toList.head? ≠ some 's' := by
    decide
  intro hmem
  have hhead := hcapital _ hmem
  rw [String.toList_ofList] at hhead
  rcases hmark with rfl | rfl
  · exact hhead.1 rfl
  · exact hhead.2 rfl

theorem renameTokens_unmark (tokens : List Token) :
    renameTokens unmark (tokens.map Token.marked) = tokens := by
  have hunmark : ∀ {mark : Char}, mark = 'w' ∨ mark = 's' → ∀ value : String,
      unmark (String.ofList (mark :: value.toList)) = value := by
    intro mark hmark value
    rw [unmark, if_neg (marked_not_mem_callWords hmark _), String.toList_ofList, List.drop_succ_cons,
      List.drop_zero, String.ofList_toList]
  have htoken : ∀ token : Token, token.marked.rename unmark = token := by
    intro token
    cases token with
    | word value keyword => rw [Token.marked, Token.rename, hunmark (.inl rfl)]
    | string value => rw [Token.marked, Token.rename, hunmark (.inr rfl)]
    | _ => rfl
  rw [renameTokens, List.map_map]
  exact (List.map_congr_left fun token _ => htoken token).trans (List.map_id _)

theorem renameTokens_unmarkEmptied (tokens : List Token) :
    renameTokens unmarkEmptied (tokens.map Token.marked) = tokens.map Token.emptied := by
  have htoken : ∀ token : Token, token.marked.rename unmarkEmptied = token.emptied := by
    intro token
    cases token with
    | word value keyword =>
        rw [Token.marked, Token.rename, unmarkEmptied,
          if_neg (marked_not_mem_callWords (.inl rfl) _), if_neg (by simp), String.toList_ofList,
          List.drop_succ_cons, List.drop_zero, String.ofList_toList]
        rfl
    | string value =>
        rw [Token.marked, Token.rename, unmarkEmptied,
          if_neg (marked_not_mem_callWords (.inr rfl) _), if_pos (by simp)]
        rfl
    | _ => rfl
  rw [renameTokens, List.map_map]
  exact List.map_congr_left fun token _ => htoken token

/-! ## The same names -/

theorem unmark_eq_of_ne {name : String} (h : unmarkEmptied name ≠ "") :
    unmark name = unmarkEmptied name := by
  unfold unmarkEmptied at h ⊢
  split
  · rename_i hword
    rw [unmark, if_pos hword]
  · rename_i hword
    rw [if_neg hword] at h
    split
    · rename_i hstring
      exact absurd (if_pos hstring) h
    · rw [unmark, if_neg hword]

theorem rename_eq_of_isNamed {step : Step} (h : (step.rename unmarkEmptied).isNamed = true) :
    step.rename unmark = step.rename unmarkEmptied := by
  cases step with
  | relation name =>
      simp only [Step.rename, Step.isNamed, List.all_map, List.all_eq_true, Function.comp, bne_iff_ne]
        at h
      simp only [Step.rename]
      rw [List.map_congr_left fun part hpart => unmark_eq_of_ne (h part hpart)]
  | binding name =>
      simp only [Step.rename, Step.isNamed, bne_iff_ne] at h
      simp only [Step.rename, unmark_eq_of_ne h]
  | _ => rfl

def referencesOf (parsed : Except SyntaxError (List Statement)) (limit : Nat) :
    Except ExtractionError References :=
  match parsed with
  | .error cause => .error (.notSql cause)
  | .ok [] => .error .empty
  | .ok statements =>
    match treeReferences statements limit with
    | some references => .ok references
    | none => .error (.treeTooDeep limit)

theorem parseReferences_eq (sql : String) (limit : Nat) :
    parseReferences sql limit = referencesOf (parseStatements sql) limit := rfl

theorem flatMap_walk_rename (f : String → String) (parsed : List Statement) :
    (parsed.map (Statement.rename f)).flatMap Statement.walk
      = (parsed.flatMap Statement.walk).map (Step.rename f) := by
  simp only [List.flatMap_map, List.map_flatMap, Statement.walk_rename]

/-- Emptied strings do not change the references, unless an empty name shows them. -/
theorem referencesOf_emptied {found : List Token}
    (h : ∀ parsed, statements (found.map Token.emptied) = .ok parsed →
      (parsed.flatMap Statement.walk).all Step.isNamed = true) (limit : Nat) :
    referencesOf (statements (found.map Token.emptied)) limit
      = referencesOf (statements found) limit := by
  -- both texts are the marked one under a renaming: one takes the marks off, one also empties
  -- strings
  have hwords := statements_rename unmark_callWord (found.map Token.marked)
  have hemptied := statements_rename unmarkEmptied_callWord (found.map Token.marked)
  rw [renameTokens_unmark] at hwords
  rw [renameTokens_unmarkEmptied] at hemptied
  rw [hemptied] at h
  rw [hwords, hemptied]
  cases hmarked : statements (found.map Token.marked) with
  | error cause => rfl
  | ok parsed =>
      rw [hmarked] at h
      have hnamed := h _ rfl
      rw [flatMap_walk_rename, List.all_map, List.all_eq_true] at hnamed
      -- the two renamings differ on strings only, and a named step has none of them as its name
      have hwalk : (parsed.flatMap Statement.walk).map (Step.rename unmark)
          = (parsed.flatMap Statement.walk).map (Step.rename unmarkEmptied) :=
        List.map_congr_left fun step hstep => rename_eq_of_isNamed (hnamed step hstep)
      have htree : treeReferences (parsed.map (Statement.rename unmarkEmptied)) limit
          = treeReferences (parsed.map (Statement.rename unmark)) limit := by
        rw [treeReferences, treeReferences, flatMap_walk_rename, flatMap_walk_rename, hwalk]
      cases parsed with
      | nil => rfl
      | cons first more =>
          simp only [Except.map, List.map_cons, referencesOf] at htree ⊢
          rw [htree]

/-! ## The tables of the normal form -/

theorem tokenize_normalize {sql : String} {found : List Lexeme}
    (h : lexemes sql.toList.length sql.toList = .ok found)
    (halike : allReadAlike .edge found = true) :
    tokenize (normalize sql) = .ok ((found.filterMap Lexeme.token?).map Token.emptied) := by
  rw [tokenize, normalize, String.toList_ofList, normalForm_eq_spell h halike]
  exact tokens_spell h (Nat.le_refl _)

/-- **Normalizing keeps the tables and the `WITH` names of a text** that both readers see alike and
in which no table is named by a string: the same are found in the normal form under every limit, and
where the text cannot be parsed or is nested too deep, so it is with its normal form. -/
theorem normalize_keeps_references (sql : String) (halike : readsAlike sql = true)
    (hnames : namedByWords sql = true) (limit : Nat) :
    parseReferences (normalize sql) limit = parseReferences sql limit := by
  unfold readsAlike at halike
  split at halike
  · rename_i found hfound
    have htokens : tokenize sql = .ok (found.filterMap Lexeme.token?) := by
      rw [tokenize, tokens_eq_map_lexemes, hfound]
      rfl
    have hnormal := tokenize_normalize hfound halike
    simp only [namedByWords, htokens] at hnames
    have hnamed : ∀ parsed,
        statements ((found.filterMap Lexeme.token?).map Token.emptied) = .ok parsed →
          (parsed.flatMap Statement.walk).all Step.isNamed = true := by
      intro parsed hparsed
      rw [hparsed] at hnames
      exact hnames
    have hreferences := referencesOf_emptied hnamed limit
    rw [parseReferences_eq, parseReferences_eq, parseStatements, parseStatements, htokens, hnormal]
    exact hreferences
  · cases halike

/-- A query with comments, strings that hold quotes, a parameter, a `$` in a name and quoted names. -/
def annotatedQuery : String :=
  "WITH \"Old\" AS (SELECT e'\\'' FROM logs$1 -- old\n) SELECT 'it''s', $1 /* a */\n" ++
    "FROM Public.\"Or der\" o, Old, f('x')"

theorem references_of_annotatedQuery :
    readsAlike annotatedQuery = true ∧ namedByWords annotatedQuery = true ∧
      (∀ limit, parseReferences (normalize annotatedQuery) limit
        = parseReferences annotatedQuery limit) ∧
      (parseReferences annotatedQuery 3).toOption
        = some ⟨["Old", "Public.Or der", "logs$1"], ["old"]⟩ :=
  have halike : readsAlike annotatedQuery = true := by decide +kernel
  have hnames : namedByWords annotatedQuery = true := by decide +kernel
  ⟨halike, hnames, normalize_keeps_references annotatedQuery halike hnames, by decide +kernel⟩

/-- A `$` inside a name opens a dollar quote in the normal form, and so hides what is behind it: the
second table is not found there. -/
theorem normalize_hides_table_behind_dollar :
    (parseReferences "SELECT x FROM a$b$, secret$b$" 64).toOption
        = some ⟨["a$b$", "secret$b$"], []⟩ ∧
      normalize "SELECT x FROM a$b$, secret$b$" = "SELECT x FROM a''" ∧
      (parseReferences (normalize "SELECT x FROM a$b$, secret$b$") 64).toOption
        = some ⟨["a"], []⟩ := by
  decide +kernel

end RepoPolicy.Sql
