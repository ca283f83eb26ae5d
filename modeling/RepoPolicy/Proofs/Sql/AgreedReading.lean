import RepoPolicy.Proofs.Sql.Respelling
import RepoPolicy.Proofs.Text.Occurrences

set_option autoImplicit false

/-! # Where the two readers of a text agree

One reader splits a SQL text into tokens and another one writes its normal form. `readsAlike` says,
lexeme by lexeme, that they see the same quotes and comments: no comment inside a comment, no
backslash that only one of them takes for an escape, and no quote, comment or dollar quote that the
other reader would see inside a token. The normal form is then what is spelled for the tokens
(`normalForm_eq_spell`). -/

namespace RepoPolicy.Sql

open RepoPolicy.Text

/-! ## What is seen alike -/

/-- Whether the text of a token is nothing but code when `left` is behind it: no blank, no quote, and
nothing that opens a comment or a dollar quote. -/
def isCode : List Char → List Char → Bool
  | [], _ => true
  | c :: rest, left =>
    !isBlank c && c != '\'' && c != '"' && !(c == '-' && (rest ++ left).head? == some '-') &&
      !(c == '/' && (rest ++ left).head? == some '*') &&
      !(c == '$' && opensDollarQuote [] (rest ++ left)) && isCode rest left

/-- Whether a comment is opened in a text, when `previous` is the character before it. -/
def opensComment : Char → List Char → Bool
  | _, [] => false
  | previous, c :: rest => previous == '/' && c == '*' || opensComment c rest

/-- Whether both readers see a lexeme alike, when `left` is the text behind it. -/
def Lexeme.readsAlike (preceding : Preceding) (lexeme : Lexeme) (left : List Char) : Bool :=
  match lexeme.token?, lexeme.text with
  | none, '/' :: '*' :: contents => !opensComment ' ' contents
  | none, _ => true
  | some (.string _), text => preceding != .escapeLetter || !text.contains '\\'
  | some .literal, c :: '\'' :: text =>
    (preceding.next c == .escapeLetter) == (c == 'e' || c == 'E') || !text.contains '\\'
  | some .literal, _ :: '&' :: '\'' :: _ => true
  | some _, '"' :: _ => true
  | some _, text => isCode text left

def Lexeme.preceding (preceding : Preceding) (lexeme : Lexeme) : Preceding :=
  match lexeme.token? with
  | none => .edge
  | some _ => lexeme.text.foldl Preceding.next preceding

def allReadAlike : Preceding → List Lexeme → Bool
  | _, [] => true
  | preceding, lexeme :: more =>
    lexeme.readsAlike preceding (more.flatMap Lexeme.text) &&
      allReadAlike (lexeme.preceding preceding) more

/-- Whether both readers see the same tokens and gaps in a SQL text. -/
def readsAlike (sql : String) : Bool :=
  match lexemes sql.toList.length sql.toList with
  | .ok found => allReadAlike .edge found
  | .error _ => false

/-! ## Reading code -/

theorem finish_code {preceding : Preceding} {written text left : List Char}
    (h : isCode text left = true) :
    (readFrom ⟨.code preceding, written⟩ (text ++ left)).finish
      = (readFrom ⟨.code (text.foldl Preceding.next preceding), text.reverse ++ written⟩ left).finish := by
  induction text generalizing preceding written with
  | nil => rfl
  | cons c rest ih =>
      simp only [isCode, Bool.and_eq_true, Bool.not_eq_true', Bool.and_eq_false_imp, bne_iff_ne,
        beq_iff_eq, beq_eq_false_iff_ne] at h
      obtain ⟨⟨⟨⟨⟨⟨hblank, hquote⟩, hname⟩, hdash⟩, hslash⟩, hdollar⟩, hrest⟩ := h
      have hbehind : ((c :: rest).reverse ++ written) = rest.reverse ++ c :: written := by simp
      rw [List.cons_append, readFrom_cons, List.foldl_cons, hbehind, ← ih hrest]
      -- only these three may open something, and what follows them here does not complete it
      by_cases hisDash : c = '-'
      · subst hisDash
        exact congrArg Prod.fst (outcome_dash (hdash rfl))
      by_cases hisSlash : c = '/'
      · subst hisSlash
        exact congrArg Prod.fst (outcome_slash (hslash rfl))
      by_cases hisDollar : c = '$'
      · subst hisDollar
        exact congrArg Prod.fst (outcome_dollar (hdollar rfl))
      · simp [step, stepCode, hisDash, hisSlash, hisDollar, hquote, hname, hblank]

/-! ## Reading quotes and comments -/

/-- Without a backslash it does not matter whether one would escape. -/
theorem quotesPaired_eq_of_not_mem {body : List Char} (h : '\\' ∉ body) (escapes : Bool) :
    quotesPaired escapes body = quotesPaired false body := by
  fun_induction quotesPaired false body with
  | case1 => rfl
  | case2 c =>
      have hc : c ≠ '\\' := fun hc => h (by simp [hc])
      simp [quotesPaired, hc]
  | case3 c d rest hc ih => simp at hc
  | case4 c d rest hc hq ih =>
      have hslash : c ≠ '\\' := fun hc => h (by simp [hc])
      rw [quotesPaired, if_neg (by simp [hslash]), if_pos hq,
        ih fun hmem => h (List.mem_cons_of_mem _ (List.mem_cons_of_mem _ hmem))]
  | case5 c d rest hc hq ih =>
      have hslash : c ≠ '\\' := fun hc => h (by simp [hc])
      rw [quotesPaired, if_neg (by simp [hslash]), if_neg hq,
        ih fun hmem => h (List.mem_cons_of_mem _ hmem)]

/-- A quoted text is passed over, if the reader takes the same backslashes for escapes. -/
theorem finish_literal {preceding : Preceding} {written body left : List Char}
    (hbody : quotesPaired (preceding == .escapeLetter) body = true)
    (hleft : left.head? ≠ some '\'') :
    (readFrom ⟨.code preceding, written⟩ ('\'' :: (body ++ '\'' :: left))).finish
      = (readFrom ⟨.code .edge, '\'' :: '\'' :: written⟩ left).finish := by
  have hopen : step ⟨.code preceding, written⟩ '\''
      = ⟨.literal (preceding == .escapeLetter), '\'' :: written⟩ := rfl
  have hclose : ∀ escapes, step ⟨.literal escapes, '\'' :: written⟩ '\''
      = ⟨.literalQuote escapes, '\'' :: written⟩ := by
    intro escapes
    simp [step]
  rw [readFrom_cons, hopen, readFrom_append, readFrom_literal hbody, readFrom_cons, hclose]
  exact congrArg Prod.fst (outcome_literalQuote hleft)

theorem readFrom_quotedName {written body : List Char} (h : Doubled '"' body) :
    readFrom ⟨.quotedName, written⟩ (body ++ ['"']) = ⟨.code .edge, '"' :: (body.reverse ++ written)⟩ := by
  induction h generalizing written with
  | nil => rfl
  | @twice body hbody ih =>
      rw [List.cons_append, List.cons_append, readFrom_cons, readFrom_cons]
      have hagain : step (step ⟨.quotedName, written⟩ '"') '"' = ⟨.quotedName, '"' :: '"' :: written⟩ :=
        rfl
      rw [hagain, ih]
      simp
  | @other c body hc hbody ih =>
      have hstays : step ⟨.quotedName, written⟩ c = ⟨.quotedName, c :: written⟩ := by simp [step, hc]
      rw [List.cons_append, readFrom_cons, hstays, ih]
      simp

theorem exists_append_of_skipComment {depth : Nat} {previous : Char} {text left : List Char}
    (h : skipComment depth previous text = .ok left) : ∃ used, text = used ++ left := by
  fun_induction skipComment depth previous text with
  | case1 => cases h
  | case2 depth previous c rest _ ih =>
      obtain ⟨used, rfl⟩ := ih h
      exact ⟨c :: used, rfl⟩
  | case3 depth previous c rest _ _ _ =>
      obtain rfl := Except.ok.inj h
      exact ⟨[c], rfl⟩
  | case4 depth previous c rest _ _ _ ih =>
      obtain ⟨used, rfl⟩ := ih h
      exact ⟨c :: used, rfl⟩
  | case5 depth previous c rest _ _ ih =>
      obtain ⟨used, rfl⟩ := ih h
      exact ⟨c :: used, rfl⟩

/-- A block comment without a comment inside it ends for both readers at the same place. -/
theorem readFrom_of_skipComment {previous : Char} {text left : List Char}
    (h : skipComment 1 previous text = .ok left) (written : List Char) :
    ∃ used, text = used ++ left ∧ (opensComment previous used = false →
      readFrom ⟨.blockComment (previous == '*'), written⟩ used
        = ⟨.code .edge, pushSpace written⟩) := by
  induction text generalizing previous with
  | nil => cases h
  | cons c rest ih =>
      rw [skipComment] at h
      by_cases hopens : (previous == '/' && c == '*') = true
      -- a comment is opened inside, which is ruled out of what is claimed
      · rw [if_pos hopens] at h
        obtain ⟨used, rfl⟩ := exists_append_of_skipComment h
        exact ⟨c :: used, rfl, fun hnone => by simp [opensComment, hopens] at hnone⟩
      rw [if_neg hopens] at h
      by_cases hcloses : (previous == '*' && c == '/') = true
      · rw [if_pos hcloses, if_pos (Nat.le_refl 1)] at h
        obtain rfl := Except.ok.inj h
        exact ⟨[c], rfl, fun _ => by simp [step, hcloses]⟩
      · rw [if_neg hcloses] at h
        obtain ⟨used, rfl, hread⟩ := ih h
        refine ⟨c :: used, rfl, fun hnone => ?_⟩
        rw [opensComment, Bool.or_eq_false_iff] at hnone
        rw [readFrom_cons, ← hread hnone.2]
        simp [step, hcloses]

/-! ## Reading a lexeme -/

theorem gap_cases {c : Char} {rest left : List Char} (h : readToken c rest = .ok (none, left)) :
    isBlank c = true ∧ left = rest ∨
      (∃ body, c = '-' ∧ rest = '-' :: (body ++ left) ∧ '\n' ∉ body ∧
        (left = [] ∨ ∃ more, left = '\n' :: more)) ∨
      ∃ text, c = '/' ∧ rest = '*' :: text ∧ skipComment 1 ' ' text = .ok left := by
  -- what is read otherwise is a token
  have htoken : ∀ {result : Lexed Token} {tagged : Token × List Char → Option Token × List Char},
      (∀ read, (tagged read).1 ≠ none) → result.map tagged ≠ .ok (none, left) := by
    intro result tagged htagged hresult
    obtain ⟨read, -, heq⟩ := map_eq_ok hresult
    exact htagged read (congrArg Prod.fst heq)
  unfold readToken at h
  dsimp only at h
  split at h
  · rename_i hblank
    exact .inl ⟨hblank, (Prod.mk.inj (Except.ok.inj h)).2.symm⟩
  right
  split at h
  · rename_i text _
    obtain ⟨-, rfl⟩ := Prod.mk.inj (Except.ok.inj h)
    refine .inl ⟨text.takeWhile (· != '\n'), rfl, ?_, ?_, ?_⟩
    · rw [List.takeWhile_append_dropWhile]
    · intro hmem
      simpa using List.all_eq_true.1 List.all_takeWhile _ hmem
    · cases hleft : text.dropWhile (· != '\n') with
      | nil => exact .inl rfl
      | cons d more =>
          have hhead := List.head?_dropWhile_not (· != '\n') text
          rw [hleft] at hhead
          exact .inr ⟨more, by simpa using hhead⟩
  · rename_i text _
    obtain ⟨after, hskip, heq⟩ := map_eq_ok h
    obtain ⟨-, rfl⟩ := Prod.mk.inj heq
    exact .inr ⟨text, rfl, rfl, hskip⟩
  · exact absurd h (htoken fun _ => by simp)
  · exact absurd h (htoken fun _ => by simp)
  · simp at h
  · split at h
    · exact absurd h (htoken fun _ => by simp)
    split at h
    · exact absurd h (htoken fun _ => by simp)
    split at h
    · simp at h
    · simp at h

/-- A gap is read as a space. A line comment is read as nothing, since the end of its line is not a
part of it. -/
theorem finish_gap {c : Char} {rest left written : List Char} {preceding : Preceding}
    (h : readToken c rest = .ok (none, left))
    (halike : (⟨none, c :: rest.take (rest.length - left.length)⟩ : Lexeme).readsAlike preceding left
      = true) :
    ∃ written', (readFrom ⟨.code preceding, written⟩ (c :: rest)).finish
        = (readFrom ⟨.code .edge, written'⟩ left).finish ∧
      (written' = pushSpace written ∨
        written' = written ∧ (left = [] ∨ ∃ more, left = '\n' :: more)) := by
  -- a blank, a comment up to the end of its line, and a block comment
  rcases gap_cases h with ⟨hblank, rfl⟩ | ⟨body, rfl, rfl, hbody, hleft⟩ | ⟨text, rfl, rfl, hskip⟩
  · refine ⟨pushSpace written, ?_, .inl rfl⟩
    have hspecial : c ∉ ['-', '/', '\'', '"', '$'] := by
      intro hmem
      have hall : ∀ d ∈ ['-', '/', '\'', '"', '$'], isBlank d = false :=
        forall_mem_letters (by decide)
      exact absurd (hall c hmem) (by simp [hblank])
    simp only [List.mem_cons, List.not_mem_nil, or_false, not_or] at hspecial
    simp [step, stepCode, hspecial, hblank]
  · refine ⟨written, ?_, .inr ⟨rfl, hleft⟩⟩
    have hopen : step (step ⟨.code preceding, written⟩ '-') '-' = ⟨.lineComment, written⟩ := rfl
    rw [readFrom_cons, readFrom_cons, hopen, readFrom_append, readFrom_lineComment hbody]
    rcases hleft with rfl | ⟨more, rfl⟩ <;> rfl
  · refine ⟨pushSpace written, ?_, .inl rfl⟩
    obtain ⟨used, rfl, hread⟩ := readFrom_of_skipComment hskip written
    have hopen : step (step ⟨.code preceding, written⟩ '/') '*' = ⟨.blockComment false, written⟩ := rfl
    rw [text_eq_of_append (List.cons_append).symm] at halike
    have hinner : opensComment ' ' used = false := by simpa [Lexeme.readsAlike] using halike
    rw [readFrom_cons, readFrom_cons, hopen, readFrom_append]
    exact congrArg (fun reading => (readFrom reading left).finish) (hread hinner)

theorem foldl_next_quote (preceding : Preceding) (text : List Char) {quote : Char}
    (hquote : quote = '\'' ∨ quote = '"') :
    (text ++ [quote]).foldl Preceding.next preceding = .edge := by
  rw [List.foldl_append]
  rcases hquote with rfl | rfl <;> rfl

theorem step_literalLetter {c : Char} (hc : c ∈ literalLetters) (preceding : Preceding)
    (written : List Char) :
    step ⟨.code preceding, written⟩ c = ⟨.code (preceding.next c), c :: written⟩ := by
  have hletters : ∀ d ∈ literalLetters, d ∉ ['-', '/', '\'', '"', '$'] ∧ isBlank d = false :=
    forall_mem_letters (by decide)
  obtain ⟨hspecial, hblank⟩ := hletters c hc
  simp only [List.mem_cons, List.not_mem_nil, or_false, not_or] at hspecial
  simp [step, stepCode, hspecial, hblank]

theorem readsAlike_verbatim {token : Token} {c : Char} {used left : List Char}
    {preceding : Preceding} (hstring : ∀ value, token ≠ .string value)
    (hliteral : token = .literal → used.head? ≠ some '\'' ∧ used.head? ≠ some '&') (hc : c ≠ '"')
    (h : (⟨some token, c :: used⟩ : Lexeme).readsAlike preceding left = true) :
    isCode (c :: used) left = true := by
  unfold Lexeme.readsAlike at h
  -- gaps, strings, literals and quoted names have cases of their own, and none of them is here
  split at h
  · rename_i htoken _
    cases htoken
  · rename_i htoken _
    cases htoken
  · rename_i value htoken
    exact absurd (Option.some.inj htoken) (hstring value)
  · rename_i htoken htext
    obtain ⟨-, rfl⟩ := List.cons.inj htext
    exact absurd rfl (hliteral (Option.some.inj htoken)).1
  · rename_i htoken htext
    obtain ⟨-, rfl⟩ := List.cons.inj htext
    exact absurd rfl (hliteral (Option.some.inj htoken)).2
  · rename_i htext
    exact absurd (List.cons.inj htext).1 hc
  · exact h

/-- A lexeme is read as the text spelled for it, which does not end with a blank. -/
def ReadAsSpelled (preceding : Preceding) (lexeme : Lexeme) (text left : List Char) : Prop :=
  (∃ front last, lexeme.spelling = front ++ [last] ∧ isBlank last = false) ∧
    ∀ written, (readFrom ⟨.code preceding, written⟩ text).finish
      = (readFrom ⟨.code (lexeme.preceding preceding), lexeme.spelling.reverse ++ written⟩
          left).finish

section ReadAsSpelled

variable {preceding : Preceding} {body left : List Char}

/-- What is read by a quote in the end stands before nothing. -/
theorem readAsSpelled_of_quote {lexeme : Lexeme} {text : List Char} {token : Token} {quote : Char}
    (front spelled : List Char) (hquote : quote = '\'' ∨ quote = '"')
    (hlexeme : lexeme = ⟨some token, front ++ [quote]⟩)
    (hspelling : lexeme.spelling = spelled ++ [quote])
    (hread : ∀ written, (readFrom ⟨.code preceding, written⟩ text).finish
      = (readFrom ⟨.code .edge, quote :: (spelled.reverse ++ written)⟩ left).finish) :
    ReadAsSpelled preceding lexeme text left := by
  refine ⟨⟨spelled, quote, hspelling, ?_⟩, fun written => ?_⟩
  · rcases hquote with rfl | rfl <;> decide
  · have hedge : lexeme.preceding preceding = .edge := by
      rw [hlexeme]
      exact foldl_next_quote preceding front hquote
    rw [hread, hedge, hspelling]
    simp

theorem readAsSpelled_string {value : String} (hbody : quotesPaired false body = true)
    (hleft : left.head? ≠ some '\'')
    (halike : (⟨some (.string value), '\'' :: (body ++ ['\''])⟩ : Lexeme).readsAlike preceding left
      = true) :
    ReadAsSpelled preceding ⟨some (.string value), '\'' :: (body ++ ['\''])⟩
      ('\'' :: (body ++ '\'' :: left)) left := by
  have hpaired : quotesPaired (preceding == .escapeLetter) body = true := by
    simp only [Lexeme.readsAlike, Bool.or_eq_true, bne_iff_ne, Bool.not_eq_true'] at halike
    rcases halike with hplain | hslash
    · rw [beq_eq_false_iff_ne.2 hplain]
      exact hbody
    · rw [quotesPaired_eq_of_not_mem (fun hmem => by simp [hmem] at hslash)]
      exact hbody
  exact readAsSpelled_of_quote ('\'' :: body) ['\''] (.inl rfl) rfl rfl
    fun written => finish_literal hpaired hleft

theorem readAsSpelled_literal {c : Char} (hc : c ∈ literalLetters)
    (hbody : quotesPaired (c == 'e' || c == 'E') body = true) (hleft : left.head? ≠ some '\'')
    (halike : (⟨some .literal, c :: '\'' :: (body ++ ['\''])⟩ : Lexeme).readsAlike preceding left
      = true) :
    ReadAsSpelled preceding ⟨some .literal, c :: '\'' :: (body ++ ['\''])⟩
      (c :: '\'' :: (body ++ '\'' :: left)) left := by
  have hpaired : quotesPaired (preceding.next c == .escapeLetter) body = true := by
    simp only [Lexeme.readsAlike, Bool.or_eq_true, beq_iff_eq, Bool.not_eq_true'] at halike
    rcases halike with hsame | hslash
    · rw [hsame]
      exact hbody
    · have hnone : '\\' ∉ body := fun hmem => by simp [hmem] at hslash
      rw [quotesPaired_eq_of_not_mem hnone] at hbody ⊢
      exact hbody
  refine readAsSpelled_of_quote (c :: '\'' :: body) [c, '\''] (.inl rfl) rfl rfl fun written => ?_
  rw [readFrom_cons, step_literalLetter hc, finish_literal hpaired hleft]
  rfl

theorem readAsSpelled_unicodeLiteral {c : Char} (hc : c ∈ literalLetters)
    (hbody : quotesPaired false body = true) (hleft : left.head? ≠ some '\'') :
    ReadAsSpelled preceding ⟨some .literal, c :: '&' :: '\'' :: (body ++ ['\''])⟩
      (c :: '&' :: '\'' :: (body ++ '\'' :: left)) left := by
  have hpaired : quotesPaired (Preceding.edge == .escapeLetter) body = true := hbody
  refine readAsSpelled_of_quote (c :: '&' :: '\'' :: body) [c, '&', '\''] (.inl rfl) rfl rfl
    fun written => ?_
  have hand : step ⟨.code (preceding.next c), c :: written⟩ '&'
      = ⟨.code .edge, '&' :: c :: written⟩ := rfl
  rw [readFrom_cons, step_literalLetter hc, readFrom_cons, hand, finish_literal hpaired hleft]
  rfl

theorem readAsSpelled_name {value : String} (hbody : Doubled '"' body) :
    ReadAsSpelled preceding ⟨some (.word value ""), '"' :: (body ++ ['"'])⟩
      ('"' :: (body ++ '"' :: left)) left := by
  refine readAsSpelled_of_quote ('"' :: body) ('"' :: body) (.inr rfl) rfl rfl fun written => ?_
  have hopen : step ⟨.code preceding, written⟩ '"' = ⟨.quotedName, '"' :: written⟩ := rfl
  have hsplit : body ++ '"' :: left = (body ++ ['"']) ++ left := by simp
  rw [readFrom_cons, hopen, hsplit, readFrom_append, readFrom_quotedName hbody]
  simp

theorem not_isBlank_of_isCode {text : List Char} (h : isCode text left = true) :
    ∀ c ∈ text, isBlank c = false := by
  induction text with
  | nil => simp
  | cons c rest ih =>
      simp only [isCode, Bool.and_eq_true, Bool.not_eq_true'] at h
      rintro d (_ | ⟨_, hd⟩)
      · exact h.1.1.1.1.1.1
      · exact ih h.2 d hd

theorem readAsSpelled_code {token : Token} {c : Char} {used : List Char}
    (hstring : ∀ value, token ≠ .string value)
    (hliteral : token = .literal → used.head? ≠ some '\'' ∧ used.head? ≠ some '&')
    (hcode : isCode (c :: used) left = true) :
    ReadAsSpelled preceding ⟨some token, c :: used⟩ (c :: (used ++ left)) left := by
  have hspelling := spelling_eq_text hstring hliteral (c := c)
  have hlast : c :: used = (c :: used).dropLast ++ [(c :: used).getLast (by simp)] :=
    (List.dropLast_concat_getLast _).symm
  refine ⟨⟨_, _, hspelling.trans hlast, ?_⟩, fun written => ?_⟩
  · exact not_isBlank_of_isCode hcode _ (List.getLast_mem _)
  · rw [hspelling]
    exact finish_code hcode

end ReadAsSpelled

/-- A token that is seen alike is read as what is spelled for it. -/
theorem readAsSpelled_of_readToken {c : Char} {rest left : List Char} {token : Token}
    {preceding : Preceding} {lexeme : Lexeme} (h : readToken c rest = .ok (some token, left))
    (hlexeme : lexeme = ⟨some token, c :: rest.take (rest.length - left.length)⟩)
    (halike : lexeme.readsAlike preceding left = true) :
    ReadAsSpelled preceding lexeme (c :: rest) left := by
  cases tokenText_of_readToken h with
  | @string body value hc htoken hrest hbody hleft =>
      have htext : rest = (body ++ ['\'']) ++ left := by simp [hrest]
      rw [text_eq_of_append htext] at hlexeme
      subst hc htoken hlexeme hrest
      exact readAsSpelled_string hbody hleft halike
  | @literal start body hc htoken hstart hrest hbody hleft _ =>
      have htext : rest = (start ++ '\'' :: (body ++ ['\''])) ++ left := by simp [hrest]
      rw [text_eq_of_append htext] at hlexeme
      subst htoken hlexeme hrest
      rcases hstart with rfl | ⟨rfl, hescape⟩
      · exact readAsSpelled_literal hc hbody hleft halike
      · rw [hescape] at hbody
        exact readAsSpelled_unicodeLiteral hc hbody hleft
  | @verbatim used hrest hstring hliteral _ =>
      rw [text_eq_of_append hrest] at hlexeme
      subst hlexeme
      -- a name in quotes is spelled without what is inside, all other text as it stands
      by_cases hname : c = '"'
      · subst hname
        rw [readToken_doubleQuote] at h
        obtain ⟨⟨contents, after⟩, hread, heq⟩ := map_eq_ok h
        obtain ⟨htoken, rfl⟩ := Prod.mk.inj heq
        obtain ⟨body, rfl, hdoubled, -⟩ := doubled_of_readQuoted hread
        obtain rfl : used = body ++ ['"'] := List.append_cancel_right (hrest.symm.trans (by simp))
        obtain rfl := Option.some.inj htoken
        exact readAsSpelled_name hdoubled
      · rw [hrest]
        exact readAsSpelled_code hstring hliteral (readsAlike_verbatim hstring hliteral hname halike)

/-! ## Reading the whole text -/

theorem exists_append_of_readToken {c : Char} {rest left : List Char} {token? : Option Token}
    (h : readToken c rest = .ok (token?, left)) : ∃ used, rest = used ++ left := by
  cases token? with
  | none =>
      rcases gap_cases h with ⟨-, rfl⟩ | ⟨body, -, rfl, -⟩ | ⟨text, -, rfl, hskip⟩
      · exact ⟨[], rfl⟩
      · exact ⟨'-' :: body, rfl⟩
      · obtain ⟨used, rfl⟩ := exists_append_of_skipComment hskip
        exact ⟨'*' :: used, rfl⟩
  | some token =>
      cases tokenText_of_readToken h with
      | @string body value hc htoken hrest _ _ => exact ⟨body ++ ['\''], by simp [hrest]⟩
      | @literal start body hc htoken hstart hrest _ _ _ =>
          exact ⟨start ++ '\'' :: (body ++ ['\'']), by simp [hrest]⟩
      | verbatim hrest _ _ _ => exact ⟨_, hrest⟩

/-- The lexemes of a text make it up. -/
theorem flatMap_text_of_lexemes {fuel : Nat} {text : List Char} {found : List Lexeme}
    (h : lexemes fuel text = .ok found) (hfuel : text.length ≤ fuel) :
    found.flatMap Lexeme.text = text := by
  induction fuel generalizing text found with
  | zero =>
      obtain rfl : text = [] := List.length_eq_zero_iff.1 (Nat.le_zero.1 hfuel)
      obtain rfl := Except.ok.inj h
      rfl
  | succ fuel ih =>
      cases text with
      | nil =>
          obtain rfl := Except.ok.inj h
          rfl
      | cons c rest =>
          obtain ⟨token?, left, more, hread, hmore, rfl⟩ := lexemes_cons_eq_ok h
          obtain ⟨used, rfl⟩ := exists_append_of_readToken hread
          -- a lexeme has at least one character, so less fuel is enough for what is left
          have hshort : left.length ≤ fuel := by
            rw [List.length_cons, List.length_append] at hfuel
            omega
          rw [List.flatMap_cons, ih hmore hshort, text_eq_of_append rfl, List.cons_append]

/-- A text that neither begins nor ends with a blank. -/
def Solid (text : List Char) : Prop :=
  (∃ first more, text = first :: more ∧ isBlank first = false) ∧
    ∃ front last, text = front ++ [last] ∧ isBlank last = false

theorem solid_spelling {c : Char} {rest left text : List Char} {token : Token}
    {preceding : Preceding} {lexeme : Lexeme} (h : readToken c rest = .ok (some token, left))
    (hlexeme : lexeme = ⟨some token, c :: rest.take (rest.length - left.length)⟩)
    (hread : ReadAsSpelled preceding lexeme text left) : Solid lexeme.spelling := by
  refine ⟨?_, hread.1⟩
  obtain ⟨d, spelled, hspelling, hagain⟩ :=
    exists_spelling (tokenText_of_readToken h) (ahead_nil left)
  exact ⟨d, spelled, hlexeme ▸ hspelling, (begins_of_readToken hagain).1⟩

theorem Solid.trim_append {text tail : List Char} (h : Solid text)
    (htail : ∀ c ∈ tail, isBlank c = true) : trim (text ++ tail) = text := by
  obtain ⟨⟨first, more, hfirst, hfirstBlank⟩, front, last, hlast, hlastBlank⟩ := h
  have hstart : trimStart (text ++ tail) = text ++ tail := by
    rw [hfirst, List.cons_append, trimStart, List.dropWhile_cons_of_neg (by simp [hfirstBlank])]
  have hend : (text ++ tail).reverse.dropWhile isBlank = text.reverse := by
    rw [List.reverse_append, List.dropWhile_append_of_pos (by simpa using htail), hlast,
      List.reverse_append, List.reverse_singleton, List.singleton_append,
      List.dropWhile_cons_of_neg (by simp [hlastBlank])]
  rw [trim, hstart, trimEnd, hend, List.reverse_reverse]

/-- What is spelled is written behind what has been written, and blanks may follow it. -/
def WrittenAs (written spelled result : List Char) : Prop :=
  ∃ tail, (∀ c ∈ tail, isBlank c = true) ∧ result.reverse = written.reverse ++ spelled ++ tail

theorem writtenAs_gap {written result text : List Char} {more : List Lexeme}
    (h : WrittenAs (pushSpace written) (spell true more) result) :
    WrittenAs written (spell (isSpaced written) (⟨none, text⟩ :: more)) result := by
  obtain ⟨tail, htail, hresult⟩ := h
  by_cases hspaced : isSpaced written = true
  · rw [pushSpace_of_isSpaced hspaced] at hresult
    exact ⟨tail, htail, by rw [hspaced, spell_gap, Bool.true_or, if_pos rfl, hresult]⟩
  · rw [Bool.not_eq_true] at hspaced
    rw [pushSpace_of_not_isSpaced hspaced, List.reverse_cons] at hresult
    rw [hspaced, spell_gap, Bool.false_or]
    by_cases hgaps : more.all (·.token?.isNone) = true
    · -- only gaps follow: the space is cut off in the end
      rw [if_pos hgaps, spell_eq_nil_of_gaps hgaps]
      rw [spell_eq_nil_of_gaps hgaps] at hresult
      exact ⟨' ' :: tail, by simpa [isBlank] using htail, by simpa using hresult⟩
    · rw [if_neg hgaps]
      exact ⟨tail, htail, by simpa using hresult⟩

theorem writtenAs_token {written spelling spelled result : List Char}
    (h : WrittenAs (spelling.reverse ++ written) spelled result) :
    WrittenAs written (spelling ++ spelled) result := by
  obtain ⟨tail, htail, hresult⟩ := h
  exact ⟨tail, htail, by simpa using hresult⟩

theorem spell_gap_gap (spaced : Bool) (text text' : List Char) (more : List Lexeme) :
    spell spaced (⟨none, text⟩ :: ⟨none, text'⟩ :: more) = spell spaced (⟨none, text'⟩ :: more) := by
  rw [spell_gap]
  split
  · rfl
  · rename_i hspace
    have hmore : ¬(spaced || more.all (·.token?.isNone)) = true := by simpa using hspace
    rw [spell_gap, Bool.true_or, if_pos rfl, spell_gap, if_neg hmore]

/-- What is behind a line comment is the end of its line or of the text, so that it does not matter
for what is spelled. -/
theorem spell_lineComment {fuel : Nat} {left text : List Char} {more : List Lexeme}
    (h : lexemes fuel left = .ok more) (hfuel : left.length ≤ fuel)
    (hleft : left = [] ∨ ∃ behind, left = '\n' :: behind) (spaced : Bool) :
    spell spaced (⟨none, text⟩ :: more) = spell spaced more := by
  rcases hleft with rfl | ⟨behind, rfl⟩
  · obtain rfl : [] = more := by cases fuel <;> exact Except.ok.inj h
    rw [spell_gap]
    simp
  · cases fuel with
    | zero => simp at hfuel
    | succ fuel =>
        obtain ⟨token?, after, others, hread, -, rfl⟩ := lexemes_cons_eq_ok h
        have hblank : readToken '\n' behind = .ok (none, behind) := rfl
        obtain ⟨rfl, -⟩ := Prod.mk.inj (Except.ok.inj (hread.symm.trans hblank))
        exact spell_gap_gap spaced text _ others

theorem isSpaced_of_solid {spelling written : List Char} (h : Solid spelling) :
    isSpaced (spelling.reverse ++ written) = false := by
  obtain ⟨-, front, last, rfl, hlast⟩ := h
  have hne : (last == ' ') = false := by
    rw [beq_eq_false_iff_ne]
    rintro rfl
    exact absurd hlast (by decide)
  simpa [isSpaced] using hne

/-- What is written for a text that is seen alike is what is spelled for its lexemes. -/
theorem writtenAs_of_lexemes {fuel : Nat} {text : List Char} {found : List Lexeme}
    {preceding : Preceding} (h : lexemes fuel text = .ok found) (hfuel : text.length ≤ fuel)
    (halike : allReadAlike preceding found = true) :
    (∀ lexeme ∈ found, lexeme.token?.isSome = true → Solid lexeme.spelling) ∧
      ∀ written, WrittenAs written (spell (isSpaced written) found)
        (readFrom ⟨.code preceding, written⟩ text).finish := by
  induction fuel generalizing text found preceding with
  | zero =>
      obtain rfl : text = [] := List.length_eq_zero_iff.1 (Nat.le_zero.1 hfuel)
      obtain rfl := Except.ok.inj h
      exact ⟨by simp, fun written => ⟨[], by simp, by simp [spell, Reading.finish]⟩⟩
  | succ fuel ih =>
      cases text with
      | nil =>
          obtain rfl := Except.ok.inj h
          exact ⟨by simp, fun written => ⟨[], by simp, by simp [spell, Reading.finish]⟩⟩
      | cons c rest =>
          obtain ⟨token?, left, more, hread, hmore, rfl⟩ := lexemes_cons_eq_ok h
          have hshort : left.length ≤ fuel := by
            obtain ⟨used, rfl⟩ := exists_append_of_readToken hread
            rw [List.length_cons, List.length_append] at hfuel
            omega
          rw [allReadAlike, Bool.and_eq_true, flatMap_text_of_lexemes hmore hshort] at halike
          obtain ⟨hfirst, hothers⟩ := halike
          obtain ⟨hsolid, hwritten⟩ := ih hmore hshort hothers
          cases token? with
          | none =>
              refine ⟨by simpa using hsolid, fun written => ?_⟩
              -- a gap writes a space, except for a line comment, whose line end is the next gap
              obtain ⟨written', hfinish, hspace | ⟨hnothing, hleft⟩⟩ := finish_gap hread hfirst
              · subst hspace
                have hbehind := hwritten (pushSpace written)
                rw [isSpaced_pushSpace] at hbehind
                rw [hfinish]
                exact writtenAs_gap hbehind
              · subst hnothing
                rw [hfinish, spell_lineComment hmore hshort hleft]
                exact hwritten written'
          | some token =>
              -- behind a token nothing is spaced, as its spelling does not end in a blank
              have hspelled := readAsSpelled_of_readToken hread rfl hfirst
              have hsolid' := solid_spelling hread rfl hspelled
              refine ⟨?_, fun written => ?_⟩
              · rintro lexeme (_ | ⟨_, hmem⟩) hsome
                · exact hsolid'
                · exact hsolid lexeme hmem hsome
              · rw [hspelled.2 written, spell_token]
                apply writtenAs_token
                have hbehind := hwritten
                  ((Lexeme.mk (some token) (c :: rest.take (rest.length - left.length))).spelling.reverse
                    ++ written)
                rw [isSpaced_of_solid hsolid'] at hbehind
                exact hbehind

section Ends

variable {found : List Lexeme}

theorem exists_last_of_spell (spaced : Bool)
    (h : ∀ lexeme ∈ found, lexeme.token?.isSome = true → Solid lexeme.spelling)
    (htokens : found.all (·.token?.isNone) = false) :
    ∃ front last, spell spaced found = front ++ [last] ∧ isBlank last = false := by
  induction found generalizing spaced with
  | nil => cases htokens
  | cons lexeme more ih =>
      obtain ⟨token?, text⟩ := lexeme
      have hmore := fun lexeme hmem => h lexeme (List.mem_cons_of_mem _ hmem)
      cases token? with
      | none =>
          have htokens' : more.all (·.token?.isNone) = false := by simpa using htokens
          rw [spell_gap, htokens', Bool.or_false]
          split
          · exact ih spaced hmore htokens'
          · obtain ⟨front, last, hlast, hblank⟩ := ih true hmore htokens'
            exact ⟨' ' :: front, last, by rw [hlast]; rfl, hblank⟩
      | some token =>
          rw [spell_token]
          -- the last token decides: behind it there are only gaps, which are not spelled
          by_cases hgaps : more.all (·.token?.isNone) = true
          · rw [spell_eq_nil_of_gaps hgaps, List.append_nil]
            exact (h _ List.mem_cons_self rfl).2
          · obtain ⟨front, last, hlast, hblank⟩ := ih false hmore (by simpa using hgaps)
            exact ⟨_ ++ front, last, by rw [hlast, List.append_assoc], hblank⟩

theorem exists_first_of_spell
    (h : ∀ lexeme ∈ found, lexeme.token?.isSome = true → Solid lexeme.spelling)
    (htokens : found.all (·.token?.isNone) = false) :
    ∃ first more, spell true found = first :: more ∧ isBlank first = false := by
  induction found with
  | nil => cases htokens
  | cons lexeme more ih =>
      obtain ⟨token?, text⟩ := lexeme
      cases token? with
      | none =>
          rw [spell_gap, Bool.true_or, if_pos rfl]
          exact ih (fun lexeme hmem => h lexeme (List.mem_cons_of_mem _ hmem)) (by simpa using htokens)
      | some token =>
          obtain ⟨⟨first, others, hfirst, hblank⟩, -⟩ := h _ List.mem_cons_self rfl
          exact ⟨first, others ++ spell false more, by rw [spell_token, hfirst]; rfl, hblank⟩

/-- What is spelled neither begins nor ends with a blank. -/
theorem solid_spell (h : ∀ lexeme ∈ found, lexeme.token?.isSome = true → Solid lexeme.spelling) :
    spell true found = [] ∨ Solid (spell true found) := by
  by_cases hgaps : found.all (·.token?.isNone) = true
  · exact .inl (spell_eq_nil_of_gaps hgaps)
  · rw [Bool.not_eq_true] at hgaps
    exact .inr ⟨exists_first_of_spell h hgaps, exists_last_of_spell true h hgaps⟩

end Ends

/-- **The normal form of a text that both readers see alike is what is spelled for its tokens.** -/
theorem normalForm_eq_spell {text : List Char} {found : List Lexeme}
    (h : lexemes text.length text = .ok found) (halike : allReadAlike .edge found = true) :
    normalForm text = spell true found := by
  obtain ⟨hsolid, hwritten⟩ := writtenAs_of_lexemes h (Nat.le_refl _) halike
  obtain ⟨tail, htail, hfinish⟩ := hwritten []
  have hspelled : (scan text).finish.reverse = spell true found ++ tail := hfinish
  rw [normalForm, hspelled]
  rcases solid_spell hsolid with hnil | hspell
  · have hblanks : (tail ++ []).dropWhile isBlank = [] := List.dropWhile_append_of_pos htail
    rw [hnil, List.nil_append, ← List.append_nil tail, trim, trimStart, hblanks]
    rfl
  · exact hspell.trim_append htail

end RepoPolicy.Sql
