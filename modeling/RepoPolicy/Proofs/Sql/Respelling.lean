import RepoPolicy.Proofs.Sql.ReaderLocality

set_option autoImplicit false

/-! # Spelling tokens again

The lexemes of a text can be written down again with the contents of strings left out and one space
for the gaps between two tokens (`spell`). The text that is written has the same tokens, up to the
contents of strings (`tokens_spell`). This needs what one token is read from (`TokenText`), and that
what is written behind a token begins like what stood there (`ahead_spell`). -/

namespace RepoPolicy.Sql

open RepoPolicy.Text

/-! ## The text of one token -/

/-- The text of a lexeme, with nothing between the quotes of a string or a literal. -/
def Lexeme.spelling (lexeme : Lexeme) : List Char :=
  match lexeme.token?, lexeme.text with
  | some (.string _), _ => ['\'', '\'']
  | some .literal, c :: '\'' :: _ => [c, '\'', '\'']
  | some .literal, c :: '&' :: '\'' :: _ => [c, '&', '\'', '\'']
  | _, text => text

/-- A token as it is read again: with an empty string for any string. -/
def Token.emptied : Token → Token
  | .string _ => .string ""
  | token => token

theorem Token.emptied_of_ne_string {token : Token} (h : ∀ value, token ≠ .string value) :
    token.emptied = token := by
  cases token with
  | string value => exact absurd rfl (h value)
  | _ => rfl

theorem spelling_eq_text {token : Token} {c : Char} {used : List Char}
    (hstring : ∀ value, token ≠ .string value)
    (hliteral : token = .literal → used.head? ≠ some '\'' ∧ used.head? ≠ some '&') :
    (⟨some token, c :: used⟩ : Lexeme).spelling = c :: used := by
  unfold Lexeme.spelling
  split
  · rename_i value htoken
    exact absurd (Option.some.inj htoken) (hstring value)
  · rename_i htoken htext
    obtain ⟨-, rfl⟩ := List.cons.inj htext
    exact absurd rfl (hliteral (Option.some.inj htoken)).1
  · rename_i htoken htext
    obtain ⟨-, rfl⟩ := List.cons.inj htext
    exact absurd rfl (hliteral (Option.some.inj htoken)).2
  · rfl

/-- The letters that make a literal of the quoted text behind them. -/
def literalLetters : List Char := ['e', 'E', 'n', 'N', 'x', 'X', 'b', 'B', 'r', 'R', 'u', 'U']

/-- What a token is read from, and how it is read from what is spelled for it. -/
inductive TokenText (c : Char) (rest : List Char) (token : Token) (left : List Char) : Prop where
  | string {body : List Char} {value : String} (hc : c = '\'') (htoken : token = .string value)
    (hrest : rest = body ++ '\'' :: left) (hbody : quotesPaired false body = true)
    (hleft : left.head? ≠ some '\'')
  | literal {start body : List Char} (hc : c ∈ literalLetters) (htoken : token = .literal)
    (hstart : start = [] ∨ start = ['&'] ∧ (c == 'e' || c == 'E') = false)
    (hrest : rest = start ++ '\'' :: (body ++ '\'' :: left))
    (hbody : quotesPaired (c == 'e' || c == 'E') body = true) (hleft : left.head? ≠ some '\'')
    (hagain : ∀ new, new.head? ≠ some '\'' →
      readToken c (start ++ '\'' :: '\'' :: new) = .ok (some .literal, new))
  | verbatim {used : List Char} (hrest : rest = used ++ left)
    (hstring : ∀ value, token ≠ .string value)
    (hliteral : token = .literal → used.head? ≠ some '\'' ∧ used.head? ≠ some '&')
    (hagain : ∀ new, Ahead left new → readToken c (used ++ new) = .ok (some token, new))

theorem readToken_quote (rest : List Char) :
    readToken '\'' rest = (readQuoted '\'' rest).map fun (contents, left) =>
      (some (.string (String.ofList contents)), left) := by
  unfold readToken
  rw [if_neg (by decide)]
  cases readQuoted '\'' rest <;> rfl

theorem readToken_doubleQuote (rest : List Char) :
    readToken '"' rest = (readQuoted '"' rest).map fun (contents, left) =>
      (some (.word (String.ofList contents) ""), left) := by
  unfold readToken
  rw [if_neg (by decide)]
  cases readQuoted '"' rest <;> rfl

theorem readToken_dollar (rest : List Char) :
    readToken '$' rest = (readDollar rest).map fun (token, left) => (some token, left) := by
  unfold readToken
  rw [if_neg (by decide)]
  rfl

theorem readToken_questionMark (rest : List Char) :
    readToken '?' rest = .ok (some .parameter, rest.dropWhile isNumeric) := by
  unfold readToken
  rw [if_neg (by decide)]
  rfl

/-- A token that begins in no special way is a name in quotes, a word, a number or a symbol. -/
theorem readToken_of_plain {c : Char} {rest : List Char} (hblank : isBlank c = false)
    (hdash : ¬['-', '-'] <+: c :: rest) (hslash : ¬['/', '*'] <+: c :: rest)
    (hspecial : c ∉ ['\'', '$', '?']) :
    readToken c rest =
      if c == '"' || c.toNat == 96 then
        (readQuoted c rest).map fun (contents, left) => (some (.word (String.ofList contents) ""), left)
      else if startsIdentifier c && !startsOperator c rest then
        (readWordOrLiteral c rest).map fun (token, left) => (some token, left)
      else if c.isDigit || c == '.' then
        .ok (some (readNumber (c :: rest)).1, (readNumber (c :: rest)).2)
      else .ok (some (readSymbol c rest).1, (readSymbol c rest).2) := by
  unfold readToken
  rw [if_neg (by simp [hblank])]
  dsimp only
  split
  · exact absurd ⟨_, rfl⟩ hdash
  · exact absurd ⟨_, rfl⟩ hslash
  · simp at hspecial
  · simp at hspecial
  · simp at hspecial
  · cases readQuoted c rest <;> rfl

/-- What is checked letter by letter holds of every letter. -/
theorem forall_mem_letters {holds : Char → Prop} [DecidablePred holds] {letters : List Char}
    (h : letters.all (fun c => decide (holds c)) = true) : ∀ c ∈ letters, holds c :=
  fun c hc => of_decide_eq_true (List.all_eq_true.1 h c hc)

theorem readToken_of_literalLetter {c : Char} (hc : c ∈ literalLetters) (rest : List Char) :
    readToken c rest = (readWordOrLiteral c rest).map fun (token, left) => (some token, left) := by
  have hletters : ∀ d ∈ literalLetters, isBlank d = false ∧ d ∉ ['-', '/', '\'', '$', '?'] ∧
      d ≠ '@' ∧ d ≠ '#' ∧ (d == '"' || d.toNat == 96) = false ∧ startsIdentifier d = true :=
    forall_mem_letters (by decide)
  obtain ⟨hblank, hspecial, hat, hhash, hmark, hstarts⟩ := hletters c hc
  simp only [List.mem_cons, List.not_mem_nil, or_false, not_or] at hspecial
  have hoperator : startsOperator c rest = false := by
    unfold startsOperator
    split
    · exact absurd rfl hat
    · exact absurd rfl hhash
    · rfl
  rw [readToken_of_plain hblank (fun hfront => hspecial.1 (List.cons_prefix_cons.1 hfront).1.symm)
      (fun hfront => hspecial.2.1 (List.cons_prefix_cons.1 hfront).1.symm) (by simp [hspecial]),
    hmark, hoperator, hstarts]
  rfl

theorem skipEscaped_emptied {new : List Char} (h : new.head? ≠ some '\'') (fuel : Nat) :
    skipEscaped (fuel + 1) ('\'' :: new) = .ok new := by
  rw [skipEscaped]
  rintro rest rfl
  exact h rfl

theorem readQuoted_emptied {quote : Char} {new : List Char} (h : new.head? ≠ some quote) :
    readQuoted quote (quote :: new) = .ok ([], new) := by
  cases new with
  | nil => simp [readQuoted]
  | cons d rest =>
      have hd : (d == quote) = false := by simpa using h
      simp [readQuoted, hd]

/-- The letters that make a literal of the single quotes right behind them, besides the escape
letters. -/
def plainLetters : List Char := ['n', 'N', 'x', 'X', 'b', 'B', 'r', 'R']

theorem tokenText_of_escapeLetter {c : Char} {body left : List Char} {token : Token}
    (hc : (c == 'e' || c == 'E') = true)
    (hword : readWordOrLiteral c ('\'' :: body) = .ok (token, left)) :
    TokenText c ('\'' :: body) token left := by
  have hread : ∀ body, readWordOrLiteral c ('\'' :: body) =
      (skipEscaped (body.length + 1) body).map fun rest => (.literal, rest) := by
    intro body
    simp [readWordOrLiteral, hc]
  have hletter : c ∈ literalLetters := by
    rw [Bool.or_eq_true, beq_iff_eq, beq_iff_eq] at hc
    rcases hc with rfl | rfl <;> decide
  rw [hread] at hword
  obtain ⟨after, hskip, heq⟩ := map_eq_ok hword
  obtain ⟨rfl, rfl⟩ := Prod.mk.inj heq
  obtain ⟨contents, rfl, hpaired, hleft⟩ := paired_of_skipEscaped hskip
  refine .literal hletter rfl (.inl rfl) rfl (by rwa [hc]) hleft fun new hnew => ?_
  rw [List.nil_append, readToken_of_literalLetter hletter, hread, skipEscaped_emptied hnew]
  rfl

/-- Quoted text in which no backslash escapes, behind a letter or behind a letter and `&`. -/
theorem tokenText_of_quotedLiteral {c : Char} {start body left : List Char} {token : Token}
    (hc : c ∈ literalLetters) (hescape : (c == 'e' || c == 'E') = false)
    (hstart : start = [] ∨ start = ['&'])
    (hread : ∀ body, readWordOrLiteral c (start ++ '\'' :: body) =
      (readQuoted '\'' body).map fun (_, rest) => (.literal, rest))
    (hword : readWordOrLiteral c (start ++ '\'' :: body) = .ok (token, left)) :
    TokenText c (start ++ '\'' :: body) token left := by
  rw [hread] at hword
  obtain ⟨⟨contents, after⟩, hquoted, heq⟩ := map_eq_ok hword
  obtain ⟨rfl, rfl⟩ := Prod.mk.inj heq
  obtain ⟨text, rfl, hdoubled, hleft⟩ := doubled_of_readQuoted hquoted
  refine .literal hc rfl (hstart.imp id fun heq => ⟨heq, hescape⟩) rfl (by rw [hescape]; exact hdoubled.quotesPaired) hleft
    fun new hnew => ?_
  rw [readToken_of_literalLetter hc, hread, readQuoted_emptied hnew]
  rfl

theorem tokenText_of_plainLetter {c : Char} {body left : List Char} {token : Token}
    (hc : c ∈ plainLetters) (hword : readWordOrLiteral c ('\'' :: body) = .ok (token, left)) :
    TokenText c ('\'' :: body) token left := by
  have hletters : ∀ d ∈ plainLetters, d ∈ literalLetters ∧ (d == 'e' || d == 'E') = false :=
    forall_mem_letters (by decide)
  obtain ⟨hletter, hescape⟩ := hletters c hc
  refine tokenText_of_quotedLiteral hletter hescape (.inl rfl) (fun body => ?_) hword
  have hcontains : ['n', 'N', 'x', 'X', 'b', 'B', 'r', 'R'].contains c = true :=
    List.contains_iff_mem.2 hc
  rw [List.nil_append, readWordOrLiteral]
  simp only [hescape, hcontains]
  rfl

theorem tokenText_of_unicodeLetter {c : Char} {body left : List Char} {token : Token}
    (hc : (c == 'u' || c == 'U') = true)
    (hword : readWordOrLiteral c ('&' :: '\'' :: body) = .ok (token, left)) :
    TokenText c ('&' :: '\'' :: body) token left := by
  have hletter : c ∈ literalLetters ∧ (c == 'e' || c == 'E') = false := by
    rw [Bool.or_eq_true, beq_iff_eq, beq_iff_eq] at hc
    rcases hc with rfl | rfl <;> decide
  refine tokenText_of_quotedLiteral hletter.1 hletter.2 (.inr rfl) (fun body => ?_) hword
  simp [readWordOrLiteral, hc]

theorem tokenText_of_doubleQuote {c : Char} {body left : List Char} {token : Token}
    (hc : ['b', 'B', 'r', 'R'].contains c = true)
    (hword : readWordOrLiteral c ('"' :: body) = .ok (token, left)) :
    TokenText c ('"' :: body) token left := by
  have hletters : ∀ d ∈ ['b', 'B', 'r', 'R'], d ∈ literalLetters := forall_mem_letters (by decide)
  have hletter := hletters c (List.contains_iff_mem.1 hc)
  have hread : ∀ body, readWordOrLiteral c ('"' :: body) =
      (readQuoted '"' body).map fun (_, rest) => (.literal, rest) := by
    intro body
    simp only [readWordOrLiteral, hc]
    rfl
  rw [hread] at hword
  obtain ⟨⟨contents, after⟩, hquoted, heq⟩ := map_eq_ok hword
  obtain ⟨rfl, rfl⟩ := Prod.mk.inj heq
  obtain ⟨used, rfl, hagain⟩ := local_readQuoted (by decide) body contents after hquoted
  refine .verbatim (List.cons_append).symm (by simp) (by simp) fun new hnew => ?_
  rw [List.cons_append, readToken_of_literalLetter hletter, hread, hagain new hnew]
  rfl

/-- A word, or a literal with a letter before its quotes. -/
theorem tokenText_of_readWordOrLiteral {c : Char} {rest left : List Char} {token : Token}
    (hword : readWordOrLiteral c rest = .ok (token, left))
    (hagain : ∀ used new, rest = used ++ left → Ahead left new →
      readToken c (used ++ new) = (readWordOrLiteral c (used ++ new)).map
        fun (token, left) => (some token, left)) :
    TokenText c rest token left := by
  by_cases hopens : opensLiteral c rest = true
  · unfold opensLiteral at hopens
    split at hopens
    · by_cases hescape : (c == 'e' || c == 'E') = true
      · exact tokenText_of_escapeLetter hescape hword
      · refine tokenText_of_plainLetter ?_ hword
        simp only [List.contains_iff_mem, List.mem_cons, Bool.or_eq_true, beq_iff_eq, not_or]
          at hopens hescape
        simpa [plainLetters, hescape] using hopens
    · exact tokenText_of_doubleQuote hopens hword
    · exact tokenText_of_unicodeLetter hopens hword
    · cases hopens
  · rw [Bool.not_eq_true] at hopens
    rw [readWordOrLiteral_of_opensLiteral_eq_false hopens] at hword
    obtain ⟨rfl, rfl⟩ := Prod.mk.inj (Except.ok.inj hword)
    have hrest : rest = rest.takeWhile continuesIdentifier ++ rest.dropWhile continuesIdentifier :=
      List.takeWhile_append_dropWhile.symm
    refine .verbatim hrest (by simp [Token.ofWord]) (by simp [Token.ofWord]) fun new hnew => ?_
    -- what follows a word does not make it open a literal, as it begins like what followed before
    have hahead : Ahead rest (rest.takeWhile continuesIdentifier ++ new) := by
      have := hnew.append (rest.takeWhile continuesIdentifier)
      rwa [← hrest] at this
    have hspace : continuesIdentifier ' ' = false := by decide
    rw [hagain _ new hrest hnew,
      readWordOrLiteral_of_opensLiteral_eq_false (opensLiteral_of_ahead hahead hopens),
      hnew.takeWhile_append hspace, hnew.dropWhile_append hspace]
    rfl

/-- A dollar quote goes on with a dollar or with its tag. -/
theorem head?_ne_of_readDollar_literal {rest left : List Char} {d : Char} (hdollar : d ≠ '$')
    (htag : namesTag d = false) (h : readDollar rest = .ok (.literal, left)) :
    rest.head? ≠ some d := by
  intro hhead
  obtain ⟨more, rfl⟩ := List.head?_eq_some_iff.1 hhead
  rw [readDollar_of_head?_ne (by simpa using hdollar),
    List.dropWhile_cons_of_neg (by simp [htag])] at h
  split at h
  · rename_i heq
    exact hdollar (List.cons.inj heq).1
  · simp at h

theorem head?_append_ne {used left : List Char} {d : Char} (h : (used ++ left).head? ≠ some d) :
    used.head? ≠ some d := by
  cases used with
  | nil => simp
  | cons c used => exact h

section Plain

variable {c : Char} {rest left : List Char} {token : Token}

theorem startsIdentifier_eq_false_of_number (hnumber : (c.isDigit || c == '.') = true)
    (hstarts : ¬(startsIdentifier c && !startsOperator c rest) = true) :
    startsIdentifier c = false := by
  rw [Bool.eq_false_iff]
  intro hidentifier
  have hoperator : startsOperator c rest = true := by simpa [hidentifier] using hstarts
  rw [startsOperator_eq, Option.any_eq_true] at hoperator
  obtain ⟨d, -, hd⟩ := hoperator
  have hc : c = '@' ∨ c = '#' := by
    simp only [Bool.or_eq_true, Bool.and_eq_true, beq_iff_eq] at hd
    exact hd.imp And.left And.left
  rcases hc with rfl | rfl <;> exact absurd hnumber (by decide)

/-- A number. `hagain` says how a token is read that begins with `c`. -/
theorem tokenText_of_number (hnumber : (c.isDigit || c == '.') = true)
    (hread : readNumber (c :: rest) = (token, left))
    (hagain : ∀ {used new : List Char}, rest = used ++ left → Ahead left new →
      readToken c (used ++ new)
        = .ok (some (readNumber (c :: (used ++ new))).1, (readNumber (c :: (used ++ new))).2)) :
    TokenText c rest token left := by
  obtain ⟨used, hrest, hnumberAgain⟩ := readNumber_append (by simpa using hnumber) hread
  refine .verbatim hrest ?_ ?_ fun new hnew => ?_
  · rintro value rfl
    exact absurd (of_readNumber hread) (by simp)
  · rintro rfl
    have hx := head?_of_readNumber_literal hread
    rw [hrest] at hx
    exact ⟨head?_append_ne (by rw [hx]; decide), head?_append_ne (by rw [hx]; decide)⟩
  · rw [hagain hrest hnew, hnumberAgain new hnew]

/-- A symbol, which may begin like a word. -/
theorem tokenText_of_symbol (hstarts : ¬(startsIdentifier c && !startsOperator c rest) = true)
    (hread : readSymbol c rest = (token, left))
    (hagain : ∀ {used new : List Char}, rest = used ++ left → Ahead left new →
      ¬(startsIdentifier c && !startsOperator c (used ++ new)) = true →
      readToken c (used ++ new)
        = .ok (some (readSymbol c (used ++ new)).1, (readSymbol c (used ++ new)).2)) :
    TokenText c rest token left := by
  obtain ⟨used, hrest, hoperator, hsymbolAgain⟩ := readSymbol_append hread
  obtain ⟨text, rfl, -, -⟩ := of_readSymbol hread
  refine .verbatim hrest (by simp) (by simp) fun new hnew => ?_
  -- an operator that begins like a word is told by its next character, which it takes itself
  have hstarts' : ¬(startsIdentifier c && !startsOperator c (used ++ new)) = true := by
    intro hword
    rw [Bool.and_eq_true, Bool.not_eq_true'] at hword
    have hold : startsOperator c rest = true := by simpa [hword.1] using hstarts
    obtain ⟨d, more, rfl⟩ := List.exists_cons_of_ne_nil (hoperator hold)
    rw [startsOperator_eq] at hold hword
    rw [hrest] at hold
    exact absurd hold (by simpa using hword.2)
  rw [hagain hrest hnew hstarts', hsymbolAgain new hnew]

/-- A name in quotes, a word, a number or a symbol. -/
theorem tokenText_of_plain (hblank : isBlank c = false) (hdash : ¬['-', '-'] <+: c :: rest)
    (hslash : ¬['/', '*'] <+: c :: rest) (hspecial : c ∉ ['\'', '$', '?'])
    (h : readToken c rest = .ok (some token, left)) : TokenText c rest token left := by
  have hahead : ∀ {used new : List Char}, rest = used ++ left → Ahead left new →
      Ahead rest (used ++ new) := fun hrest hnew => hrest ▸ hnew.append _
  -- a text that goes on alike begins no comment either
  have hagain : ∀ {used new : List Char}, rest = used ++ left → Ahead left new →
      ¬['-', '-'] <+: c :: (used ++ new) ∧ ¬['/', '*'] <+: c :: (used ++ new) := by
    intro used new hrest hnew
    have hother := (hahead hrest hnew).append [c]
    exact ⟨fun hfront => hdash (hother _ (by decide) (by decide) hfront),
      fun hfront => hslash (hother _ (by decide) (by decide) hfront)⟩
  rw [readToken_of_plain hblank hdash hslash hspecial] at h
  split at h
  · rename_i hmark
    have hspace : c ≠ ' ' := by
      rintro rfl
      exact absurd hmark (by decide)
    obtain ⟨⟨contents, after⟩, hread, heq⟩ := map_eq_ok h
    obtain ⟨htoken, rfl⟩ := Prod.mk.inj heq
    obtain rfl := Option.some.inj htoken
    obtain ⟨used, hrest, hquoted⟩ := local_readQuoted hspace rest contents after hread
    refine .verbatim hrest (by simp) (by simp) fun new hnew => ?_
    obtain ⟨hdash', hslash'⟩ := hagain hrest hnew
    rw [readToken_of_plain hblank hdash' hslash' hspecial, if_pos hmark, hquoted new hnew]
    rfl
  rename_i hmark
  split at h
  · rename_i hstarts
    obtain ⟨⟨found, after⟩, hread, heq⟩ := map_eq_ok h
    obtain ⟨htoken, rfl⟩ := Prod.mk.inj heq
    obtain rfl := Option.some.inj htoken
    refine tokenText_of_readWordOrLiteral hread fun used new hrest hnew => ?_
    obtain ⟨hdash', hslash'⟩ := hagain hrest hnew
    rw [Bool.and_eq_true, Bool.not_eq_true'] at hstarts
    have hstarts' := startsOperator_of_ahead (hahead hrest hnew) hstarts.2
    rw [readToken_of_plain hblank hdash' hslash' hspecial, if_neg hmark, hstarts.1, hstarts']
    rfl
  rename_i hstarts
  split at h
  · rename_i hnumber
    obtain ⟨htoken, hleft⟩ := Prod.mk.inj (Except.ok.inj h)
    refine tokenText_of_number hnumber (Prod.ext (Option.some.inj htoken) hleft) ?_
    intro used new hrest hnew
    obtain ⟨hdash', hslash'⟩ := hagain hrest hnew
    rw [readToken_of_plain hblank hdash' hslash' hspecial, if_neg hmark,
      startsIdentifier_eq_false_of_number hnumber hstarts, hnumber]
    rfl
  · rename_i hnumber
    obtain ⟨htoken, hleft⟩ := Prod.mk.inj (Except.ok.inj h)
    refine tokenText_of_symbol hstarts (Prod.ext (Option.some.inj htoken) hleft) ?_
    intro used new hrest hnew hstarts'
    obtain ⟨hdash', hslash'⟩ := hagain hrest hnew
    rw [readToken_of_plain hblank hdash' hslash' hspecial, if_neg hmark, if_neg hstarts',
      if_neg hnumber]

end Plain

theorem tokenText_of_readToken {c : Char} {rest left : List Char} {token : Token}
    (h : readToken c rest = .ok (some token, left)) : TokenText c rest token left := by
  obtain ⟨hblank, hdash, hslash, -⟩ := begins_of_readToken h
  by_cases hquote : c = '\''
  · subst hquote
    rw [readToken_quote] at h
    obtain ⟨⟨contents, after⟩, hread, heq⟩ := map_eq_ok h
    obtain ⟨htoken, rfl⟩ := Prod.mk.inj heq
    obtain ⟨body, rfl, hbody, hleft⟩ := doubled_of_readQuoted hread
    exact .string rfl (Option.some.inj htoken).symm rfl hbody.quotesPaired hleft
  by_cases hdollar : c = '$'
  · subst hdollar
    rw [readToken_dollar] at h
    obtain ⟨⟨found, after⟩, hread, heq⟩ := map_eq_ok h
    obtain ⟨htoken, rfl⟩ := Prod.mk.inj heq
    obtain rfl := Option.some.inj htoken
    obtain ⟨used, rfl, hagain⟩ := local_readDollar _ _ _ hread
    refine .verbatim rfl ?_ ?_ fun new hnew => ?_
    · intro value hvalue
      rcases readDollar_token hread with rfl | rfl <;> cases hvalue
    · rintro rfl
      exact ⟨head?_append_ne (head?_ne_of_readDollar_literal (by decide) (by decide) hread),
        head?_append_ne (head?_ne_of_readDollar_literal (by decide) (by decide) hread)⟩
    · rw [readToken_dollar, hagain new hnew]
      rfl
  by_cases hmark : c = '?'
  · subst hmark
    rw [readToken_questionMark] at h
    obtain ⟨htoken, rfl⟩ := Prod.mk.inj (Except.ok.inj h)
    obtain rfl := Option.some.inj htoken
    have hspace : isNumeric ' ' = false := by decide
    refine .verbatim (List.takeWhile_append_dropWhile (p := isNumeric)).symm (by simp) (by simp)
      fun new hnew => ?_
    rw [readToken_questionMark, hnew.dropWhile_append hspace]
  · exact tokenText_of_plain hblank hdash hslash (by simp [hquote, hdollar, hmark]) h

/-! ## The whole text -/

/-- What is written for the lexemes of a text: the spelling of each token, and one space for the gaps
between two tokens. `spaced` says that no space is to be written before the first of them. -/
def spell : Bool → List Lexeme → List Char
  | _, [] => []
  | spaced, lexeme :: more =>
    match lexeme.token? with
    | none =>
      if spaced || more.all (·.token?.isNone) then spell spaced more else ' ' :: spell true more
    | some _ => lexeme.spelling ++ spell false more

@[simp] theorem spell_token (spaced : Bool) (token : Token) (text : List Char)
    (more : List Lexeme) :
    spell spaced (⟨some token, text⟩ :: more)
      = (⟨some token, text⟩ : Lexeme).spelling ++ spell false more := rfl

theorem spell_gap (spaced : Bool) (text : List Char) (more : List Lexeme) :
    spell spaced (⟨none, text⟩ :: more) =
      if spaced || more.all (·.token?.isNone) then spell spaced more
      else ' ' :: spell true more := rfl

theorem spell_eq_nil_of_gaps {spaced : Bool} {found : List Lexeme}
    (h : found.all (·.token?.isNone) = true) : spell spaced found = [] := by
  induction found with
  | nil => rfl
  | cons lexeme more ih =>
      obtain ⟨token?, text⟩ := lexeme
      rw [List.all_cons, Bool.and_eq_true, Option.isNone_iff_eq_none] at h
      obtain ⟨rfl, hmore⟩ := h
      rw [spell_gap, hmore, Bool.or_true, if_pos rfl, ih hmore]

theorem text_eq_of_append {rest used left : List Char} (h : rest = used ++ left) :
    rest.take (rest.length - left.length) = used := by
  rw [h, List.length_append, Nat.add_sub_cancel, List.take_left]

theorem ahead_nil (left : List Char) : Ahead left [] := by
  intro piece _ _ hpiece
  rw [List.prefix_nil.1 hpiece]
  exact List.nil_prefix

theorem ahead_space (left new : List Char) : Ahead left (' ' :: new) := by
  intro piece hspace _ hpiece
  cases piece with
  | nil => exact List.nil_prefix
  | cons c piece =>
      rw [(List.cons_prefix_cons.1 hpiece).1] at hspace
      exact absurd List.mem_cons_self hspace

/-- Two texts that begin alike up to a quote. -/
theorem ahead_quote (front left new : List Char) :
    Ahead (front ++ '\'' :: left) (front ++ '\'' :: new) := by
  suffices hquote : Ahead ('\'' :: left) ('\'' :: new) from hquote.append front
  intro piece _ hquote hpiece
  match piece with
  | [] => exact List.nil_prefix
  | [c] =>
      rw [(List.cons_prefix_cons.1 hpiece).1]
      exact ⟨left, rfl⟩
  | c :: d :: piece =>
      rw [(List.cons_prefix_cons.1 hpiece).1] at hquote
      exact absurd List.mem_cons_self hquote

/-- What is spelled for a text begins like the text. -/
theorem ahead_spell {fuel : Nat} {text : List Char} {found : List Lexeme}
    (h : lexemes fuel text = .ok found) : Ahead text (spell false found) := by
  induction fuel generalizing text found with
  | zero =>
      obtain rfl : [] = found := by cases text <;> exact Except.ok.inj h
      exact ahead_nil text
  | succ fuel ih =>
      cases text with
      | nil =>
          obtain rfl := Except.ok.inj h
          exact ahead_nil []
      | cons c rest =>
          obtain ⟨token?, left, more, hread, hmore, rfl⟩ := lexemes_cons_eq_ok h
          cases token? with
          | none =>
              rw [spell_gap]
              split
              · rename_i hgaps
                -- gaps at the end of a text are not spelled
                rw [spell_eq_nil_of_gaps (by simpa using hgaps)]
                exact ahead_nil _
              · exact ahead_space _ _
          | some token =>
              rw [spell_token]
              cases tokenText_of_readToken hread with
              | string hc htoken hrest _ _ =>
                  subst hc htoken hrest
                  exact ahead_quote [] _ _
              | @literal start body hc htoken hstart hrest _ _ _ =>
                  subst htoken
                  have htext : rest = (start ++ '\'' :: (body ++ ['\''])) ++ left := by simp [hrest]
                  rw [text_eq_of_append htext, hrest]
                  rcases hstart with rfl | ⟨rfl, -⟩
                  · exact ahead_quote [c] _ _
                  · exact ahead_quote [c, '&'] _ _
              | verbatim hrest hstring hliteral _ =>
                  rw [text_eq_of_append hrest, spelling_eq_text hstring hliteral, hrest]
                  exact (ih hmore).append _

theorem tokens_cons {fuel : Nat} {c : Char} {rest left : List Char} {token? : Option Token}
    {more : List Token} (hread : readToken c rest = .ok (token?, left))
    (hmore : tokens fuel left = .ok more) :
    tokens (fuel + 1) (c :: rest) = .ok (token?.toList ++ more) := by
  rw [tokens, hread]
  simp only [bind, Except.bind, hmore]
  rfl

/-- What is spelled for a token is read as the token, with its string emptied. -/
theorem exists_spelling {c : Char} {rest left new : List Char} {token : Token}
    (h : TokenText c rest token left) (hnew : Ahead left new) :
    ∃ d spelled,
      (⟨some token, c :: rest.take (rest.length - left.length)⟩ : Lexeme).spelling = d :: spelled ∧
        readToken d (spelled ++ new) = .ok (some token.emptied, new) := by
  cases h with
  | string hc htoken hrest hbody hleft =>
      subst htoken
      refine ⟨'\'', ['\''], rfl, ?_⟩
      rw [readToken_quote, List.singleton_append,
        readQuoted_emptied (hnew.head?_ne (by decide) hleft)]
      rfl
  | @literal start body hc htoken hstart hrest _ hleft hagain =>
      subst htoken
      have htext : rest = (start ++ '\'' :: (body ++ ['\''])) ++ left := by simp [hrest]
      have hquote := hagain new (hnew.head?_ne (by decide) hleft)
      refine ⟨c, start ++ ['\'', '\''], ?_, by rw [List.append_assoc]; exact hquote⟩
      rw [text_eq_of_append htext]
      rcases hstart with rfl | ⟨rfl, -⟩ <;> rfl
  | @verbatim used hrest hstring hliteral hagain =>
      refine ⟨c, used, by rw [text_eq_of_append hrest, spelling_eq_text hstring hliteral], ?_⟩
      rw [Token.emptied_of_ne_string hstring]
      exact hagain new hnew

/-- **The tokens of a text are those of what is spelled for it**, up to the contents of strings. -/
theorem tokens_spell {fuel fuel' : Nat} {text : List Char} {found : List Lexeme} {spaced : Bool}
    (h : lexemes fuel text = .ok found) (hfuel : (spell spaced found).length ≤ fuel') :
    tokens fuel' (spell spaced found)
      = .ok ((found.filterMap Lexeme.token?).map Token.emptied) := by
  have hnil : ∀ n, tokens n [] = .ok [] := fun n => by rw [tokens]
  induction fuel generalizing fuel' text found spaced with
  | zero =>
      obtain rfl : [] = found := by cases text <;> exact Except.ok.inj h
      exact hnil fuel'
  | succ fuel ih =>
      cases text with
      | nil =>
          obtain rfl := Except.ok.inj h
          exact hnil fuel'
      | cons c rest =>
          obtain ⟨token?, left, more, hread, hmore, rfl⟩ := lexemes_cons_eq_ok h
          cases token? with
          | none =>
              rw [List.filterMap_cons_none rfl]
              rw [spell_gap] at hfuel ⊢
              split at hfuel
              · rename_i hskip
                rw [if_pos hskip]
                exact ih hmore hfuel
              · rename_i hspace
                rw [if_neg hspace]
                obtain ⟨n, rfl⟩ : ∃ n, fuel' = n + 1 := ⟨fuel' - 1, by simp at hfuel; omega⟩
                have hblank : readToken ' ' (spell true more) = .ok (none, spell true more) := rfl
                exact tokens_cons hblank (ih hmore (by simpa using hfuel))
          | some token =>
              -- a token is read again because what is spelled behind it begins like what stood
              -- there
              obtain ⟨d, spelled, hspelling, hagain⟩ :=
                exists_spelling (tokenText_of_readToken hread) (ahead_spell hmore)
              simp only [List.filterMap_cons, List.map_cons]
              rw [spell_token, hspelling, List.cons_append] at hfuel ⊢
              obtain ⟨n, rfl⟩ : ∃ n, fuel' = n + 1 := ⟨fuel' - 1, by simp at hfuel; omega⟩
              have hrest : (spell false more).length ≤ n := by
                rw [List.length_cons, List.length_append] at hfuel
                omega
              exact tokens_cons hagain (ih hmore hrest)

end RepoPolicy.Sql
