import RepoPolicy.Sql.Lexer
import RepoPolicy.Text.LetterCase

set_option autoImplicit false

/-! # What tokens are read from

A `Lexeme` is a token with the text it was read from, or a gap: a blank or a comment. The tokens of a
text are those of its lexemes (`tokens_eq_map_lexemes`). Reading one token is described once, by the
character it begins with (`begins_of_readToken`); so an opening parenthesis is read from that
character alone, a keyword from a whole word that is spelled like it, and the token behind a word
begins with a character that is no part of a word. -/

namespace RepoPolicy.Sql

open RepoPolicy.Text

/-- A token and the text it was read from; no token for a blank or a comment. -/
structure Lexeme where
  token? : Option Token
  text : List Char
  deriving DecidableEq, Repr

def lexemes : Nat → List Char → Except SyntaxError (List Lexeme)
  | _, [] => .ok []
  | 0, _ => .ok []
  | fuel + 1, c :: rest => do
    let (token?, after) ← readToken c rest
    let more ← lexemes fuel after
    return ⟨token?, c :: rest.take (rest.length - after.length)⟩ :: more

theorem lexemes_cons_eq_ok {fuel : Nat} {c : Char} {rest : List Char} {found : List Lexeme}
    (h : lexemes (fuel + 1) (c :: rest) = .ok found) :
    ∃ token? after more, readToken c rest = .ok (token?, after) ∧ lexemes fuel after = .ok more ∧
      found = ⟨token?, c :: rest.take (rest.length - after.length)⟩ :: more := by
  rw [lexemes] at h
  cases hread : readToken c rest with
  | error cause =>
      rw [hread] at h
      exact absurd h (by simp [bind, Except.bind])
  | ok result =>
      obtain ⟨token?, after⟩ := result
      rw [hread] at h
      cases hmore : lexemes fuel after with
      | error cause => exact absurd h (by simp [bind, Except.bind, hmore])
      | ok more =>
          refine ⟨token?, after, more, rfl, hmore, ?_⟩
          simpa [bind, Except.bind, hmore, pure, Except.pure] using h.symm

theorem tokens_eq_map_lexemes (fuel : Nat) (text : List Char) :
    tokens fuel text = (lexemes fuel text).map (List.filterMap Lexeme.token?) := by
  induction fuel generalizing text with
  | zero => cases text <;> rfl
  | succ fuel ih =>
      cases text with
      | nil => rfl
      | cons c rest =>
          rw [tokens, lexemes]
          cases readToken c rest with
          | error cause => rfl
          | ok result =>
              obtain ⟨token?, after⟩ := result
              simp only [bind, Except.bind, ih]
              cases lexemes fuel after with
              | error cause => rfl
              | ok more => cases token? <;> rfl

/-- A lexeme inside a text is what a token is read from, and the lexemes after it are those of what
is left. -/
theorem exists_readToken_of_lexemes {fuel : Nat} {text : List Char} {before after : List Lexeme}
    {lexeme : Lexeme} (h : lexemes fuel text = .ok (before ++ lexeme :: after)) :
    ∃ fuel' c rest left, readToken c rest = .ok (lexeme.token?, left) ∧
      lexeme.text = c :: rest.take (rest.length - left.length) ∧ lexemes fuel' left = .ok after ∧
      (before = [] → text = c :: rest) := by
  induction before generalizing fuel text with
  | nil =>
      cases text with
      | nil => exact absurd h (by cases fuel <;> simp [lexemes])
      | cons c rest =>
          cases fuel with
          | zero => exact absurd h (by simp [lexemes])
          | succ fuel =>
              obtain ⟨token?, left, more, hread, hmore, hfound⟩ := lexemes_cons_eq_ok h
              obtain ⟨rfl, rfl⟩ := List.cons.inj hfound
              exact ⟨fuel, c, rest, left, hread, rfl, hmore, fun _ => rfl⟩
  | cons first before ih =>
      cases text with
      | nil => exact absurd h (by cases fuel <;> simp [lexemes])
      | cons c rest =>
          cases fuel with
          | zero => exact absurd h (by simp [lexemes])
          | succ fuel =>
              obtain ⟨token?, left, more, -, hmore, hfound⟩ := lexemes_cons_eq_ok h
              -- the first lexeme is read before, and the one looked for among those behind it
              obtain ⟨-, rfl⟩ := List.cons.inj hfound
              obtain ⟨fuel', c', rest', left', hread, htext, hafter, -⟩ := ih hmore
              exact ⟨fuel', c', rest', left', hread, htext, hafter, fun hnil => by simp at hnil⟩

/-! ## What a token is read from -/

theorem map_eq_ok {α β : Type} {f : α → β} {result : Except SyntaxError α} {value : β}
    (h : result.map f = .ok value) : ∃ found, result = .ok found ∧ f found = value := by
  cases result with
  | error cause => exact absurd h (by simp [Except.map])
  | ok found => exact ⟨found, rfl, Except.ok.inj h⟩

/-- How a token may begin, and what it may be then. -/
inductive Begins (c : Char) (rest : List Char) (token : Token) (left : List Char) : Prop where
  | quote (hc : isWordChar c = false)
    (htoken : (∃ value, token = .string value) ∨ ∃ value, token = .word value "")
  | dollar (hc : c = '$') (htoken : token = .literal ∨ token = .parameter)
  | questionMark (hc : c = '?') (htoken : token = .parameter)
  | word (hc : startsIdentifier c = true) (hread : readWordOrLiteral c rest = .ok (token, left))
  | number (hc : c.isDigit = true ∨ c = '.') (hread : readNumber (c :: rest) = (token, left))
  | symbol (hread : readSymbol c rest = (token, left))

theorem readDollar_token {text left : List Char} {token : Token}
    (h : readDollar text = .ok (token, left)) : token = .literal ∨ token = .parameter := by
  unfold readDollar at h
  split at h
  · obtain ⟨rest, -, hrest⟩ := map_eq_ok h
    exact .inl (Prod.mk.inj hrest).1.symm
  · dsimp only at h
    split at h
    · obtain ⟨rest, -, hrest⟩ := map_eq_ok h
      exact .inl (Prod.mk.inj hrest).1.symm
    · exact .inr (Prod.mk.inj (Except.ok.inj h)).1.symm

/-- A token begins with no blank and no comment, in one of the ways above. -/
theorem begins_of_readToken {c : Char} {rest left : List Char} {token : Token}
    (h : readToken c rest = .ok (some token, left)) :
    isBlank c = false ∧ ¬['-', '-'] <+: c :: rest ∧ ¬['/', '*'] <+: c :: rest ∧
      Begins c rest token left := by
  unfold readToken at h
  dsimp only at h
  split at h
  · exact absurd h (by simp)
  rename_i hblank
  refine ⟨by simpa using hblank, ?_⟩
  split at h
  · exact absurd h (by simp)
  · obtain ⟨_, -, hnone⟩ := map_eq_ok h
    exact absurd hnone (by simp)
  · -- a string
    obtain ⟨⟨found, after⟩, hquoted, hfound⟩ := map_eq_ok h
    obtain ⟨⟨contents, after'⟩, -, hcontents⟩ := map_eq_ok hquoted
    simp only [Prod.mk.injEq, Option.some.injEq] at hfound hcontents
    refine ⟨by simp, by simp, .quote (by decide) (.inl ⟨String.ofList contents, ?_⟩)⟩
    rw [← hfound.1, ← hcontents.1]
  · -- a dollar quote or a parameter
    obtain ⟨⟨found, after⟩, hdollar, hfound⟩ := map_eq_ok h
    simp only [Prod.mk.injEq, Option.some.injEq] at hfound
    refine ⟨by simp, by simp, .dollar rfl ?_⟩
    rw [← hfound.1]
    exact readDollar_token hdollar
  · simp only [Except.ok.injEq, Prod.mk.injEq, Option.some.injEq] at h
    exact ⟨by simp, by simp, .questionMark rfl h.1.symm⟩
  · rename_i hdash hslash
    have hnotDash : ¬['-', '-'] <+: c :: rest := by
      rintro ⟨more, hmore⟩
      obtain ⟨rfl, rfl⟩ := List.cons.inj hmore
      exact hdash more rfl rfl
    have hnotSlash : ¬['/', '*'] <+: c :: rest := by
      rintro ⟨more, hmore⟩
      obtain ⟨rfl, rfl⟩ := List.cons.inj hmore
      exact hslash more rfl rfl
    refine ⟨hnotDash, hnotSlash, ?_⟩
    split at h
    · -- a name in quotes
      rename_i hmark
      obtain ⟨⟨found, after⟩, hquoted, hfound⟩ := map_eq_ok h
      obtain ⟨⟨contents, after'⟩, -, hcontents⟩ := map_eq_ok hquoted
      simp only [Prod.mk.injEq, Option.some.injEq] at hfound hcontents
      refine .quote ?_ (.inr ⟨String.ofList contents, ?_⟩)
      · simp only [Bool.or_eq_true, beq_iff_eq] at hmark
        rcases hmark with rfl | hc
        · decide
        · rw [← Char.ofNat_toNat c, hc]
          decide
      · rw [← hfound.1, ← hcontents.1]
    split at h
    · -- a word, or a literal with a letter before it
      rename_i hstarts
      obtain ⟨⟨found, after⟩, hword, hfound⟩ := map_eq_ok h
      simp only [Prod.mk.injEq, Option.some.injEq] at hfound
      obtain ⟨rfl, rfl⟩ := hfound
      simp only [Bool.and_eq_true] at hstarts
      exact .word hstarts.1 hword
    split at h
    · rename_i hnumber
      simp only [Except.ok.injEq, Prod.mk.injEq, Option.some.injEq] at h
      exact .number (by simpa using hnumber) (Prod.ext h.1 h.2)
    · simp only [Except.ok.injEq, Prod.mk.injEq, Option.some.injEq] at h
      exact .symbol (Prod.ext h.1 h.2)

theorem of_readWordOrLiteral {c : Char} {rest left : List Char} {token : Token}
    (h : readWordOrLiteral c rest = .ok (token, left)) :
    token = .literal ∨ (token = .ofWord (c :: rest.takeWhile continuesIdentifier) ∧
      left = rest.dropWhile continuesIdentifier) := by
  -- a literal is what some reader of its contents leaves
  have hliteral : ∀ {α : Type} {f : α → Token × List Char} {result : Except SyntaxError α},
      (∀ found, (f found).1 = .literal) → result.map f = .ok (token, left) → token = .literal := by
    intro α f result hf hresult
    obtain ⟨found, -, hfound⟩ := map_eq_ok hresult
    rw [← hf found, hfound]
  have hword : ∀ {word : Token × List Char}, (Except.ok word : Lexed Token) = .ok (token, left) →
      word = (.ofWord (c :: rest.takeWhile continuesIdentifier),
        rest.dropWhile continuesIdentifier) →
      token = .ofWord (c :: rest.takeWhile continuesIdentifier) ∧
        left = rest.dropWhile continuesIdentifier := by
    intro word hok heq
    rw [heq] at hok
    obtain ⟨rfl, rfl⟩ := Prod.mk.inj (Except.ok.inj hok)
    exact ⟨rfl, rfl⟩
  unfold readWordOrLiteral at h
  dsimp only at h
  split at h
  · split at h
    · exact .inl (hliteral (fun _ => rfl) h)
    · split at h
      · exact .inl (hliteral (fun _ => rfl) h)
      · exact .inr (hword h rfl)
  · split at h
    · exact .inl (hliteral (fun _ => rfl) h)
    · exact .inr (hword h rfl)
  · split at h
    · exact .inl (hliteral (fun _ => rfl) h)
    · exact .inr (hword h rfl)
  · exact .inr (hword h rfl)

theorem of_readNumber {text left : List Char} {token : Token}
    (h : readNumber text = (token, left)) :
    token = .literal ∨ token = .number ∨ token = .symbol "." := by
  unfold readNumber at h
  dsimp only at h
  split at h
  · exact .inl (Prod.mk.inj h).1.symm
  · split at h
    · split at h
      · exact .inr (.inl (Prod.mk.inj h).1.symm)
      · exact .inr (.inr (Prod.mk.inj h).1.symm)
    · exact .inr (.inr (Prod.mk.inj h).1.symm)
  · exact .inr (.inl (Prod.mk.inj h).1.symm)
  · exact .inr (.inl (Prod.mk.inj h).1.symm)

theorem ne_nil_of_mem_longSymbols : ∀ text ∈ longSymbols, text.toList ≠ [] := by decide

theorem of_readSymbol {c : Char} {rest left : List Char} {token : Token}
    (h : readSymbol c rest = (token, left)) :
    ∃ text, token = .symbol text ∧ text.toList.head? = some c ∧
      left = (c :: rest).drop text.length := by
  unfold readSymbol at h
  split at h
  · rename_i text hfind
    obtain ⟨rfl, rfl⟩ := Prod.mk.inj h
    refine ⟨text, rfl, ?_, rfl⟩
    have hne := ne_nil_of_mem_longSymbols text (List.mem_of_find?_eq_some hfind)
    obtain ⟨first, others, htext⟩ := List.exists_cons_of_ne_nil hne
    have hfront := List.find?_some hfind
    rw [htext, List.isPrefixOf_cons_cons, Bool.and_eq_true, beq_iff_eq] at hfront
    rw [htext, List.head?_cons, hfront.1]
  · obtain ⟨rfl, rfl⟩ := Prod.mk.inj h
    exact ⟨String.ofList [c], rfl, by simp, by simp⟩

/-- A symbol of one character is read from that character alone. -/
theorem eq_of_readToken_symbol {c : Char} {rest left : List Char} {text : String}
    (h : readToken c rest = .ok (some (.symbol text), left)) (hone : text.length = 1)
    (hpoint : text ≠ ".") : [c] = text.toList ∧ left = rest := by
  obtain ⟨-, -, -, hbegins⟩ := begins_of_readToken h
  cases hbegins with
  | quote _ htoken => simp at htoken
  | dollar _ htoken => simp at htoken
  | questionMark _ htoken => simp at htoken
  | word _ hread =>
      rcases of_readWordOrLiteral hread with htoken | ⟨htoken, -⟩
      · exact absurd htoken (by simp)
      · exact absurd htoken (by simp [Token.ofWord])
  -- a point may be read as a number, which is left out; the other tokens are no symbols
  | number _ hread => exact absurd (of_readNumber hread) (by simp [hpoint])
  | symbol hread =>
      obtain ⟨text', htext, hfirst, rfl⟩ := of_readSymbol hread
      obtain rfl := Token.symbol.inj htext
      obtain ⟨more, hmore⟩ := List.head?_eq_some_iff.1 hfirst
      have hlength : more.length = 0 := by
        have := congrArg List.length hmore
        rw [String.length_toList, hone, List.length_cons] at this
        omega
      rw [List.length_eq_zero_iff.1 hlength] at hmore
      exact ⟨hmore.symm, by rw [hone]; rfl⟩

/-- A keyword is read from a whole word that is spelled like it. -/
theorem of_readToken_keyword {c : Char} {rest left : List Char} {token : Token} {keyword : String}
    (h : readToken c rest = .ok (some token, left)) (hkeyword : token.isKeyword keyword = true)
    (hne : keyword ≠ "") :
    startsIdentifier c = true ∧ left = rest.dropWhile continuesIdentifier ∧
      (c :: rest.takeWhile continuesIdentifier).flatMap keywordLetters = keyword.toList := by
  obtain ⟨-, -, -, hbegins⟩ := begins_of_readToken h
  cases hbegins with
  | quote _ htoken =>
      rcases htoken with ⟨value, rfl⟩ | ⟨value, rfl⟩
      · exact absurd hkeyword (by simp [Token.isKeyword])
      · exact absurd (beq_iff_eq.1 hkeyword) hne.symm
  | dollar _ htoken => rcases htoken with rfl | rfl <;> simp [Token.isKeyword] at hkeyword
  | questionMark _ htoken => simp [htoken, Token.isKeyword] at hkeyword
  -- only words are keywords, and a name in quotes is the empty one
  | word hstarts hread =>
      rcases of_readWordOrLiteral hread with rfl | ⟨rfl, rfl⟩
      · simp [Token.isKeyword] at hkeyword
      · rw [Token.ofWord, Token.isKeyword, beq_iff_eq] at hkeyword
        rw [← hkeyword, String.toList_ofList]
        exact ⟨hstarts, rfl, rfl⟩
  | number _ hread =>
      rcases of_readNumber hread with rfl | rfl | rfl <;> simp [Token.isKeyword] at hkeyword
  | symbol hread =>
      obtain ⟨text, rfl, -⟩ := of_readSymbol hread
      simp [Token.isKeyword] at hkeyword

theorem take_length_sub_dropWhile (p : Char → Bool) (text : List Char) :
    text.take (text.length - (text.dropWhile p).length) = text.takeWhile p := by
  have hlength : text.length = (text.takeWhile p).length + (text.dropWhile p).length := by
    rw [← List.length_append, List.takeWhile_append_dropWhile]
  rw [hlength, Nat.add_sub_cancel]
  calc text.take (text.takeWhile p).length
      = (text.takeWhile p ++ text.dropWhile p).take (text.takeWhile p).length := by
        rw [List.takeWhile_append_dropWhile]
    _ = text.takeWhile p := List.take_left

/-- Whether a token is a symbol that looks like a part of a word. -/
def Token.isWordSymbol : Token → Bool
  | .symbol text => text.toList.head?.any isWordChar
  | _ => false

theorem continuesIdentifier_of_startsIdentifier {c : Char} (h : startsIdentifier c = true) :
    continuesIdentifier c = true := by
  simp only [startsIdentifier, Bool.or_eq_true] at h
  rcases h with ((h | h) | h) | h <;> simp [continuesIdentifier, h]

/-- A token behind a word begins with a character that is no part of a word. -/
theorem not_isWordChar_of_readToken {c : Char} {rest left : List Char} {token : Token}
    (h : readToken c rest = .ok (some token, left)) (hc : continuesIdentifier c = false)
    (hsymbol : token.isWordSymbol = false) : isWordChar c = false := by
  obtain ⟨-, -, -, hbegins⟩ := begins_of_readToken h
  cases hbegins with
  | quote hquote _ => exact hquote
  | dollar hdollar _ =>
      rw [hdollar] at hc
      exact absurd hc (by decide)
  | questionMark hmark _ =>
      rw [hmark]
      decide
  | word hstarts _ => simp [continuesIdentifier_of_startsIdentifier hstarts] at hc
  | number hnumber _ =>
      rcases hnumber with hdigit | rfl
      · simp [continuesIdentifier, hdigit] at hc
      · decide
  -- a symbol may begin with a character of words, but then it is left out
  | symbol hread =>
      obtain ⟨text, rfl, hfirst, -⟩ := of_readSymbol hread
      simpa [Token.isWordSymbol, hfirst] using hsymbol

/-! ## How keywords are spelled -/

/-- The pairs of letters that one character may contribute to a keyword. -/
def joinedLetters : List (Char × Char) := [('S', 'S'), ('F', 'F'), ('F', 'I'), ('F', 'L'), ('S', 'T')]

theorem toLower_toUpper_of_lt {c : Char} (h : c.toNat < 128) : c.toUpper.toLower = c.toLower := by
  have hall : ∀ n < 128, (Char.ofNat n).toUpper.toLower = (Char.ofNat n).toLower := by
    decide +kernel
  have := hall c.toNat h
  rwa [Char.ofNat_toNat] at this

/-- A character contributes a letter that folds like it, or one that is not of the basic alphabet or
the dotless `I`, or several letters. -/
theorem keywordLetters_cases (c : Char) :
    (∃ u, keywordLetters c = [u] ∧ (fold c = u.toLower ∨ u = 'I' ∨ 128 ≤ u.toNat)) ∨
      ∃ x y more, keywordLetters c = x :: y :: more ∧ (x, y) ∈ joinedLetters := by
  by_cases hbasic : c.toNat < 128
  · refine .inl ⟨c.toUpper, by rw [keywordLetters, if_pos hbasic], .inl ?_⟩
    rw [toLower_toUpper_of_lt hbasic, fold, if_pos hbasic]
  -- from here on the characters are told apart by their code points
  rw [keywordLetters, if_neg hbasic]
  by_cases hsharp : (c.toNat == 0xDF) = true
  · rw [if_pos hsharp]
    exact .inr ⟨'S', 'S', [], rfl, by decide⟩
  rw [if_neg hsharp]
  by_cases hdotless : (c.toNat == 0x131) = true
  · rw [if_pos hdotless]
    exact .inl ⟨'I', rfl, .inr (.inl rfl)⟩
  rw [if_neg hdotless]
  by_cases hlong : (c.toNat == 0x17F) = true
  · rw [if_pos hlong]
    refine .inl ⟨'S', rfl, .inl ?_⟩
    rw [← Char.ofNat_toNat c, beq_iff_eq.1 hlong]
    decide +kernel
  rw [if_neg hlong]
  by_cases hff : (c.toNat == 0xFB00) = true
  · rw [if_pos hff]
    exact .inr ⟨'F', 'F', [], rfl, by decide⟩
  rw [if_neg hff]
  by_cases hfi : (c.toNat == 0xFB01) = true
  · rw [if_pos hfi]
    exact .inr ⟨'F', 'I', [], rfl, by decide⟩
  rw [if_neg hfi]
  by_cases hfl : (c.toNat == 0xFB02) = true
  · rw [if_pos hfl]
    exact .inr ⟨'F', 'L', [], rfl, by decide⟩
  rw [if_neg hfl]
  by_cases hffi : (c.toNat == 0xFB03) = true
  · rw [if_pos hffi]
    exact .inr ⟨'F', 'F', ['I'], rfl, by decide⟩
  rw [if_neg hffi]
  by_cases hffl : (c.toNat == 0xFB04) = true
  · rw [if_pos hffl]
    exact .inr ⟨'F', 'F', ['L'], rfl, by decide⟩
  rw [if_neg hffl]
  by_cases hst : (c.toNat == 0xFB05 || c.toNat == 0xFB06) = true
  · rw [if_pos hst]
    exact .inr ⟨'S', 'T', [], rfl, by decide⟩
  · rw [if_neg hst]
    exact .inl ⟨c, rfl, .inr (.inr (Nat.le_of_not_lt hbasic))⟩

/-- The letters of a word fold to those of the keyword that it spells, if no two of them can be
written as one character. -/
theorem map_fold_of_keywordLetters {piece keyword : List Char}
    (hbasic : ∀ u ∈ keyword, u ≠ 'I' ∧ u.toNat < 128)
    (hpairs : ∀ pair ∈ keyword.zip keyword.tail, pair ∉ joinedLetters)
    (h : piece.flatMap keywordLetters = keyword) : piece.map fold = keyword.map Char.toLower := by
  induction piece generalizing keyword with
  | nil => rw [← h, List.flatMap_nil, List.map_nil, List.map_nil]
  | cons c piece ih =>
      rw [List.flatMap_cons] at h
      rcases keywordLetters_cases c with ⟨u, hletter, hfold⟩ | ⟨x, y, more, hletters, hpair⟩
      · rw [hletter, List.singleton_append] at h
        obtain rfl := h
        obtain ⟨hu, husmall⟩ := hbasic u List.mem_cons_self
        -- the keyword has no `I`, which a dotless letter may spell, and only basic letters
        have hc : fold c = u.toLower := by
          rcases hfold with hfold | rfl | hlarge
          · exact hfold
          · exact absurd rfl hu
          · omega
        have hrest : ∀ pair ∈ (piece.flatMap keywordLetters).zip (piece.flatMap keywordLetters).tail,
            pair ∉ joinedLetters := by
          intro pair hmem
          apply hpairs
          cases hspelled : piece.flatMap keywordLetters with
          | nil => simp [hspelled] at hmem
          | cons v vs =>
              rw [hspelled] at hmem
              exact List.mem_cons_of_mem _ hmem
        rw [List.map_cons, List.map_cons, hc,
          ih (fun v hv => hbasic v (List.mem_cons_of_mem _ hv)) hrest rfl]
      · rw [hletters] at h
        obtain rfl := h
        exact absurd hpair (hpairs (x, y) List.mem_cons_self)

end RepoPolicy.Sql
