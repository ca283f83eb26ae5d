import RepoPolicy.Proofs.Sql.Grammar.Selectless
import RepoPolicy.Proofs.Sql.HiddenText
import RepoPolicy.Proofs.Sql.Lexemes
import RepoPolicy.Proofs.Text.Occurrences
import RepoPolicy.Sql.Construct

set_option autoImplicit false

/-! # Tokens in the normal form

Two readers go over a SQL text, one for its tokens and one for its normal form. They agree
(`readsByTokens`) if the normal form is what is written for the lexemes one after the other, a space
for each gap; they do not where, for instance, a comment stands inside a comment. Where they agree,
an opening parenthesis and the word `SELECT` that are next to each other as tokens are so in the
normal form (`occursIn_subqueryOpening`). -/

namespace RepoPolicy.Sql

open RepoPolicy.Text RepoPolicy.Text.Scanner

/-- What has been written once a lexeme has been read by itself. -/
def Lexeme.write (written : List Char) (lexeme : Lexeme) : List Char :=
  match lexeme.token? with
  | none => pushSpace written
  | some _ => (readFrom ⟨.code .edge, written⟩ lexeme.text).finish

/-- Whether the normal form of a text is written token by token, and no symbol among the tokens looks
like a part of a word. -/
def readsByTokens (sql : String) : Bool :=
  match lexemes sql.toList.length sql.toList with
  | .ok found =>
    normalForm sql.toList == trim (found.foldl Lexeme.write []).reverse &&
      found.all fun lexeme => !lexeme.token?.any Token.isWordSymbol
  | .error _ => false

/-! ## What stays written -/

theorem suffix_pushSpace (written : List Char) : written <:+ pushSpace written := by
  cases written with
  | nil => exact List.suffix_rfl
  | cons c written =>
      rw [pushSpace]
      split
      · exact List.suffix_rfl
      · exact List.suffix_cons ' ' (c :: written)

theorem suffix_stepCode (preceding : Preceding) (written : List Char) (c : Char) :
    written <:+ (stepCode preceding written c).written := by
  rw [stepCode]
  split
  · exact List.suffix_rfl
  split
  · exact List.suffix_rfl
  split
  · exact List.suffix_cons _ _
  split
  · exact List.suffix_cons _ _
  split
  · exact List.suffix_rfl
  split
  · exact suffix_pushSpace written
  · exact List.suffix_cons _ _

/-- One character takes nothing back of what has been written. -/
theorem suffix_step (reading : Reading) (c : Char) : reading.written <:+ (step reading c).written := by
  obtain ⟨mode, written⟩ := reading
  -- what waits is written first, and then the character is read as code
  have hcode : ∀ preceding more, written <:+ (stepCode preceding (more ++ written) c).written :=
    fun preceding more => (List.suffix_append more written).trans (suffix_stepCode _ _ _)
  cases mode with
  | code preceding => exact suffix_stepCode preceding written c
  | dash =>
      simp only [step]
      split
      · exact List.suffix_rfl
      · exact hcode .edge ['-']
  | slash =>
      simp only [step]
      split
      · exact List.suffix_rfl
      · exact hcode .edge ['/']
  | dollar tag =>
      simp only [step]
      split
      · exact (List.suffix_cons '\'' written).trans (List.suffix_cons '\'' _)
      split
      · exact List.suffix_rfl
      · simpa using hcode .word (tag ++ ['$'])
  | lineComment =>
      simp only [step]
      split
      · exact suffix_pushSpace written
      · exact List.suffix_rfl
  | blockComment star =>
      simp only [step]
      split
      · exact suffix_pushSpace written
      · exact List.suffix_rfl
  | literal escapes =>
      simp only [step]
      split
      · exact List.suffix_rfl
      split
      · exact List.suffix_rfl
      · exact List.suffix_rfl
  | escaped => exact List.suffix_rfl
  | literalQuote escapes =>
      simp only [step]
      split
      · exact List.suffix_rfl
      · exact hcode .edge ['\'']
  | quotedName => exact List.suffix_cons c written
  | dollarQuoted closing contents =>
      simp only [step]
      split
      · exact List.suffix_rfl
      · exact List.suffix_rfl

theorem suffix_readFrom (reading : Reading) (text : List Char) :
    reading.written <:+ (readFrom reading text).written := by
  induction text generalizing reading with
  | nil => exact List.suffix_rfl
  | cons c text ih => exact (suffix_step reading c).trans (ih (step reading c))

theorem suffix_finish (reading : Reading) : reading.written <:+ reading.finish := by
  obtain ⟨mode, written⟩ := reading
  cases mode with
  | dollar tag => exact (List.suffix_cons '$' written).trans (List.suffix_append tag _)
  | dash => exact List.suffix_cons '-' written
  | slash => exact List.suffix_cons '/' written
  | literalQuote escapes => exact List.suffix_cons '\'' written
  | _ => exact List.suffix_rfl

theorem suffix_write (written : List Char) (lexeme : Lexeme) : written <:+ lexeme.write written := by
  rw [Lexeme.write]
  split
  · exact suffix_pushSpace written
  · exact (suffix_readFrom ⟨.code .edge, written⟩ lexeme.text).trans (suffix_finish _)

theorem suffix_foldl_write (written : List Char) (found : List Lexeme) :
    written <:+ found.foldl Lexeme.write written := by
  induction found generalizing written with
  | nil => exact List.suffix_rfl
  | cons lexeme found ih => exact (suffix_write written lexeme).trans (ih (lexeme.write written))

/-! ## What is written for a token -/

theorem not_isBlank_of_isAlphabetic {c : Char} (h : isAlphabetic c = true) : isBlank c = false := by
  have hall : ∀ code ∈ blankCodes, isAlphabetic (Char.ofNat code) = false := by decide +kernel
  rw [Bool.eq_false_iff]
  intro hblank
  have hc := hall c.toNat (mem_blankCodes hblank)
  rw [Char.ofNat_toNat, h] at hc
  exact absurd hc (by decide)

/-- A token that begins with no `$`, blank or comment is written from its first character on. -/
theorem cons_suffix_readFrom {c : Char} {rest : List Char} (written : List Char)
    (hblank : isBlank c = false) (hdollar : c ≠ '$') (hdash : ¬['-', '-'] <+: c :: rest)
    (hslash : ¬['/', '*'] <+: c :: rest) :
    c :: written <:+ (readFrom ⟨.code .edge, written⟩ (c :: rest)).finish := by
  have hstays : ∀ reading : Reading, c :: written <:+ reading.written →
      c :: written <:+ (readFrom reading rest).finish :=
    fun reading hreading => (hreading.trans (suffix_readFrom reading rest)).trans (suffix_finish _)
  -- `-` and `/` wait for the character after them, if there is one
  have hwaits : ∀ mode, step ⟨.code .edge, written⟩ c = ⟨mode, written⟩ →
      (⟨mode, written⟩ : Reading).finish = c :: written →
      (∀ d more, rest = d :: more → step ⟨mode, written⟩ d = stepCode .edge (c :: written) d) →
      c :: written <:+ (readFrom ⟨.code .edge, written⟩ (c :: rest)).finish := by
    intro mode hstep hfinish hnext
    rw [readFrom_cons, hstep]
    cases rest with
    | nil =>
        rw [readFrom_nil]
        exact hfinish.symm ▸ List.suffix_rfl
    | cons d more =>
        rw [readFrom_cons, hnext d more rfl]
        have hcode := suffix_stepCode .edge (c :: written) d
        exact (hcode.trans (suffix_readFrom _ more)).trans (suffix_finish _)
  by_cases hisDash : c = '-'
  · subst hisDash
    refine hwaits .dash rfl rfl fun d more hrest => ?_
    have hd : d ≠ '-' := by
      rintro rfl
      exact hdash ⟨more, by rw [hrest]; rfl⟩
    simp [step, hd]
  by_cases hisSlash : c = '/'
  · subst hisSlash
    refine hwaits .slash rfl rfl fun d more hrest => ?_
    have hd : d ≠ '*' := by
      rintro rfl
      exact hslash ⟨more, by rw [hrest]; rfl⟩
    simp [step, hd]
  · apply hstays
    show c :: written <:+ (stepCode .edge written c).written
    by_cases hquote : c = '\''
    · subst hquote
      exact List.suffix_rfl
    by_cases hname : c = '"'
    · subst hname
      exact List.suffix_rfl
    · simp [stepCode, hisDash, hisSlash, hquote, hname, hdollar, hblank]

theorem readFrom_letters {piece : List Char} (h : ∀ c ∈ piece, isAlphabetic c = true)
    (preceding : Preceding) (written : List Char) :
    (readFrom ⟨.code preceding, written⟩ piece).finish = piece.reverse ++ written := by
  induction piece generalizing preceding written with
  | nil => rfl
  | cons c piece ih =>
      have hc := h c List.mem_cons_self
      have hother : ∀ d, isAlphabetic d = false → c ≠ d := by
        rintro d hd rfl
        exact absurd (hc.symm.trans hd) (by decide)
      have hstep : step ⟨.code preceding, written⟩ c = ⟨.code (preceding.next c), c :: written⟩ := by
        have hblank : isBlank c = false := not_isBlank_of_isAlphabetic hc
        simp [step, stepCode, hblank, hother '-' (by decide), hother '/' (by decide),
          hother '\'' (by decide), hother '"' (by decide), hother '$' (by decide)]
      rw [readFrom_cons, hstep, ih (fun d hd => h d (List.mem_cons_of_mem _ hd))]
      simp

/-- Gaps behind an opening parenthesis are written as one space, if there are any. -/
theorem foldl_write_gaps {gaps : List Lexeme} (h : ∀ gap ∈ gaps, gap.token? = none)
    (written : List Char) :
    ∃ space, (∀ c ∈ space, isBlank c = true) ∧
      gaps.foldl Lexeme.write ('(' :: written) = space ++ '(' :: written := by
  have hspace : ∀ gap : Lexeme, gap.token? = none → ∀ before,
      gap.write before = pushSpace before := by
    intro gap hgap before
    rw [Lexeme.write, hgap]
  -- a space is not doubled
  have hmore : ∀ more : List Lexeme, (∀ gap ∈ more, gap.token? = none) →
      more.foldl Lexeme.write (' ' :: '(' :: written) = ' ' :: '(' :: written := by
    intro more hmore
    induction more with
    | nil => rfl
    | cons gap more ih =>
        rw [List.foldl_cons, hspace gap (hmore gap List.mem_cons_self)]
        exact ih fun other hother => hmore other (List.mem_cons_of_mem _ hother)
  cases gaps with
  | nil => exact ⟨[], by simp, rfl⟩
  | cons gap gaps =>
      refine ⟨[' '], by simp [isBlank], ?_⟩
      rw [List.foldl_cons, hspace gap (h gap List.mem_cons_self)]
      exact hmore gaps fun other hother => h other (List.mem_cons_of_mem _ hother)

/-- A character of a word that folds to a letter of the basic alphabet is a letter itself. -/
theorem isAlphabetic_of_fold {c : Char} (hc : continuesIdentifier c = true)
    (hfold : (fold c).isLower = true) : isAlphabetic c = true := by
  simp only [continuesIdentifier, Bool.or_eq_true, beq_iff_eq] at hc
  rcases hc with ((((halpha | hdigit) | rfl) | rfl) | rfl) | rfl
  · exact halpha
  · have hcode := toNat_lt_of_isAlphanum (by rw [Char.isAlphanum, hdigit, Bool.or_true])
    have hnot := of_basic (fun c => !(fold c).isLower) hcode hdigit (by decide)
    exact absurd hfold (by simpa using hnot)
  all_goals exact absurd hfold (by decide)

theorem isWordChar_of_isAlphabetic {c : Char} (h : isAlphabetic c = true) : isWordChar c = true := by
  rw [isAlphabetic] at h
  rw [isWordChar]
  split at h
  · rw [if_pos ‹_›, Char.isAlphanum, h]
    rfl
  · rw [if_neg ‹_›, h]
    rfl

/-! ## Cutting off blanks -/

theorem dropWhile_append_cons {p : Char → Bool} {c : Char} (hc : p c = false)
    (before rest : List Char) :
    (before ++ c :: rest).dropWhile p = before.dropWhile p ++ c :: rest := by
  induction before with
  | nil => simp [hc]
  | cons d before ih =>
      by_cases hd : p d = true
      · simp [hd, ih]
      · simp [hd]

/-- A piece that begins and ends with no blank stays when a text is trimmed, and behind it stands
what stood there before or the beginning of it. -/
theorem trim_around {first last : Char} (hfirst : isBlank first = false)
    (hlast : isBlank last = false) (before middle behind : List Char) :
    ∃ before' behind', trim (before ++ first :: (middle ++ last :: behind))
        = before' ++ first :: (middle ++ last :: behind') ∧ behind' <+: behind := by
  refine ⟨before.dropWhile isBlank, (behind.reverse.dropWhile isBlank).reverse, ?_, ?_⟩
  · rw [trim, trimStart, dropWhile_append_cons hfirst, trimEnd]
    have hreverse : (before.dropWhile isBlank ++ first :: (middle ++ last :: behind)).reverse
        = behind.reverse ++ last :: (before.dropWhile isBlank ++ first :: middle).reverse := by
      simp
    rw [hreverse, dropWhile_append_cons hlast]
    simp
  · rw [← List.reverse_suffix, List.reverse_reverse]
    exact List.dropWhile_suffix isBlank

/-! ## An opened SELECT in the normal form -/

/-- Behind a word the text ends, or goes on with a character that is no part of a word. -/
theorem foldl_write_behind_word {fuel : Nat} {left : List Char} {after : List Lexeme}
    (hafter : lexemes fuel left = .ok after)
    (hleft : ∀ c rest, left = c :: rest → continuesIdentifier c = false)
    (hsymbols : ∀ lexeme ∈ after, lexeme.token?.any Token.isWordSymbol = false)
    {last : Char} (hlast : isBlank last = false) (written : List Char) :
    after.foldl Lexeme.write (last :: written) = last :: written ∨
      ∃ c, isWordChar c = false ∧
        c :: last :: written <:+ after.foldl Lexeme.write (last :: written) := by
  cases after with
  | nil => exact .inl rfl
  | cons lexeme after =>
      right
      have hsplit : lexemes fuel left = .ok ([] ++ lexeme :: after) := hafter
      obtain ⟨_, c, rest, left', hread, htext, -, hstart⟩ := exists_readToken_of_lexemes hsplit
      have hc := hleft c rest (hstart rfl)
      rw [List.foldl_cons, Lexeme.write]
      cases htoken : lexeme.token? with
      | none =>
          have hspace : pushSpace (last :: written) = ' ' :: last :: written := by
            have hne : (last == ' ') = false := by
              rw [beq_eq_false_iff_ne]
              rintro rfl
              exact absurd hlast (by decide)
            simp [pushSpace, hne]
          rw [hspace]
          exact ⟨' ', by decide, suffix_foldl_write _ after⟩
      | some token =>
          have hsymbol : token.isWordSymbol = false := by
            simpa [htoken] using hsymbols lexeme List.mem_cons_self
          rw [htoken] at hread
          obtain ⟨hblank, hdash, hslash, -⟩ := begins_of_readToken hread
          have hdollar : c ≠ '$' := by
            rintro rfl
            exact absurd hc (by decide)
          -- no comment begins with the token, so none begins with the part that belongs to it
          have htake : ∀ opening : List Char, ¬opening <+: c :: rest →
              ¬opening <+: c :: rest.take (rest.length - left'.length) :=
            fun opening hnot hfront => hnot
              (hfront.trans (List.prefix_cons_inj c |>.2 (List.take_prefix _ _)))
          refine ⟨c, not_isWordChar_of_readToken hread hc hsymbol, ?_⟩
          rw [htext]
          exact (cons_suffix_readFrom (last :: written) hblank hdollar (htake _ hdash)
            (htake _ hslash)).trans (suffix_foldl_write _ after)

theorem occursIn_of_pieces {before space piece behind : List Char} {last : Char}
    (hspace : ∀ c ∈ space, isBlank c = true)
    (hpiece : (piece ++ [last]).map fold = "select".toList) (hlast : isWordChar last = true)
    (hbehind : behind.head?.any isWordChar = false) :
    occursIn subqueryOpening (before ++ '(' :: (space ++ (piece ++ [last]) ++ behind)) = true := by
  -- the places behind the parenthesis, behind the blanks, and behind the word
  let opened : Place := ⟨'(' :: before.reverse, space ++ (piece ++ [last]) ++ behind⟩
  let spaced : Place := ⟨space.reverse ++ opened.before, piece ++ [last] ++ behind⟩
  let stop : Place := ⟨(piece ++ [last]).reverse ++ spaced.before, behind⟩
  have hopened : opened ∈ exactly '(' ⟨before.reverse, '(' :: opened.after⟩ :=
    mem_exactly.2 ⟨opened.after, rfl, rfl⟩
  have hspaced : spaced ∈ blanks opened :=
    mem_many.2 ⟨space, piece ++ [last] ++ behind, List.append_assoc _ _ _, hspace, rfl⟩
  have hread : stop ∈ letters "select" spaced := by
    rw [letters_of_map_fold hpiece spaced.before behind]
    exact List.mem_singleton_self stop
  have hedge : stop ∈ wordEdge stop := by
    refine mem_wordEdge.2 ⟨?_, rfl⟩
    simp [Place.atWordEdge, stop, hlast, hbehind]
  rw [occursIn_iff]
  refine ⟨before, '(' :: opened.after, stop, rfl, ?_⟩
  exact mem_sequence_cons.2 ⟨opened, hopened, mem_sequence_cons.2 ⟨spaced, hspaced,
    mem_sequence_cons.2 ⟨stop, hread, mem_sequence_cons.2 ⟨stop, hedge, mem_sequence_nil.2 rfl⟩⟩⟩⟩

/-- The word `SELECT` is written as it stands, and consists of letters. -/
theorem exists_select_piece {lexeme : Lexeme} {token : Token} {c : Char} {rest left : List Char}
    (htoken : lexeme.token? = some token) (hkeyword : token.isKeyword "SELECT" = true)
    (hread : readToken c rest = .ok (some token, left))
    (htext : lexeme.text = c :: rest.take (rest.length - left.length)) :
    ∃ piece last, (piece ++ [last]).map fold = "select".toList ∧ isAlphabetic last = true ∧
      (∀ written, lexeme.write written = (piece ++ [last]).reverse ++ written) ∧
      ∀ d more, left = d :: more → continuesIdentifier d = false := by
  obtain ⟨hstarts, hleft, hletters⟩ := of_readToken_keyword hread hkeyword (by decide)
  rw [hleft, take_length_sub_dropWhile] at htext
  have hfold : lexeme.text.map fold = "select".toList := by
    rw [htext, map_fold_of_keywordLetters (by simp) (by simp [joinedLetters]) hletters]
    decide
  -- no letter of the word opens anything when it is read as code
  have halpha : ∀ d ∈ lexeme.text, isAlphabetic d = true := by
    intro d hd
    have hmem : fold d ∈ "select".toList := hfold ▸ List.mem_map_of_mem hd
    have hlower : "select".toList.all Char.isLower = true := by decide
    refine isAlphabetic_of_fold ?_ (List.all_eq_true.1 hlower _ hmem)
    rw [htext] at hd
    rcases List.mem_cons.1 hd with rfl | hd
    · exact continuesIdentifier_of_startsIdentifier hstarts
    · exact List.all_eq_true.1 List.all_takeWhile d hd
  have hwrite : ∀ written, lexeme.write written = lexeme.text.reverse ++ written := by
    intro written
    rw [Lexeme.write, htoken]
    exact readFrom_letters halpha .edge written
  obtain ⟨piece, last, hpiece⟩ : ∃ piece last, lexeme.text = piece ++ [last] :=
    ⟨_, _, (List.dropLast_concat_getLast (by simp [htext])).symm⟩
  rw [hpiece] at hfold halpha hwrite
  refine ⟨piece, last, hfold, halpha last (by simp), hwrite, ?_⟩
  intro d more hmore
  have hhead := List.head?_dropWhile_not continuesIdentifier rest
  rw [← hleft, hmore] at hhead
  simpa using hhead

/-- An opening parenthesis and the word `SELECT` behind it, among the lexemes of a text: what is
written for them, and what comes next. -/
theorem exists_lexemes_of_opensSelect {text : List Char} {fuel : Nat} {all : List Lexeme}
    (hall : lexemes fuel text = .ok all)
    (hopens : Grammar.opensSelect (all.filterMap Lexeme.token?) = true) :
    ∃ front opening gaps word after, all = front ++ opening :: (gaps ++ word :: after) ∧
      (∀ written, opening.write written = '(' :: written) ∧ (∀ gap ∈ gaps, gap.token? = none) ∧
      ∃ piece last, (piece ++ [last]).map fold = "select".toList ∧ isAlphabetic last = true ∧
        (∀ written, word.write written = (piece ++ [last]).reverse ++ written) ∧
        ∃ fuel' left, lexemes fuel' left = .ok after ∧
          ∀ c more, left = c :: more → continuesIdentifier c = false := by
  obtain ⟨_, select, _, htokens, hselect⟩ := Grammar.exists_of_opensSelect hopens
  obtain ⟨front, rear, rfl, -, hrear⟩ := List.filterMap_eq_append_iff.1 htokens
  obtain ⟨gaps', opening, behind, rfl, -, hopening, hbehind⟩ := List.filterMap_eq_cons_iff.1 hrear
  obtain ⟨gaps, word, after, rfl, hgaps, hword, -⟩ := List.filterMap_eq_cons_iff.1 hbehind
  -- the parenthesis and the word are read one after the other, with only gaps between
  rw [← List.append_assoc] at hall
  obtain ⟨_, c, rest, left, hread, htext, hnext, -⟩ := exists_readToken_of_lexemes hall
  rw [hopening] at hread
  obtain ⟨hc, rfl⟩ := eq_of_readToken_symbol hread (by decide) (by decide)
  obtain ⟨rfl, -⟩ := List.cons.inj hc
  obtain ⟨fuel', d, rest', left', hread', htext', hafter, -⟩ := exists_readToken_of_lexemes hnext
  rw [hword] at hread'
  obtain ⟨piece, last, hpiece, hletter, hwritten, hends⟩ :=
    exists_select_piece hword hselect hread' htext'
  refine ⟨front ++ gaps', opening, gaps, word, after, (List.append_assoc _ _ _).symm, ?_, hgaps,
    piece, last, hpiece, hletter, hwritten, fuel', left', hafter, hends⟩
  intro written
  rw [Lexeme.write, hopening, htext, Nat.sub_self, List.take_zero]
  rfl

/-- **A `SELECT` that a parenthesis opens stands in the normal form**, if the text is read by
tokens. -/
theorem occursIn_subqueryOpening {sql : String} {found : List Token}
    (hreads : readsByTokens sql = true) (hfound : tokenize sql = .ok found)
    (hopens : Grammar.opensSelect found = true) :
    occursIn subqueryOpening (normalForm sql.toList) = true := by
  rw [tokenize, tokens_eq_map_lexemes] at hfound
  obtain ⟨all, hall, rfl⟩ := map_eq_ok hfound
  simp only [readsByTokens, hall, Bool.and_eq_true, beq_iff_eq, List.all_eq_true,
    Bool.not_eq_eq_eq_not, Bool.not_true] at hreads
  obtain ⟨hform, hsymbols⟩ := hreads
  obtain ⟨front, opening, gaps, word, after, rfl, hopening, hgaps, piece, last, hpiece, hletter,
    hword, fuel, left, hafter, hends⟩ := exists_lexemes_of_opensSelect hall hopens
  -- what is written up to the word, the last character first
  let before := front.foldl Lexeme.write []
  obtain ⟨space, hspace, hgapped⟩ := foldl_write_gaps hgaps before
  let spelled := piece.reverse ++ (space ++ '(' :: before)
  have htotal : (front ++ opening :: (gaps ++ word :: after)).foldl Lexeme.write []
      = after.foldl Lexeme.write (last :: spelled) := by
    rw [List.foldl_append, List.foldl_cons, hopening, List.foldl_append, hgapped, List.foldl_cons,
      hword]
    simp [spelled]
  -- and behind it
  have hblank := not_isBlank_of_isAlphabetic hletter
  obtain ⟨behind, hreverse, hedge⟩ : ∃ behind,
      (after.foldl Lexeme.write (last :: spelled)).reverse
        = before.reverse ++ '(' :: (space.reverse ++ piece ++ last :: behind) ∧
      behind.head?.any isWordChar = false := by
    have hsymbols' : ∀ lexeme ∈ after, lexeme.token?.any Token.isWordSymbol = false :=
      fun lexeme hmem => hsymbols lexeme (by simp [hmem])
    rcases foldl_write_behind_word hafter hends hsymbols' hblank spelled with heq | ⟨c, hc, more, heq⟩
    · exact ⟨[], by simp [spelled, heq], rfl⟩
    · exact ⟨c :: more.reverse, by simp [← heq, spelled], by simp [hc]⟩
  obtain ⟨before', behind', htrim, hfront⟩ := trim_around (by decide : isBlank '(' = false) hblank
    before.reverse (space.reverse ++ piece) behind
  have hedge' : behind'.head?.any isWordChar = false := by
    cases behind' with
    | nil => rfl
    | cons c more =>
        obtain ⟨others, rfl⟩ := hfront
        exact hedge
  have hpieces : before' ++ '(' :: (space.reverse ++ piece ++ last :: behind')
      = before' ++ '(' :: (space.reverse ++ (piece ++ [last]) ++ behind') := by
    simp
  rw [hform, htotal, hreverse, htrim, hpieces]
  exact occursIn_of_pieces (by simpa using hspace) hpiece (isWordChar_of_isAlphabetic hletter) hedge'

end RepoPolicy.Sql
