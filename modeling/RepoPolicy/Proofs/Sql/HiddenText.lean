import RepoPolicy.Sql.KeywordScan
import RepoPolicy.Sql.Projection
import RepoPolicy.Proofs.Text.Occurrences

set_option autoImplicit false

/-! # Hidden text

The contents of string literals, dollar quotes and comments are *hidden*: the reader passes over
them and writes the same for all of them. `Hidden` lists the kinds of hidden text with what opens
and closes them, `Hidden.opensAfter` says where one may begin, and `Hidden.holds` what may stand
inside it.

The main fact is `readFrom_hidden`: the state of the reader behind a hidden text does not depend on
its contents. Since every text analysis looks at a SQL text only through its normal form and the
quote it leaves open, none of them can tell two contents apart (`hidden_contents_are_irrelevant`).
-/

namespace RepoPolicy.Sql

open RepoPolicy.Text

/-! ## Reading in pieces -/

@[simp] theorem readFrom_nil (reading : Reading) : readFrom reading [] = reading := rfl

@[simp] theorem readFrom_cons (reading : Reading) (c : Char) (text : List Char) :
    readFrom reading (c :: text) = readFrom (step reading c) text := rfl

theorem readFrom_append (reading : Reading) (a b : List Char) :
    readFrom reading (a ++ b) = readFrom (readFrom reading a) b :=
  List.foldl_append

theorem scan_append (a b : List Char) : scan (a ++ b) = readFrom (scan a) b :=
  readFrom_append .start a b

/-- Whether no space is written next: nothing has been written yet, or a space. -/
def isSpaced (written : List Char) : Bool := written.head?.all (· == ' ')

theorem pushSpace_of_isSpaced {written : List Char} (h : isSpaced written = true) :
    pushSpace written = written := by
  cases written with
  | nil => rfl
  | cons c written =>
      have hc : (c == ' ') = true := h
      rw [pushSpace, if_pos hc]

theorem pushSpace_of_not_isSpaced {written : List Char} (h : isSpaced written = false) :
    pushSpace written = ' ' :: written := by
  cases written with
  | nil => cases h
  | cons c written =>
      have hc : (c == ' ') = false := h
      rw [pushSpace, if_neg (by simp [hc])]

theorem isSpaced_pushSpace (written : List Char) : isSpaced (pushSpace written) = true := by
  by_cases h : isSpaced written = true
  · rw [pushSpace_of_isSpaced h, h]
  · rw [pushSpace_of_not_isSpaced (by simpa using h)]
    rfl

/-! ## Where code is read

A `-`, a `/`, a `$` and the closing quote of a literal wait for the character after them. That
character is read as code unless it completes what they may have begun. -/

/-- What stands before the character `c`, and what has been written before it, when `c` is read
outside quotes and comments. -/
def Reading.codeBefore (reading : Reading) (c : Char) : Option (Preceding × List Char) :=
  let written := reading.written
  match reading.mode with
  | .code preceding => some (preceding, written)
  | .dash => if c == '-' then none else some (.edge, '-' :: written)
  | .slash => if c == '*' then none else some (.edge, '/' :: written)
  | .dollar tag =>
    if c == '$' || continuesTag tag c then none else some (.word, tag ++ '$' :: written)
  | .literalQuote _ => if c == '\'' then none else some (.edge, '\'' :: written)
  | _ => none

theorem step_of_codeBefore {reading : Reading} {c : Char} {preceding : Preceding}
    {written : List Char} (h : reading.codeBefore c = some (preceding, written)) :
    step reading c = stepCode preceding written c := by
  obtain ⟨mode, before⟩ := reading
  cases mode with
  | code p =>
      simp only [Reading.codeBefore, Option.some.injEq, Prod.mk.injEq] at h
      rw [← h.1, ← h.2]
      rfl
  -- these wait for the next character, and go back to code unless it completes something
  | dash | slash | dollar _ | literalQuote _ =>
      simp only [Reading.codeBefore] at h
      split at h
      · cases h
      · simp only [Option.some.injEq, Prod.mk.injEq] at h
        simp_all [step]
  | lineComment => cases h
  | blockComment star => cases h
  | literal escapes => cases h
  | escaped => cases h
  | quotedName => cases h
  | dollarQuoted closing contents => cases h

/-- Whether a dollar quote is opened by a `$`, the characters `tag` behind it (the last one first)
and the text. -/
def opensDollarQuote : List Char → List Char → Bool
  | _, [] => false
  | tag, c :: rest => c == '$' || continuesTag tag c && opensDollarQuote (c :: tag) rest

/-- What a text leaves when it ends here: what has been written, and the quote left open. -/
def Reading.outcome (reading : Reading) : List Char × Option OpenQuote :=
  (reading.finish, reading.mode.openQuote)

/-- Where the next character is read as code, the text behind is read as it is read there. -/
theorem outcome_of_codeBefore {reading : Reading} {preceding : Preceding} {written rest : List Char}
    (hend : reading.outcome = (written, none))
    (hcode : ∀ c, rest.head? = some c → reading.codeBefore c = some (preceding, written)) :
    (readFrom reading rest).outcome = (readFrom ⟨.code preceding, written⟩ rest).outcome := by
  cases rest with
  | nil => exact hend
  | cons c rest =>
      rw [readFrom_cons, step_of_codeBefore (hcode c rfl)]
      rfl

theorem outcome_dash {written rest : List Char} (h : rest.head? ≠ some '-') :
    (readFrom ⟨.dash, written⟩ rest).outcome
      = (readFrom ⟨.code .edge, '-' :: written⟩ rest).outcome := by
  refine outcome_of_codeBefore rfl fun c hc => ?_
  have hne : c ≠ '-' := fun heq => h (heq ▸ hc)
  simp [Reading.codeBefore, hne]

theorem outcome_slash {written rest : List Char} (h : rest.head? ≠ some '*') :
    (readFrom ⟨.slash, written⟩ rest).outcome
      = (readFrom ⟨.code .edge, '/' :: written⟩ rest).outcome := by
  refine outcome_of_codeBefore rfl fun c hc => ?_
  have hne : c ≠ '*' := fun heq => h (heq ▸ hc)
  simp [Reading.codeBefore, hne]

theorem outcome_literalQuote {escapes : Bool} {written rest : List Char}
    (h : rest.head? ≠ some '\'') :
    (readFrom ⟨.literalQuote escapes, written⟩ rest).outcome
      = (readFrom ⟨.code .edge, '\'' :: written⟩ rest).outcome := by
  refine outcome_of_codeBefore rfl fun c hc => ?_
  have hne : c ≠ '\'' := fun heq => h (heq ▸ hc)
  simp [Reading.codeBefore, hne]

theorem toNat_lt_of_continuesTag {tag : List Char} {c : Char} (h : continuesTag tag c = true) :
    c.toNat < 128 := by
  simp only [continuesTag, Bool.or_eq_true, Bool.and_eq_true, beq_iff_eq] at h
  rcases h with (halpha | rfl) | ⟨-, hdigit⟩
  · exact toNat_lt_of_isAlphanum (by rw [Char.isAlphanum, halpha, Bool.true_or])
  · decide
  · exact toNat_lt_of_isAlphanum (by rw [Char.isAlphanum, hdigit, Bool.or_true])

theorem step_of_continuesTag {tag written : List Char} {c : Char} (h : continuesTag tag c = true) :
    step ⟨.code .word, written⟩ c = ⟨.code .word, c :: written⟩ := by
  have htag : (c.isAlpha || c == '_' || c.isDigit) = true := by
    simp only [continuesTag, Bool.or_eq_true, Bool.and_eq_true] at h ⊢
    exact h.imp id And.right
  have hall := of_basic (p := fun c => c.isAlpha || c == '_' || c.isDigit)
    (fun c => !(['-', '/', '\'', '"', '$'].contains c) && !isBlank c && isWordPart c)
    (toNat_lt_of_continuesTag h) htag (by decide)
  simp only [Bool.and_eq_true, Bool.not_eq_true', List.contains_eq_mem, decide_eq_false_iff_not,
    List.mem_cons, List.not_mem_nil, or_false, not_or] at hall
  obtain ⟨⟨hspecial, hblank⟩, hword⟩ := hall
  simp [step, stepCode, hspecial, hblank, Preceding.next, hword]

/-- A `$` that opens no dollar quote is a part of a word. -/
theorem outcome_dollar {tag written rest : List Char} (h : opensDollarQuote tag rest = false) :
    (readFrom ⟨.dollar tag, written⟩ rest).outcome
      = (readFrom ⟨.code .word, tag ++ '$' :: written⟩ rest).outcome := by
  induction rest generalizing tag with
  | nil => rfl
  | cons c rest ih =>
      rw [opensDollarQuote, Bool.or_eq_false_iff, beq_eq_false_iff_ne] at h
      obtain ⟨hdollar, hmore⟩ := h
      by_cases htag : continuesTag tag c = true
      · rw [htag, Bool.true_and] at hmore
        have hstep : step ⟨.dollar tag, written⟩ c = ⟨.dollar (c :: tag), written⟩ := by
          simp [step, hdollar, htag]
        rw [readFrom_cons, hstep, ih hmore, readFrom_cons, step_of_continuesTag htag,
          List.cons_append]
      · refine outcome_of_codeBefore rfl fun d hd => ?_
        obtain rfl : c = d := Option.some.inj hd
        simp [Reading.codeBefore, hdollar, htag]

/-! ## Kinds of hidden text -/

/-- A kind of text whose contents are hidden. -/
inductive Hidden where
  /-- `'...'`, where a backslash is a character like any other. -/
  | literal
  /-- `E'...'` or `e'...'`, where a backslash escapes the character after it. -/
  | escapeLiteral (capital : Bool)
  /-- `$tag$...$tag$` -/
  | dollarQuote (tag : List Char)
  /-- `/*...*/` -/
  | blockComment
  /-- `--...` up to the end of the line. -/
  | lineComment
  deriving DecidableEq, Repr

def escapeLetter (capital : Bool) : Char := if capital then 'E' else 'e'

def dollarTag (tag : List Char) : List Char := '$' :: tag ++ ['$']

namespace Hidden

def opener : Hidden → List Char
  | literal => ['\'']
  | escapeLiteral capital => [escapeLetter capital, '\'']
  | dollarQuote tag => dollarTag tag
  | blockComment => ['/', '*']
  | lineComment => ['-', '-']

def closer : Hidden → List Char
  | literal => ['\'']
  | escapeLiteral _ => ['\'']
  | dollarQuote tag => dollarTag tag
  | blockComment => ['*', '/']
  | lineComment => ['\n']

end Hidden

/-- Whether every quote in a text is written twice or, where a backslash escapes, escaped. -/
def quotesPaired (escapes : Bool) : List Char → Bool
  | [] => true
  | [c] => c != '\'' && !(escapes && c == '\\')
  | c :: d :: rest =>
    if escapes && c == '\\' then quotesPaired escapes rest
    else if c == '\'' then d == '\'' && quotesPaired escapes rest
    else quotesPaired escapes (d :: rest)

/-- Whether the closing text does not begin anywhere before the end of the contents, so that the
first place where it begins is the one that closes them. -/
def ClosesFirst (closer contents : List Char) : Prop :=
  ∀ k < contents.length, ¬ closer <+: (contents ++ closer).drop k

instance (closer contents : List Char) : Decidable (ClosesFirst closer contents) :=
  inferInstanceAs (Decidable (∀ k < contents.length, ¬ closer <+: (contents ++ closer).drop k))

/-- Whether a text is the tag of a dollar quote: empty, or an identifier of the basic alphabet. -/
def isTag : List Char → Bool
  | [] => true
  | c :: rest => continuesTag [] c && rest.all (continuesTag [c])

namespace Hidden

def holds : Hidden → List Char → Prop
  | literal, contents => quotesPaired false contents = true
  | escapeLiteral _, contents => quotesPaired true contents = true
  | dollarQuote tag, contents => ClosesFirst (dollarTag tag) contents
  | blockComment, contents => ClosesFirst ['*', '/'] contents
  | lineComment, contents => '\n' ∉ contents

instance (hidden : Hidden) (contents : List Char) : Decidable (hidden.holds contents) :=
  match hidden with
  | literal => inferInstanceAs (Decidable (quotesPaired false contents = true))
  | escapeLiteral _ => inferInstanceAs (Decidable (quotesPaired true contents = true))
  | dollarQuote tag => inferInstanceAs (Decidable (ClosesFirst (dollarTag tag) contents))
  | blockComment => inferInstanceAs (Decidable (ClosesFirst ['*', '/'] contents))
  | lineComment => inferInstanceAs (Decidable ('\n' ∉ contents))

/-- Whether a hidden text may begin after a text. Its opener is read as code; a literal has no
escape letter before it, and an escape letter begins a word. -/
def opensAfter (hidden : Hidden) (before : List Char) : Bool :=
  match hidden with
  | literal => ((scan before).codeBefore '\'').any fun found => found.1 != .escapeLetter
  | escapeLiteral capital =>
    ((scan before).codeBefore (escapeLetter capital)).any fun found => found.1 == .edge
  | dollarQuote tag => isTag tag && ((scan before).codeBefore '$').isSome
  | blockComment => ((scan before).codeBefore '/').isSome
  | lineComment => ((scan before).codeBefore '-').isSome

end Hidden

/-! ## Reading over contents -/

theorem readFrom_literal {escapes : Bool} {written contents : List Char}
    (h : quotesPaired escapes contents = true) :
    readFrom ⟨.literal escapes, written⟩ contents = ⟨.literal escapes, written⟩ := by
  fun_induction quotesPaired escapes contents with
  | case1 => rfl
  | case2 c =>
      simp only [Bool.and_eq_true, bne_iff_ne, ne_eq, Bool.not_eq_eq_eq_not, Bool.not_true] at h
      simp [step, h.1, h.2]
  | case3 c d rest hc ih =>
      -- An escaped character: the backslash and the character after it are passed over together.
      have hesc : escapes = true := by simp_all
      subst hesc
      rw [readFrom_cons, readFrom_cons]
      simpa [step, hc] using ih h
  | case4 c d rest hc hq ih =>
      simp only [Bool.and_eq_true, beq_iff_eq] at h hq
      obtain ⟨rfl, hrest⟩ := h
      rw [readFrom_cons, readFrom_cons]
      simpa [step, hq] using ih hrest
  | case5 c d rest hc hq ih =>
      rw [readFrom_cons]
      simpa [step, hc, hq] using ih h

theorem readFrom_lineComment {written contents : List Char} (h : '\n' ∉ contents) :
    readFrom ⟨.lineComment, written⟩ contents = ⟨.lineComment, written⟩ := by
  induction contents with
  | nil => rfl
  | cons c rest ih =>
      simp only [List.mem_cons, not_or] at h
      have hc : (c == '\n') = false := by simpa using Ne.symm h.1
      rw [readFrom_cons]
      simpa [step, hc] using ih h.2

/-- The first place is no place where the closing text begins, and so is no later one. -/
theorem ClosesFirst.cons {closer rest : List Char} {c : Char} (h : ClosesFirst closer (c :: rest)) :
    ¬ closer <+: c :: (rest ++ closer) ∧ ClosesFirst closer rest := by
  refine ⟨h 0 (by simp), ?_⟩
  intro k hk
  exact h (k + 1) (by simpa using hk)

/-- The comment ends at its closer. `star` says that the character before the contents is a star,
which must not be completed by their first character. -/
theorem readFrom_blockComment {star : Bool} {written contents : List Char}
    (hstar : star = true → (contents ++ ['*', '/']).head? ≠ some '/')
    (h : ClosesFirst ['*', '/'] contents) :
    readFrom ⟨.blockComment star, written⟩ (contents ++ ['*', '/'])
      = ⟨.code .edge, pushSpace written⟩ := by
  induction contents generalizing star with
  | nil => simp [step]
  | cons c rest ih =>
      obtain ⟨hfirst, hrest⟩ := h.cons
      have hopen : (star && c == '/') = false := by
        cases star with
        | false => rfl
        | true => simpa using hstar rfl
      -- a star here is not completed by the next character, or the comment would end there
      have hnext : (c == '*') = true → (rest ++ ['*', '/']).head? ≠ some '/' := by
        intro hc hslash
        obtain ⟨d, tail, htail⟩ : ∃ d tail, rest ++ ['*', '/'] = d :: tail := by
          cases rest <;> simp
        rw [htail] at hfirst hslash
        simp_all
      rw [List.cons_append, readFrom_cons]
      simpa [step, hopen] using ih hnext hrest

/-- The quote ends when its closing text has been read for the first time. -/
theorem readFrom_dollarQuoted {closing written whole : List Char}
    (hend : closing <:+ whole)
    (hfirst : ∀ front, front <+: whole → closing <:+ front → front = whole) :
    ∀ seen rest, seen ++ rest = whole → rest ≠ [] →
      readFrom ⟨.dollarQuoted closing seen.reverse, written⟩ rest = ⟨.code .word, written⟩ := by
  intro seen rest
  induction rest generalizing seen with
  | nil => intro _ h; exact absurd rfl h
  | cons c rest ih =>
      intro hwhole _
      -- the contents are kept in reverse, so their end is compared as a beginning
      have hread : closing.reverse.isPrefixOf (c :: seen.reverse) = true ↔ closing <:+ seen ++ [c] := by
        rw [List.isPrefixOf_iff_prefix, ← List.reverse_prefix]
        simp
      rw [readFrom_cons]
      by_cases hdone : rest = []
      · subst hdone
        rw [hwhole, List.isPrefixOf_iff_prefix] at hread
        simp [step, hread.2 hend]
      -- the closing text is not read before the end, where it is for the first time
      · have hopen : ¬ closing <:+ seen ++ [c] := by
          intro hsuffix
          have heq := hfirst (seen ++ [c]) ⟨rest, by simpa using hwhole⟩ hsuffix
          rw [← heq] at hwhole
          simp at hwhole
          exact hdone hwhole
        have hstep : step ⟨.dollarQuoted closing seen.reverse, written⟩ c
            = ⟨.dollarQuoted closing (seen ++ [c]).reverse, written⟩ := by
          have := mt hread.1 hopen
          simp_all [step]
        rw [hstep]
        exact ih (seen ++ [c]) (by simpa using hwhole) hdone

/-! ## Reading a whole hidden text -/

theorem ne_dollar_of_continuesTag {tag : List Char} {c : Char} (h : continuesTag tag c = true) :
    (c == '$') = false := by
  rw [beq_eq_false_iff_ne]
  rintro rfl
  have halpha : '$'.isAlpha = false := by decide
  have hdigit : '$'.isDigit = false := by decide
  simp [continuesTag, halpha, hdigit] at h

/-- After its first character a tag goes on with letters, digits and `_`. -/
theorem readFrom_tagRest {first : Char} {seen tag written : List Char} (hseen : seen ≠ [])
    (h : tag.all (continuesTag [first]) = true) :
    readFrom ⟨.dollar seen, written⟩ tag = ⟨.dollar (tag.reverse ++ seen), written⟩ := by
  induction tag generalizing seen with
  | nil => rfl
  | cons c rest ih =>
      simp only [List.all_cons, Bool.and_eq_true] at h
      obtain ⟨hc, hrest⟩ := h
      have hdollar := ne_dollar_of_continuesTag hc
      -- whether a character goes on with a tag depends on there being a first one only
      have htag : continuesTag seen c = true := by
        cases seen with
        | nil => exact absurd rfl hseen
        | cons d ds => simpa [continuesTag] using hc
      rw [readFrom_cons]
      have hstep : step ⟨.dollar seen, written⟩ c = ⟨.dollar (c :: seen), written⟩ := by
        simp [step, hdollar, htag]
      rw [hstep, ih (List.cons_ne_nil c seen) hrest]
      simp

theorem readFrom_dollarTag {tag written : List Char} (h : isTag tag = true) :
    readFrom ⟨.dollar [], written⟩ (tag ++ ['$'])
      = ⟨.dollarQuoted (dollarTag tag) [], '\'' :: '\'' :: written⟩ := by
  cases tag with
  | nil => simp [step, dollarTag]
  | cons c rest =>
      simp only [isTag, Bool.and_eq_true] at h
      have hdollar := ne_dollar_of_continuesTag h.1
      have hstep : step ⟨.dollar [], written⟩ c = ⟨.dollar [c], written⟩ := by
        simp [step, hdollar, h.1]
      rw [List.cons_append, readFrom_cons, hstep, readFrom_append,
        readFrom_tagRest (List.cons_ne_nil c []) h.2]
      simp [step, dollarTag]

theorem ClosesFirst.eq_of_suffix {closer contents front : List Char}
    (h : ClosesFirst closer contents) (hfront : front <+: contents ++ closer)
    (hclosed : closer <:+ front) : front = contents ++ closer := by
  obtain ⟨rest, hrest⟩ := hfront
  obtain ⟨earlier, rfl⟩ := hclosed
  -- The closing text begins behind `earlier`, which so is as long as the contents.
  have hplace : closer <+: (contents ++ closer).drop earlier.length := by
    rw [← hrest, List.append_assoc, List.drop_left]
    exact List.prefix_append _ _
  have hlength : contents.length ≤ earlier.length :=
    Nat.le_of_not_lt fun hlt => h earlier.length hlt hplace
  have hcount := congrArg List.length hrest
  simp only [List.length_append] at hcount
  have : rest = [] := List.length_eq_zero_iff.1 (by omega)
  simpa [this] using hrest

/-- The state of the reader behind a hidden text that is opened after `written`. -/
def Hidden.closed (hidden : Hidden) (written : List Char) : Reading :=
  match hidden with
  | literal => ⟨.literalQuote false, '\'' :: written⟩
  | escapeLiteral capital => ⟨.literalQuote true, '\'' :: escapeLetter capital :: written⟩
  | dollarQuote _ => ⟨.code .word, '\'' :: '\'' :: written⟩
  | blockComment => ⟨.code .edge, pushSpace written⟩
  | lineComment => ⟨.code .edge, pushSpace written⟩

/-- **The state behind a hidden text does not depend on its contents.** -/
theorem readFrom_hidden {hidden : Hidden} {before : List Char}
    (hopen : hidden.opensAfter before = true) :
    ∃ written, ∀ contents, hidden.holds contents →
      readFrom (scan before) (hidden.opener ++ contents ++ hidden.closer)
        = hidden.closed written := by
  cases hidden with
  | literal =>
      obtain ⟨⟨preceding, written⟩, hcode, hpre⟩ := (Option.any_eq_true _ _).1 hopen
      refine ⟨written, fun contents hheld => ?_⟩
      have hplain : (preceding == .escapeLetter) = false := by simpa using hpre
      have hstep : step (scan before) '\'' = ⟨.literal false, '\'' :: written⟩ := by
        rw [step_of_codeBefore hcode]
        simp [stepCode, hplain]
      rw [Hidden.opener, List.append_assoc, List.singleton_append, readFrom_cons, hstep,
        readFrom_append, readFrom_literal hheld]
      rfl
  | escapeLiteral capital =>
      obtain ⟨⟨preceding, written⟩, hcode, hpre⟩ := (Option.any_eq_true _ _).1 hopen
      refine ⟨written, fun contents hheld => ?_⟩
      simp only [beq_iff_eq] at hpre
      subst hpre
      have hletter : step (scan before) (escapeLetter capital)
          = ⟨.code .escapeLetter, escapeLetter capital :: written⟩ := by
        rw [step_of_codeBefore hcode]
        cases capital <;> simp [stepCode, escapeLetter, isBlank, Preceding.next]
      rw [Hidden.opener, List.append_assoc, List.cons_append, List.singleton_append,
        readFrom_cons, hletter, readFrom_cons]
      have hquote : step ⟨.code .escapeLetter, escapeLetter capital :: written⟩ '\''
          = ⟨.literal true, '\'' :: escapeLetter capital :: written⟩ := rfl
      rw [hquote, readFrom_append, readFrom_literal hheld]
      rfl
  | dollarQuote tag =>
      simp only [Hidden.opensAfter, Bool.and_eq_true, Option.isSome_iff_exists] at hopen
      obtain ⟨htag, ⟨preceding, written⟩, hcode⟩ := hopen
      refine ⟨written, fun contents hheld => ?_⟩
      have hstep : step (scan before) '$' = ⟨.dollar [], written⟩ := by
        rw [step_of_codeBefore hcode]
        simp [stepCode]
      have hopener : Hidden.opener (.dollarQuote tag) = '$' :: (tag ++ ['$']) := rfl
      rw [hopener, List.append_assoc, List.cons_append, readFrom_cons, hstep, readFrom_append,
        readFrom_dollarTag htag]
      -- The contents restrict where the closer begins, but the scan sees where it ends.
      refine readFrom_dollarQuoted (List.suffix_append contents (dollarTag tag)) ?_ [] _ rfl ?_
      · intro front hfront hclosed
        exact ClosesFirst.eq_of_suffix hheld hfront hclosed
      · simp [Hidden.closer, dollarTag]
  | blockComment =>
      obtain ⟨⟨preceding, written⟩, hcode⟩ := Option.isSome_iff_exists.1 hopen
      refine ⟨written, fun contents hheld => ?_⟩
      have hstep : step (scan before) '/' = ⟨.slash, written⟩ := by
        rw [step_of_codeBefore hcode]
        simp [stepCode]
      rw [Hidden.opener, List.append_assoc, List.cons_append, List.singleton_append,
        readFrom_cons, hstep, readFrom_cons]
      exact readFrom_blockComment (by simp) hheld
  | lineComment =>
      obtain ⟨⟨preceding, written⟩, hcode⟩ := Option.isSome_iff_exists.1 hopen
      refine ⟨written, fun contents hheld => ?_⟩
      have hstep : step (scan before) '-' = ⟨.dash, written⟩ := by
        rw [step_of_codeBefore hcode]
        simp [stepCode]
      have hdash : step ⟨.dash, written⟩ '-' = ⟨.lineComment, written⟩ := rfl
      rw [Hidden.opener, List.append_assoc, List.cons_append, List.singleton_append,
        readFrom_cons, hstep, readFrom_cons, hdash, readFrom_append,
        readFrom_lineComment hheld]
      rfl

/-! ## What an analysis can see -/

def Hidden.inText (hidden : Hidden) (before contents after : List Char) : String :=
  String.ofList (before ++ (hidden.opener ++ contents ++ hidden.closer) ++ after)

theorem Hidden.scan_inText {hidden : Hidden} {before contents₁ contents₂ : List Char}
    (hopen : hidden.opensAfter before = true) (h₁ : hidden.holds contents₁)
    (h₂ : hidden.holds contents₂) (after : List Char) :
    scan (hidden.inText before contents₁ after).toList
      = scan (hidden.inText before contents₂ after).toList := by
  obtain ⟨written, hread⟩ := readFrom_hidden hopen
  simp only [Hidden.inText, String.toList_ofList]
  rw [scan_append, scan_append, hread contents₁ h₁, scan_append, scan_append,
    hread contents₂ h₂]

theorem normalize_eq_of_scan_eq {a b : String} (h : scan a.toList = scan b.toList) :
    normalize a = normalize b := by
  rw [normalize, normalize, normalForm, normalForm, h]

theorem openQuote_eq_of_scan_eq {a b : String} (h : scan a.toList = scan b.toList) :
    openQuote a = openQuote b := by
  rw [openQuote, openQuote, h]

/-- The keyword scan sees a SQL text through its normal form and its open quote only. -/
theorem scanReferences_eq_of_scan_eq {a b : String} (h : scan a.toList = scan b.toList)
    (limit : Nat) : scanReferences a limit = scanReferences b limit := by
  rw [scanReferences, scanReferences, normalize_eq_of_scan_eq h, openQuote_eq_of_scan_eq h]

theorem projection_eq_of_scan_eq {a b : String} (h : scan a.toList = scan b.toList) :
    projection a = projection b := by
  rw [projection, projection, normalForm, normalForm, h]

/-- **The contents of literals and comments do not influence any text analysis.** Two SQL texts that
differ in the contents of a hidden text only have the same normal form and leave the same quote
open, so the same constructs, tables and projected items are found in them. What follows the hidden
text is arbitrary. -/
theorem hidden_contents_are_irrelevant (hidden : Hidden)
    (before after contents₁ contents₂ : List Char) (hopen : hidden.opensAfter before = true)
    (h₁ : hidden.holds contents₁) (h₂ : hidden.holds contents₂) :
    normalize (hidden.inText before contents₁ after)
        = normalize (hidden.inText before contents₂ after) ∧
      openQuote (hidden.inText before contents₁ after)
        = openQuote (hidden.inText before contents₂ after) ∧
      unsupported (normalize (hidden.inText before contents₁ after))
        = unsupported (normalize (hidden.inText before contents₂ after)) ∧
      (∀ limit, scanReferences (hidden.inText before contents₁ after) limit
        = scanReferences (hidden.inText before contents₂ after) limit) ∧
      projection (hidden.inText before contents₁ after)
        = projection (hidden.inText before contents₂ after) := by
  have hscan := Hidden.scan_inText hopen h₁ h₂ after
  have hnormal := normalize_eq_of_scan_eq hscan
  refine ⟨hnormal, openQuote_eq_of_scan_eq hscan, ?_, ?_, projection_eq_of_scan_eq hscan⟩
  · rw [hnormal]
  · exact scanReferences_eq_of_scan_eq hscan

/-- A quote that is escaped, one that is doubled and a subquery, against no contents at all. -/
theorem hidden_contents_of_escape_literal :
    (Hidden.escapeLiteral true).opensAfter "SELECT a FROM t WHERE b = ".toList = true ∧
      (Hidden.escapeLiteral true).holds "\\' ''(SELECT c FROM d)".toList ∧
      (Hidden.escapeLiteral true).holds [] ∧
      normalize ((Hidden.escapeLiteral true).inText "SELECT a FROM t WHERE b = ".toList
          "\\' ''(SELECT c FROM d)".toList " OR e".toList)
        = normalize ((Hidden.escapeLiteral true).inText "SELECT a FROM t WHERE b = ".toList []
          " OR e".toList) :=
  have hopen : (Hidden.escapeLiteral true).opensAfter "SELECT a FROM t WHERE b = ".toList = true := by
    decide +kernel
  have hheld : (Hidden.escapeLiteral true).holds "\\' ''(SELECT c FROM d)".toList := by
    decide +kernel
  have hempty : (Hidden.escapeLiteral true).holds [] := by decide
  ⟨hopen, hheld, hempty,
    (hidden_contents_are_irrelevant _ _ " OR e".toList _ _ hopen hheld hempty).1⟩

end RepoPolicy.Sql
