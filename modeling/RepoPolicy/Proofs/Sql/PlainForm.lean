import RepoPolicy.Proofs.Sql.HiddenText
import RepoPolicy.Proofs.Text.Occurrences

set_option autoImplicit false

/-! # What a normal form looks like

Comments and the contents of literals are left out of a normal form, and so characters meet that
were apart. `IsPlain` says what may not come about by this, outside double quotes: other blanks than
single spaces, the opening of a comment or of a dollar quote, a literal with contents. The normal
form of a text that leaves no quote open is plain (`normalize_is_plain`).

A character is only ever written behind others (`Fits`), so it is enough to look at what has been
written before it. `Reading.Sound` says what has been written in each mode; it is kept by every
step (`Reading.Sound.step`). -/

namespace RepoPolicy.Sql

open RepoPolicy.Text

/-- Whether what follows a text is outside double quotes, each of which opens or closes. -/
def isOutside (before : List Char) : Bool := before.count '"' % 2 == 0

/-- A text in which, outside double quotes, blanks are single spaces, neither comments nor dollar
quotes are opened, and literals are empty. -/
structure IsPlain (text : List Char) : Prop where
  /-- Every double quote is closed. -/
  closed : isOutside text = true
  blank : ∀ before c after, text = before ++ c :: after → isOutside before = true →
    isBlank c = true → c = ' '
  noTwoSpaces : ∀ before after, text = before ++ ' ' :: ' ' :: after → isOutside before = false
  noSpaceFirst : text.head? ≠ some ' '
  noSpaceLast : text.getLast? ≠ some ' '
  noLineComment : ∀ before after, text = before ++ '-' :: '-' :: after → isOutside before = false
  noBlockComment : ∀ before after, text = before ++ '/' :: '*' :: after → isOutside before = false
  noDollarQuote : ∀ before tag after, isTag tag = true → text = before ++ dollarTag tag ++ after →
    isOutside before = false
  /-- A run of single quotes between other characters has even length. -/
  emptyLiterals : ∀ before run after, text = before ++ run ++ after → isOutside before = true →
    (∀ c ∈ run, c = '\'') → before.getLast? ≠ some '\'' → after.head? ≠ some '\'' →
    run.length % 2 = 0

/-! ## Tags -/

theorem continuesTag_congr {tag other : List Char} (h : tag.isEmpty = other.isEmpty) (c : Char) :
    continuesTag tag c = continuesTag other c := by
  rw [continuesTag, continuesTag, h]

/-- The characters of tags have no meaning of their own. -/
theorem of_continuesTag {tag : List Char} {c : Char} (h : continuesTag tag c = true) :
    isBlank c = false ∧ c ≠ '-' ∧ c ≠ '/' ∧ c ≠ '*' ∧ c ≠ '$' ∧ c ≠ '\'' ∧ c ≠ '"' := by
  have hword : (c.isAlphanum || c == '_') = true := by
    simp only [continuesTag, Bool.or_eq_true, Bool.and_eq_true] at h
    rcases h with (h | h) | h <;> simp [Char.isAlphanum, h]
  have hbasic : c.toNat < 128 := by
    rcases Bool.or_eq_true_iff.1 hword with h | h
    · exact toNat_lt_of_isAlphanum h
    · obtain rfl := beq_iff_eq.1 h
      decide
  have hplain := of_basic (p := fun c => c.isAlphanum || c == '_')
    (fun c => !isBlank c && c != '-' && c != '/' && c != '*' && c != '$' && c != '\'' && c != '"')
    hbasic hword (by decide)
  simpa [and_assoc] using hplain

theorem isTag_concat (tag : List Char) (c : Char) :
    isTag (tag ++ [c]) = (isTag tag && continuesTag tag c) := by
  cases tag with
  | nil => simp [isTag]
  | cons first rest =>
      have hsame : continuesTag (first :: rest) c = continuesTag [first] c :=
        continuesTag_congr rfl c
      simp [isTag, hsame, Bool.and_assoc]

theorem of_mem_of_isTag {tag : List Char} (h : isTag tag = true) {c : Char} (hc : c ∈ tag) :
    ∃ front, continuesTag front c = true := by
  cases tag with
  | nil => cases hc
  | cons first rest =>
      simp only [isTag, Bool.and_eq_true, List.all_eq_true] at h
      rcases List.mem_cons.1 hc with rfl | hc
      · exact ⟨_, h.1⟩
      · exact ⟨_, h.2 _ hc⟩

theorem dollar_not_mem_of_isTag {tag : List Char} (h : isTag tag = true) : '$' ∉ tag := by
  intro hmem
  obtain ⟨front, hc⟩ := of_mem_of_isTag h hmem
  exact (of_continuesTag hc).2.2.2.2.1 rfl

theorem quote_not_mem_of_isTag {tag : List Char} (h : isTag tag = true) : '"' ∉ tag := by
  intro hmem
  obtain ⟨front, hc⟩ := of_mem_of_isTag h hmem
  exact (of_continuesTag hc).2.2.2.2.2.2 rfl

/-- What has been written, its last character first, ends in a `$` and a tag that may be closed. -/
def EndsInTag (written : List Char) : Prop :=
  ∃ tag before, isTag tag = true ∧ written = tag.reverse ++ '$' :: before

theorem not_endsInTag_nil : ¬EndsInTag [] := by
  rintro ⟨tag, before, -, h⟩
  simp at h

/-- A character behind a text ends in a tag only if the text does and the character continues it. -/
theorem EndsInTag.exists_of_cons {c : Char} {written : List Char} (hc : c ≠ '$')
    (h : EndsInTag (c :: written)) :
    ∃ tag before, isTag tag = true ∧ continuesTag tag c = true ∧
      written = tag.reverse ++ '$' :: before := by
  obtain ⟨tag, before, htag, heq⟩ := h
  rcases List.eq_nil_or_concat tag with rfl | ⟨front, last, rfl⟩
  · exact absurd (List.cons.inj heq).1 hc
  · rw [List.concat_eq_append, List.reverse_concat, List.cons_append, List.cons.injEq] at heq
    obtain ⟨rfl, rfl⟩ := heq
    rw [List.concat_eq_append, isTag_concat, Bool.and_eq_true] at htag
    exact ⟨front, before, htag.1, htag.2, rfl⟩

theorem not_endsInTag_cons {c : Char} {written : List Char} (hc : c ≠ '$')
    (h : ¬EndsInTag written) : ¬EndsInTag (c :: written) := by
  intro hcons
  obtain ⟨tag, before, htag, -, rfl⟩ := hcons.exists_of_cons hc
  exact h ⟨tag, before, htag, rfl⟩

/-- A character that is in no tag ends none. -/
theorem not_endsInTag_of_not_continuesTag {c : Char} {written : List Char} (hc : c ≠ '$')
    (h : ∀ tag, continuesTag tag c = false) : ¬EndsInTag (c :: written) := by
  intro hcons
  obtain ⟨tag, -, -, hcontinues, -⟩ := hcons.exists_of_cons hc
  rw [h tag] at hcontinues
  cases hcontinues

/-! ## Characters that fit -/

/-- How many single quotes a text begins with. -/
def quoteRun (written : List Char) : Nat := (written.takeWhile (· == '\'')).length

/-- A character may be written outside double quotes behind what has been written, its last
character first. -/
structure Fits (written : List Char) (c : Char) : Prop where
  blank : isBlank c = true → c = ' ' ∧ written ≠ [] ∧ written.head? ≠ some ' '
  dash : c = '-' → written.head? ≠ some '-'
  star : c = '*' → written.head? ≠ some '/'
  dollar : c = '$' → ¬EndsInTag written
  paired : c ≠ '\'' → quoteRun written % 2 = 0

/-- All characters outside double quotes fit. The last character comes first. -/
inductive Fitting : List Char → Prop where
  | nil : Fitting []
  | cons {c : Char} {written : List Char} (hwritten : Fitting written)
      (hfits : isOutside written = true → Fits written c) : Fitting (c :: written)

/-- What has been written outside quotes and comments. -/
structure Between (written : List Char) : Prop where
  fitting : Fitting written
  outside : isOutside written = true
  paired : quoteRun written % 2 = 0

theorem isOutside_cons {c : Char} (hc : c ≠ '"') (written : List Char) :
    isOutside (c :: written) = isOutside written := by
  rw [isOutside, isOutside, List.count_cons_of_ne hc]

theorem isOutside_quote (written : List Char) :
    isOutside ('"' :: written) = !isOutside written := by
  rw [isOutside, isOutside, List.count_cons_self]
  rcases Nat.mod_two_eq_zero_or_one (written.count '"') with h | h
  · simp [Nat.add_mod, h]
  · simp [Nat.add_mod, h]

theorem isOutside_reverse (text : List Char) : isOutside text.reverse = isOutside text := by
  rw [isOutside, isOutside, List.count_reverse]

theorem quoteRun_cons {c : Char} (hc : c ≠ '\'') (written : List Char) :
    quoteRun (c :: written) = 0 := by
  simp [quoteRun, hc]

theorem quoteRun_quote (written : List Char) :
    quoteRun ('\'' :: written) = quoteRun written + 1 := by
  simp [quoteRun]

theorem between_nil : Between [] := ⟨.nil, rfl, rfl⟩

theorem Between.cons {written : List Char} {c : Char} (h : Between written)
    (hfits : Fits written c) (hquote : c ≠ '\'') (hname : c ≠ '"') : Between (c :: written) :=
  ⟨.cons h.fitting fun _ => hfits, by rw [isOutside_cons hname, h.outside], by
    rw [quoteRun_cons hquote]⟩

/-- A quote fits everywhere. -/
theorem fits_quote (written : List Char) : Fits written '\'' where
  blank := fun h => absurd h (by decide)
  dash := fun h => absurd h (by decide)
  star := fun h => absurd h (by decide)
  dollar := fun h => absurd h (by decide)
  paired := fun h => absurd rfl h

/-- An empty literal may be written between others. -/
theorem Between.literal {written : List Char} (h : Between written) :
    Between ('\'' :: '\'' :: written) where
  fitting := .cons (.cons h.fitting fun _ => fits_quote _) fun _ => fits_quote _
  outside := by rw [isOutside_cons (by decide), isOutside_cons (by decide), h.outside]
  paired := by
    rw [quoteRun_quote, quoteRun_quote]
    have := h.paired
    omega

/-- A character that begins nothing fits. -/
theorem Between.fits {written : List Char} {c : Char} (h : Between written)
    (hblank : isBlank c = false) (hdash : c = '-' → written.head? ≠ some '-')
    (hstar : c = '*' → written.head? ≠ some '/') (hdollar : c = '$' → ¬EndsInTag written) :
    Fits written c where
  blank := fun hc => absurd (hblank.symm.trans hc) (by decide)
  dash := hdash
  star := hstar
  dollar := hdollar
  paired := fun _ => h.paired

theorem Between.pushSpace {written : List Char} (h : Between written) :
    Between (pushSpace written) := by
  by_cases hspaced : isSpaced written = true
  · rwa [pushSpace_of_isSpaced hspaced]
  · rw [pushSpace_of_not_isSpaced (by simpa using hspaced)]
    have hfits : Fits written ' ' :=
      { blank := fun _ => ⟨rfl, fun hnil => hspaced (by rw [hnil]; rfl),
          fun hhead => hspaced (by rw [isSpaced, hhead]; rfl)⟩
        dash := fun h => absurd h (by decide)
        star := fun h => absurd h (by decide)
        dollar := fun h => absurd h (by decide)
        paired := fun _ => h.paired }
    exact h.cons hfits (by decide) (by decide)

theorem head?_pushSpace {written : List Char} {c : Char} (h : (pushSpace written).head? = some c) :
    c = ' ' := by
  have hspaced := isSpaced_pushSpace written
  rw [isSpaced, h] at hspaced
  simpa using hspaced

theorem not_endsInTag_pushSpace (written : List Char) : ¬EndsInTag (pushSpace written) := by
  cases hspace : pushSpace written with
  | nil => exact not_endsInTag_nil
  | cons c rest =>
      obtain rfl : c = ' ' := head?_pushSpace (by rw [hspace]; rfl)
      exact not_endsInTag_of_not_continuesTag (by decide) (by intro tag; simp [continuesTag])

/-! ## What has been written in each mode -/

def Reading.Sound (reading : Reading) : Prop :=
  let written := reading.written
  match reading.mode with
  | .code _ => Between written ∧ written.head? ≠ some '-' ∧ written.head? ≠ some '/' ∧
      ¬EndsInTag written
  | .dash => Between written ∧ written.head? ≠ some '-'
  | .slash => Between written
  | .dollar tag => Between written ∧ ¬EndsInTag written ∧ isTag tag.reverse = true
  | .lineComment => Between written
  | .blockComment _ => Between written
  | .literal _ => ∃ before, written = '\'' :: before ∧ Between before
  | .escaped => ∃ before, written = '\'' :: before ∧ Between before
  | .literalQuote _ => ∃ before, written = '\'' :: before ∧ Between before
  | .quotedName => Fitting written ∧ isOutside written = false
  | .dollarQuoted _ _ => Between written ∧ written.head? = some '\''

theorem sound_start : Reading.start.Sound :=
  ⟨between_nil, by decide, by decide, not_endsInTag_nil⟩

/-- After a comment, a space is written. -/
theorem sound_pushSpace {written : List Char} (h : Between written) (preceding : Preceding) :
    Reading.Sound ⟨.code preceding, pushSpace written⟩ := by
  refine ⟨h.pushSpace, fun hhead => ?_, fun hhead => ?_, not_endsInTag_pushSpace written⟩
  · exact absurd (head?_pushSpace hhead) (by decide)
  · exact absurd (head?_pushSpace hhead) (by decide)

/-- A character read as code is written, or waits, where it neither opens a comment together with
what is before it nor closes a tag. -/
theorem sound_stepCode {written : List Char} {c : Char} (h : Between written)
    (hdash : c = '-' → written.head? ≠ some '-') (hstar : c = '*' → written.head? ≠ some '/')
    (hdollar : c = '$' → ¬EndsInTag written) (htag : c ≠ '$' → ¬EndsInTag (c :: written))
    (preceding : Preceding) : (stepCode preceding written c).Sound := by
  rw [stepCode]
  -- one case for each character that opens something, then blanks, and all others
  split
  · rename_i hc
    exact ⟨h, hdash (beq_iff_eq.1 hc)⟩
  rename_i hnodash
  split
  · exact h
  rename_i hnoslash
  split
  · exact ⟨written, rfl, h⟩
  rename_i hnoquote
  split
  · rename_i hc
    refine ⟨.cons h.fitting fun _ => ?_, by rw [isOutside_quote, h.outside]; rfl⟩
    exact h.fits (by decide) (fun h => absurd h (by decide)) (fun h => absurd h (by decide))
      fun h => absurd h (by decide)
  rename_i hnoname
  split
  · rename_i hc
    exact ⟨h, hdollar (beq_iff_eq.1 hc), rfl⟩
  rename_i hnodollar
  split
  · exact sound_pushSpace h _
  rename_i hnoblank
  simp only [beq_iff_eq] at hnodash hnoslash hnoquote hnoname hnodollar
  have hfits := h.fits (by simpa using hnoblank) hdash hstar hdollar
  exact ⟨h.cons hfits hnoquote hnoname, by simpa using hnodash, by simpa using hnoslash,
    htag hnodollar⟩

theorem between_dash {written : List Char} (h : Between written)
    (hdash : written.head? ≠ some '-') : Between ('-' :: written) :=
  h.cons (h.fits (by decide) (fun _ => hdash) (fun h => absurd h (by decide))
    fun h => absurd h (by decide)) (by decide) (by decide)

theorem between_slash {written : List Char} (h : Between written) : Between ('/' :: written) :=
  h.cons (h.fits (by decide) (fun h => absurd h (by decide)) (fun h => absurd h (by decide))
    fun h => absurd h (by decide)) (by decide) (by decide)

/-- A tag that is not closed is written as it stands. -/
theorem between_tag {written tag : List Char} (h : Between written) (hopen : ¬EndsInTag written)
    (htag : isTag tag.reverse = true) : Between (tag ++ '$' :: written) := by
  induction tag with
  | nil =>
      refine h.cons (h.fits (by decide) (fun h => absurd h (by decide))
        (fun h => absurd h (by decide)) fun _ => hopen) (by decide) (by decide)
  | cons c tag ih =>
      rw [List.reverse_cons, isTag_concat, Bool.and_eq_true] at htag
      obtain ⟨hrest, hc⟩ := htag
      obtain ⟨hblank, hdash, -, hstar, hdollar, hquote, hname⟩ := of_continuesTag hc
      have hmore := ih hrest
      exact hmore.cons (hmore.fits hblank (fun h => absurd h hdash) (fun h => absurd h hstar)
        fun h => absurd h hdollar) hquote hname

/-- A tag that is not continued is not closed either. -/
theorem not_endsInTag_tag {written tag : List Char} {c : Char} (htag : isTag tag.reverse = true)
    (hc : c ≠ '$') (hends : continuesTag tag c = false) :
    ¬EndsInTag (c :: (tag ++ '$' :: written)) := by
  intro hcons
  obtain ⟨other, before, hother, hcontinues, heq⟩ := hcons.exists_of_cons hc
  -- tags hold no dollar, so the last dollar is the same
  have hsame : tag = other.reverse := by
    have htake := congrArg (List.takeWhile (· != '$')) heq
    have hall : ∀ {list : List Char}, '$' ∉ list → ∀ d ∈ list, (d != '$') = true :=
      fun hlist d hd => bne_iff_ne.2 fun h => hlist (h ▸ hd)
    rw [List.takeWhile_append_of_pos (hall (by simpa using dollar_not_mem_of_isTag htag)),
      List.takeWhile_append_of_pos (hall (by simpa using dollar_not_mem_of_isTag hother))] at htake
    simpa using htake
  have hempty : tag.isEmpty = other.isEmpty := by rw [hsame, List.isEmpty_reverse]
  rw [continuesTag_congr hempty, hcontinues] at hends
  cases hends

/-- A character is read as code behind one that waited for it and is in no tag. -/
theorem sound_stepCode_behind {written : List Char} {mark c : Char} (h : Between (mark :: written))
    (hmark : mark ≠ '$') (htag : ∀ tag, continuesTag tag mark = false)
    (hdash : c = '-' → mark ≠ '-') (hstar : c = '*' → mark ≠ '/') :
    (stepCode .edge (mark :: written) c).Sound := by
  have hends : ¬EndsInTag (mark :: written) := not_endsInTag_of_not_continuesTag hmark htag
  exact sound_stepCode h (by simpa using hdash) (by simpa using hstar) (fun _ => hends)
    (fun hc => not_endsInTag_cons hc hends) .edge

/-- **Every step keeps what has been written sound.** -/
theorem Reading.Sound.step {reading : Reading} (h : reading.Sound) (c : Char) :
    (step reading c).Sound := by
  obtain ⟨mode, written⟩ := reading
  -- what waits is written before the next character is read as code, so the cases end in code
  cases mode with
  | code preceding =>
      obtain ⟨hbetween, hdash, hslash, htag⟩ := h
      exact sound_stepCode hbetween (fun _ => hdash) (fun _ => hslash) (fun _ => htag)
        (fun hc => not_endsInTag_cons hc htag) preceding
  | dash =>
      simp only [Sql.step]
      split
      · exact h.1
      · rename_i hc
        exact sound_stepCode_behind (between_dash h.1 h.2) (by decide) (by simp [continuesTag])
          (fun h => absurd h (by simpa using hc)) fun _ => by decide
  | slash =>
      simp only [Sql.step]
      split
      · exact h
      · rename_i hc
        exact sound_stepCode_behind (between_slash h) (by decide) (by simp [continuesTag])
          (fun _ => by decide) fun h => absurd h (by simpa using hc)
  | dollar tag =>
      obtain ⟨hbetween, hopen, htag⟩ := h
      simp only [Sql.step]
      split
      · exact ⟨hbetween.literal, rfl⟩
      rename_i hdollar
      rw [beq_iff_eq] at hdollar
      split
      · rename_i hc
        refine ⟨hbetween, hopen, ?_⟩
        rw [List.reverse_cons, isTag_concat, htag, continuesTag_congr List.isEmpty_reverse, hc]
        rfl
      · -- the tag stays as code, and what follows does not close it
        rename_i hc
        rw [Bool.not_eq_true] at hc
        have hhead : (tag ++ '$' :: written).head? ≠ some '-' ∧
            (tag ++ '$' :: written).head? ≠ some '/' := by
          cases tag with
          | nil => simp
          | cons d tag =>
              rw [List.reverse_cons, isTag_concat, Bool.and_eq_true] at htag
              obtain ⟨-, hdash, hslash, -⟩ := of_continuesTag htag.2
              simp [hdash, hslash]
        exact sound_stepCode (between_tag hbetween hopen htag) (fun _ => hhead.1) (fun _ => hhead.2)
          (fun h => absurd h hdollar) (fun _ => not_endsInTag_tag htag hdollar hc) .word
  | lineComment =>
      simp only [Sql.step]
      split
      · exact sound_pushSpace h _
      · exact h
  | blockComment star =>
      simp only [Sql.step]
      split
      · exact sound_pushSpace h _
      · exact h
  | literal escapes =>
      simp only [Sql.step]
      split
      · exact h
      split
      · exact h
      · exact h
  | escaped => exact h
  | literalQuote escapes =>
      simp only [Sql.step]
      split
      · -- a doubled quote belongs to the contents, of which nothing is written
        exact h
      · obtain ⟨before, rfl, hbetween⟩ := h
        exact sound_stepCode_behind hbetween.literal (by decide) (by simp [continuesTag])
          (fun _ => by decide) fun _ => by decide
  | quotedName =>
      obtain ⟨hfitting, hinside⟩ := h
      have hwritten : Fitting (c :: written) :=
        .cons hfitting fun houtside => absurd (hinside.symm.trans houtside) (by decide)
      simp only [Sql.step]
      split
      · rename_i hc
        obtain rfl := beq_iff_eq.1 hc
        refine ⟨⟨hwritten, ?_, rfl⟩, by simp, by simp, ?_⟩
        · rw [isOutside_quote, hinside]
          rfl
        · exact not_endsInTag_of_not_continuesTag (by decide) (by simp [continuesTag])
      · rename_i hc
        exact ⟨hwritten, by rw [isOutside_cons (by simpa using hc), hinside]⟩
  | dollarQuoted closing contents =>
      obtain ⟨hbetween, hquote⟩ := h
      simp only [Sql.step]
      split
      · obtain ⟨before, rfl⟩ := List.head?_eq_some_iff.1 hquote
        refine ⟨hbetween, by simp, by simp, ?_⟩
        exact not_endsInTag_of_not_continuesTag (by decide) (by simp [continuesTag])
      · exact ⟨hbetween, hquote⟩

theorem Reading.Sound.readFrom {reading : Reading} (h : reading.Sound) (text : List Char) :
    (readFrom reading text).Sound := by
  induction text generalizing reading with
  | nil => exact h
  | cons c rest ih => exact ih (h.step c)

theorem sound_scan (text : List Char) : (scan text).Sound := sound_start.readFrom text

/-! ## The end of a text -/

/-- Whatever is left open, the characters that have been written fit. -/
theorem Reading.Sound.fitting_finish {reading : Reading} (h : reading.Sound) :
    Fitting reading.finish := by
  obtain ⟨mode, written⟩ := reading
  cases mode with
  | code preceding => exact h.1.fitting
  | dash => exact (between_dash h.1 h.2).fitting
  | slash => exact (between_slash h).fitting
  | dollar tag => exact (between_tag h.1 h.2.1 h.2.2).fitting
  | lineComment => exact h.fitting
  | blockComment star => exact h.fitting
  | literal escapes =>
      obtain ⟨before, rfl, hbetween⟩ := h
      exact .cons hbetween.fitting fun _ => fits_quote before
  | escaped =>
      obtain ⟨before, rfl, hbetween⟩ := h
      exact .cons hbetween.fitting fun _ => fits_quote before
  | literalQuote escapes =>
      obtain ⟨before, rfl, hbetween⟩ := h
      exact hbetween.literal.fitting
  | quotedName => exact h.1
  | dollarQuoted closing contents => exact h.1.fitting

theorem Reading.Sound.between_finish {reading : Reading} (h : reading.Sound)
    (hclosed : reading.mode.openQuote = none) : Between reading.finish := by
  obtain ⟨mode, written⟩ := reading
  cases mode with
  | code preceding => exact h.1
  | dash => exact between_dash h.1 h.2
  | slash => exact between_slash h
  | dollar tag => exact between_tag h.1 h.2.1 h.2.2
  | lineComment => exact h
  | literalQuote escapes =>
      obtain ⟨before, rfl, hbetween⟩ := h
      exact hbetween.literal
  | blockComment star => cases hclosed
  | literal escapes => cases hclosed
  | escaped => cases hclosed
  | quotedName => cases hclosed
  | dollarQuoted closing contents => cases hclosed

theorem Fitting.fits {rest written : List Char} {c : Char} (h : Fitting (rest ++ c :: written))
    (houtside : isOutside written = true) : Fits written c := by
  induction rest with
  | nil =>
      cases h with
      | cons _ hfits => exact hfits houtside
  | cons d rest ih =>
      cases h with
      | cons hwritten _ => exact ih hwritten

theorem Fitting.not_isBlank_first {written : List Char} {c : Char} (h : Fitting (written ++ [c])) :
    isBlank c = false := by
  rw [Bool.eq_false_iff]
  intro hc
  exact ((h.fits rfl).blank hc).2.1 rfl

/-- The first character of what is written is no blank, so only the end is trimmed. -/
theorem Fitting.trim_reverse {written : List Char} (h : Fitting written) :
    trim written.reverse = (written.dropWhile isBlank).reverse := by
  have hstart : trimStart written.reverse = written.reverse := by
    rcases List.eq_nil_or_concat written with rfl | ⟨others, first, rfl⟩
    · rfl
    · rw [List.concat_eq_append] at h ⊢
      rw [List.reverse_concat, trimStart, List.dropWhile_cons_of_neg]
      simp [h.not_isBlank_first]
  rw [trim, hstart, trimEnd, List.reverse_reverse]

theorem Between.of_blank {written : List Char} {c : Char} (h : Between (c :: written))
    (hc : isBlank c = true) : Between written ∧ Fits written c := by
  have hname : c ≠ '"' := by
    rintro rfl
    exact absurd hc (by decide)
  have hquote : c ≠ '\'' := by
    rintro rfl
    exact absurd hc (by decide)
  have houtside := h.outside
  rw [isOutside_cons hname] at houtside
  cases h.fitting with
  | cons hwritten hfits =>
      exact ⟨⟨hwritten, houtside, (hfits houtside).paired hquote⟩, hfits houtside⟩

theorem Between.dropBlanks {written : List Char} (h : Between written) :
    Between (written.dropWhile isBlank) := by
  induction written with
  | nil => exact h
  | cons c written ih =>
      by_cases hc : isBlank c = true
      · rw [List.dropWhile_cons_of_pos hc]
        exact ih (h.of_blank hc).1
      · rwa [List.dropWhile_cons_of_neg hc]

/-! ## Plain texts -/

theorem quoteRun_append {run before : List Char} (hrun : ∀ c ∈ run, c = '\'')
    (hbefore : before.head? ≠ some '\'') : quoteRun (run ++ before) = run.length := by
  have hall : ∀ c ∈ run, (c == '\'') = true := fun c hc => beq_iff_eq.2 (hrun c hc)
  rw [quoteRun, List.takeWhile_append_of_pos hall, List.length_append]
  cases before with
  | nil => rfl
  | cons c before =>
      rw [List.takeWhile_cons_of_neg (by simpa using hbefore)]
      rfl

theorem isOutside_append_right {front back : List Char} (h : '"' ∉ back) :
    isOutside (front ++ back) = isOutside front := by
  rw [isOutside, isOutside, List.count_append, List.count_eq_zero_of_not_mem h, Nat.add_zero]

section Plain

variable {text before after : List Char} {c d : Char}

/-- What stands before a character of a text has been written before it. -/
theorem Fitting.fits_at (h : Fitting text.reverse) (htext : text = before ++ c :: after)
    (houtside : isOutside before = true) : Fits before.reverse c := by
  rw [htext, List.reverse_append, List.reverse_cons, List.append_assoc, List.singleton_append] at h
  exact h.fits (by rwa [isOutside_reverse])

theorem Fitting.fits_behind (h : Fitting text.reverse) (htext : text = before ++ c :: d :: after)
    (hc : c ≠ '"') (houtside : isOutside before = true) : Fits (c :: before.reverse) d := by
  have hsplit : text = (before ++ [c]) ++ d :: after := by simpa using htext
  have hfits := h.fits_at hsplit (by
    rw [← isOutside_reverse, List.reverse_concat, isOutside_cons hc, isOutside_reverse, houtside])
  rwa [List.reverse_concat] at hfits

/-- A tag cannot be closed. -/
theorem Fitting.not_dollarTag {tag : List Char} (h : Fitting text.reverse) (htag : isTag tag = true)
    (htext : text = before ++ dollarTag tag ++ after) : isOutside before = false := by
  rw [Bool.eq_false_iff]
  intro houtside
  have hsplit : text = (before ++ '$' :: tag) ++ '$' :: after := by
    simpa [dollarTag] using htext
  have hquote : '"' ∉ '$' :: tag := by
    intro hmem
    have hname := quote_not_mem_of_isTag htag
    simp [hname] at hmem
  have hfits := h.fits_at hsplit (by rw [isOutside_append_right hquote, houtside])
  exact hfits.dollar rfl ⟨tag, before.reverse, htag, by simp⟩

theorem Between.even_run {run : List Char} (h : Between text.reverse)
    (htext : text = before ++ run ++ after) (houtside : isOutside before = true)
    (hrun : ∀ c ∈ run, c = '\'') (hbefore : before.getLast? ≠ some '\'')
    (hafter : after.head? ≠ some '\'') : run.length % 2 = 0 := by
  have hlength : quoteRun (before ++ run).reverse = run.length := by
    rw [List.reverse_append, quoteRun_append (by simpa using hrun) (by rwa [List.head?_reverse]),
      List.length_reverse]
  rw [← hlength]
  -- quotes are paired at the end of a text, and wherever another character is written
  cases after with
  | nil =>
      rw [List.append_nil] at htext
      exact htext ▸ h.paired
  | cons c after =>
      have hquote : '"' ∉ run := fun hmem => absurd (hrun _ hmem) (by decide)
      refine (h.fitting.fits_at htext ?_).paired (by simpa using hafter)
      rw [isOutside_append_right hquote, houtside]

/-- **What is written outside quotes and comments is plain**, if it does not end in a blank. -/
theorem Between.isPlain (h : Between text.reverse)
    (hlast : ∀ c, text.getLast? = some c → isBlank c = false) : IsPlain text where
  closed := by rw [← isOutside_reverse, h.outside]
  blank := fun before c after htext houtside hc =>
    ((h.fitting.fits_at htext houtside).blank hc).1
  noTwoSpaces := fun before after htext => Bool.eq_false_iff.2 fun houtside =>
    ((h.fitting.fits_behind htext (by decide) houtside).blank (by decide)).2.2 rfl
  noSpaceFirst := by
    intro hfirst
    obtain ⟨rest, rfl⟩ := List.head?_eq_some_iff.1 hfirst
    have hfitting := h.fitting
    rw [List.reverse_cons] at hfitting
    exact absurd hfitting.not_isBlank_first (by decide)
  noSpaceLast := fun h => absurd (hlast _ h) (by decide)
  noLineComment := fun before after htext => Bool.eq_false_iff.2 fun houtside =>
    (h.fitting.fits_behind htext (by decide) houtside).dash rfl rfl
  noBlockComment := fun before after htext => Bool.eq_false_iff.2 fun houtside =>
    (h.fitting.fits_behind htext (by decide) houtside).star rfl rfl
  noDollarQuote := fun _ _ _ htag htext => h.fitting.not_dollarTag htag htext
  emptyLiterals := fun _ _ _ htext houtside hrun hbefore hafter =>
    h.even_run htext houtside hrun hbefore hafter

end Plain

/-! ## Normal forms -/

theorem reverse_normalForm (text : List Char) :
    (normalForm text).reverse = (scan text).finish.dropWhile isBlank := by
  rw [normalForm, (sound_scan text).fitting_finish.trim_reverse, List.reverse_reverse]

theorem not_isBlank_last {text : List Char} {c : Char} (h : (normalForm text).getLast? = some c) :
    isBlank c = false := by
  rw [← List.head?_reverse, reverse_normalForm] at h
  have hnot := List.head?_dropWhile_not isBlank (scan text).finish
  simpa [h] using hnot

/-- **The normal form of a text that leaves no quote open is plain**: outside double quotes, which
are closed, the only blanks are single spaces, neither first nor last; no comment and no dollar quote
is opened; and all literals are empty. -/
theorem normalize_is_plain (sql : String) (hclosed : openQuote sql = none) :
    IsPlain (normalize sql).toList := by
  have hbetween := ((sound_scan sql.toList).between_finish hclosed).dropBlanks
  rw [← reverse_normalForm] at hbetween
  rw [toList_normalize]
  exact hbetween.isPlain fun _ => not_isBlank_last

/-- Characters that meet when comments and contents are left out. -/
def touchingParts : String := "a -/**/- $x/*$*/$ E'it\\'s--'\n\t'b'$t$--$t$ \"--  '\" -- c"

theorem touchingParts_are_plain :
    openQuote touchingParts = none ∧
      normalize touchingParts = "a - - $x $ E'' '''' \"--  '\"" ∧
      IsPlain (normalize touchingParts).toList :=
  have hclosed : openQuote touchingParts = none := by decide +kernel
  ⟨hclosed, by decide +kernel, normalize_is_plain touchingParts hclosed⟩

end RepoPolicy.Sql
