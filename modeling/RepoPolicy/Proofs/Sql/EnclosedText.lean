import Mathlib.Data.List.Infix
import RepoPolicy.Proofs.Sql.ParenthesisDepth
import RepoPolicy.Proofs.Sql.QuotedKeywords

set_option autoImplicit false

/-! # Expressions in parentheses

A text in which nothing is hidden is written as it stands, up to blanks (`writesOn_step`). So its
parentheses and double quotes are those of its normal form. If each of its parentheses has a
partner (`IsExpression`), then the parentheses around it are partners in the normal form as well,
and no word between them is outside parentheses (`IsExpression.exists_group`,
`Encloses.topLevel_eq_nil`). -/

namespace RepoPolicy.Sql

open RepoPolicy.Text RepoPolicy.Text.Scanner

/-! ## Texts without hidden parts -/

/-- Whether the reader is inside a literal or a comment. -/
def Mode.isHidden : Mode → Bool
  | .code _ | .dash | .slash | .dollar _ | .quotedName => false
  | _ => true

/-- Nowhere in a text is the reader inside a literal or a comment, if it is read from a state on. -/
def ReadsOpenly (reading : Reading) (text : List Char) : Prop :=
  ∀ front, front <+: text → (readFrom reading front).mode.isHidden = false

instance (reading : Reading) (text : List Char) : Decidable (ReadsOpenly reading text) :=
  decidable_of_iff (text.inits.all (fun front => !(readFrom reading front).mode.isHidden) = true)
    (by simp [ReadsOpenly])

theorem ReadsOpenly.cons {reading : Reading} {c : Char} {rest : List Char}
    (h : ReadsOpenly reading (c :: rest)) :
    reading.mode.isHidden = false ∧ ReadsOpenly (step reading c) rest :=
  ⟨h [] List.nil_prefix, fun front hfront => h (c :: front) (List.cons_prefix_cons.2 ⟨rfl, hfront⟩)⟩

/-- What is written for one more character outside literals and comments: the character, or a single
space for a run of blanks. -/
def WritesOn (c : Char) (written next : List Char) : Prop :=
  next = c :: written ∨ isBlank c = true ∧ (next = written ∨ next = ' ' :: written)

theorem writesOn_pushSpace {c : Char} (hc : isBlank c = true) (written : List Char) :
    WritesOn c written (pushSpace written) := by
  by_cases hspaced : isSpaced written = true
  · exact .inr ⟨hc, .inl (pushSpace_of_isSpaced hspaced)⟩
  · exact .inr ⟨hc, .inr (pushSpace_of_not_isSpaced (by simpa using hspaced))⟩

theorem writesOn_stepCode {preceding : Preceding} {written : List Char} {c : Char}
    (h : (stepCode preceding written c).mode.isHidden = false) :
    WritesOn c written (stepCode preceding written c).finish := by
  -- every character of code writes itself or a space, except for the quote that opens a literal
  unfold stepCode at h ⊢
  split
  · rename_i hc
    rw [beq_iff_eq.1 hc]
    exact .inl rfl
  split
  · rename_i hc
    rw [beq_iff_eq.1 hc]
    exact .inl rfl
  split
  · rename_i hdash hslash hc
    rw [if_neg hdash, if_neg hslash, if_pos hc] at h
    cases h
  split
  · rename_i hc
    rw [beq_iff_eq.1 hc]
    exact .inl rfl
  split
  · rename_i hc
    rw [beq_iff_eq.1 hc]
    exact .inl rfl
  split
  · rename_i hc
    exact writesOn_pushSpace hc written
  · exact .inl rfl

/-- **Outside literals and comments, every character is written as it stands, up to blanks.** -/
theorem writesOn_step {reading : Reading} {c : Char} (h : reading.mode.isHidden = false)
    (hnext : (step reading c).mode.isHidden = false) :
    WritesOn c reading.finish (step reading c).finish := by
  obtain ⟨mode, written⟩ := reading
  -- a character that is held back is written with the next one, unless the two hide something
  cases mode with
  | code preceding => exact writesOn_stepCode hnext
  | dash =>
      by_cases hc : (c == '-') = true
      · simp only [step, hc, if_true] at hnext
        cases hnext
      · have hcode := @step_of_codeBefore ⟨.dash, written⟩ c _ _ (if_neg hc)
        rw [hcode] at hnext ⊢
        exact writesOn_stepCode hnext
  | slash =>
      by_cases hc : (c == '*') = true
      · simp only [step, hc, if_true] at hnext
        cases hnext
      · have hcode := @step_of_codeBefore ⟨.slash, written⟩ c _ _ (if_neg hc)
        rw [hcode] at hnext ⊢
        exact writesOn_stepCode hnext
  | dollar tag =>
      by_cases hc : (c == '$') = true
      · simp only [step, hc, if_true] at hnext
        cases hnext
      by_cases htag : continuesTag tag c = true
      · have hstep : step ⟨.dollar tag, written⟩ c = ⟨.dollar (c :: tag), written⟩ := by
          simp [step, hc, htag]
        rw [hstep]
        exact .inl rfl
      · have hcode := @step_of_codeBefore ⟨.dollar tag, written⟩ c _ _
          (if_neg (by simp [hc, htag]))
        rw [hcode] at hnext ⊢
        exact writesOn_stepCode hnext
  | quotedName =>
      have hstep : (step ⟨.quotedName, written⟩ c).finish = c :: written := by
        by_cases hc : (c == '"') = true <;> simp [step, hc, Reading.finish]
      exact .inl hstep
  | _ => cases h

theorem WritesOn.foldl_read {c : Char} {written next : List Char} (h : WritesOn c written next)
    (nesting : Nesting) :
    next.reverse.foldl Nesting.read nesting
      = (written.reverse.foldl Nesting.read nesting).read c := by
  rcases h with rfl | ⟨hblank, hnext⟩
  · rw [List.reverse_cons, List.foldl_concat]
  · have hc : c ∉ ['"', '(', ')'] := by
      intro hmem
      have hnone : ['"', '(', ')'].all (fun c => !isBlank c) = true := by decide
      have hno := List.all_eq_true.1 hnone c hmem
      rw [hblank] at hno
      cases hno
    rw [read_of_other hc]
    rcases hnext with rfl | rfl
    · rfl
    · rw [List.reverse_cons, List.foldl_concat, read_of_other (by decide)]

theorem WritesOn.cases {c : Char} {written next : List Char} (h : WritesOn c written next) :
    next = written ∨ ∃ d, next = d :: written ∧ (d = c ∨ d = ' ') := by
  rcases h with rfl | ⟨-, rfl | rfl⟩
  · exact .inr ⟨c, rfl, .inl rfl⟩
  · exact .inl rfl
  · exact .inr ⟨' ', rfl, .inr rfl⟩

section Openly

variable {reading : Reading} {text : List Char}

/-- Parentheses and double quotes are written as they stand. -/
theorem ReadsOpenly.foldl_read (h : ReadsOpenly reading text) (nesting : Nesting) :
    (readFrom reading text).finish.reverse.foldl Nesting.read nesting
      = text.foldl Nesting.read (reading.finish.reverse.foldl Nesting.read nesting) := by
  induction text generalizing reading with
  | nil => rfl
  | cons c rest ih =>
      obtain ⟨hhere, hrest⟩ := h.cons
      have hwrites := writesOn_step hhere (hrest [] List.nil_prefix)
      rw [readFrom_cons, ih hrest, hwrites.foldl_read, List.foldl_cons]

/-- What has been written up to some point is what is written for a front of the text. -/
theorem ReadsOpenly.exists_front (h : ReadsOpenly reading text) {start : List Char}
    (hstart : start <+: (readFrom reading text).finish.reverse) :
    start <+: reading.finish.reverse ∨
      ∃ front, front <+: text ∧ start = (readFrom reading front).finish.reverse := by
  induction text generalizing reading with
  | nil => exact .inl hstart
  | cons c rest ih =>
      obtain ⟨hhere, hrest⟩ := h.cons
      rcases ih hrest hstart with hearly | ⟨front, hfront, rfl⟩
      · rcases (writesOn_step hhere (hrest [] List.nil_prefix)).cases with hsame | ⟨d, hnext, -⟩
        · exact .inl (hsame ▸ hearly)
        · rw [hnext, List.reverse_cons, List.prefix_concat_iff] at hearly
          rcases hearly with rfl | hearly
          · refine .inr ⟨[c], ⟨rest, rfl⟩, ?_⟩
            rw [readFrom_cons, readFrom_nil, hnext, List.reverse_cons]
          · exact .inl hearly
      · exact .inr ⟨c :: front, List.cons_prefix_cons.2 ⟨rfl, hfront⟩, rfl⟩

theorem ReadsOpenly.suffix_finish (h : ReadsOpenly reading text) :
    reading.finish <:+ (readFrom reading text).finish := by
  induction text generalizing reading with
  | nil => exact List.suffix_refl _
  | cons c rest ih =>
      obtain ⟨hhere, hrest⟩ := h.cons
      refine List.IsSuffix.trans ?_ (ih hrest)
      rcases (writesOn_step hhere (hrest [] List.nil_prefix)).cases with hsame | ⟨d, hnext, -⟩
      · exact hsame ▸ List.suffix_refl _
      · exact hnext ▸ List.suffix_cons d _

theorem ReadsOpenly.mem_finish (h : ReadsOpenly reading text) {d : Char}
    (hd : d ∈ (readFrom reading text).finish) : d ∈ reading.finish ∨ d ∈ text ∨ d = ' ' := by
  induction text generalizing reading with
  | nil => exact .inl hd
  | cons c rest ih =>
      obtain ⟨hhere, hrest⟩ := h.cons
      rcases ih hrest hd with hearly | hlater | hspace
      · rcases (writesOn_step hhere (hrest [] List.nil_prefix)).cases with hsame | ⟨e, hnext, he⟩
        · exact .inl (hsame ▸ hearly)
        · rw [hnext, List.mem_cons] at hearly
          rcases hearly with rfl | hearly
          · rcases he with rfl | rfl
            · exact .inr (.inl List.mem_cons_self)
            · exact .inr (.inr rfl)
          · exact .inl hearly
      · exact .inr (.inl (List.mem_cons_of_mem c hlater))
      · exact .inr (.inr hspace)

end Openly

/-! ## Texts in parentheses -/

/-- A text may stand between parentheses as an expression: it has neither literals nor comments and
leaves no quote open, and each parenthesis outside quotes has its partner. The reader comes to it
behind a parenthesis. -/
structure IsExpression (text : List Char) : Prop where
  openly : ReadsOpenly (scan ['(']) text
  closed : (scan ('(' :: text)).mode.openQuote = none
  matched : Matched (outsideQuotes text)

/-- Inside a text with partners for all its parentheses, none is closed that was open before. -/
theorem Matched.le_foldl_openCount {text : List Char} (h : Matched text) {front rest : List Char}
    (htext : text = front ++ rest) (depth : Nat) : depth ≤ front.foldl openCount depth := by
  induction h generalizing front rest depth with
  | nil =>
      obtain ⟨rfl, -⟩ := List.append_eq_nil_iff.1 htext.symm
      exact Nat.le_refl depth
  | @other c more hopen hclose _ ih =>
      cases front with
      | nil => exact Nat.le_refl depth
      | cons d front =>
          obtain ⟨rfl, hmore⟩ := List.cons.inj htext
          rw [List.foldl_cons, openCount, if_neg hopen, if_neg hclose]
          exact ih hmore depth
  | @pair inner more hinner _ ihinner ihmore =>
      cases front with
      | nil => exact Nat.le_refl depth
      | cons d front =>
          obtain ⟨rfl, hsplit⟩ := List.cons.inj htext
          have hopens : openCount depth '(' = depth + 1 := rfl
          rw [List.foldl_cons, hopens]
          -- the front ends behind the inner text or within it
          rcases List.append_eq_append_iff.1 hsplit with ⟨beyond, rfl, hbeyond⟩ | ⟨within, rfl, -⟩
          · rw [List.foldl_append, hinner.foldl_openCount]
            cases beyond with
            | nil => exact Nat.le_succ depth
            | cons e beyond =>
                obtain ⟨rfl, hmore⟩ := List.cons.inj hbeyond
                exact ihmore hmore depth
          · exact Nat.le_of_succ_le (ihinner rfl (depth + 1))

theorem outsideFrom_append (quoted : Bool) (front rest : List Char) :
    outsideFrom quoted (front ++ rest)
      = outsideFrom quoted front ++ outsideFrom (quoted != !isOutside front) rest := by
  induction front generalizing quoted with
  | nil => cases quoted <;> rfl
  | cons c front ih =>
      rw [List.cons_append, outsideFrom, outsideFrom]
      by_cases hc : c = '"'
      · rw [if_pos hc, if_pos hc, ih, hc, isOutside_quote]
        cases quoted <;> cases isOutside front <;> rfl
      · rw [if_neg hc, if_neg hc, isOutside_cons hc, ih]
        split <;> rfl

/-- What is written for a text in parentheses: they are the outermost ones, and partners. -/
structure Encloses (inside : List Char) : Prop where
  within : ∀ start, start <+: inside → 1 ≤ (Nesting.after ('(' :: start)).depth
  closes : Nesting.after ('(' :: (inside ++ [')'])) = .outermost

theorem step_close {reading : Reading} (hopen : reading.mode.isHidden = false)
    (hclosed : reading.mode.openQuote = none) :
    ∃ preceding, step reading ')' = ⟨.code preceding, ')' :: reading.finish⟩ := by
  obtain ⟨mode, written⟩ := reading
  cases mode with
  | code preceding => exact ⟨_, rfl⟩
  | dash => exact ⟨_, rfl⟩
  | slash => exact ⟨_, rfl⟩
  | dollar tag =>
      have hends : continuesTag tag ')' = false := by simp [continuesTag]
      refine ⟨.edge, ?_⟩
      simp only [step, hends]
      rfl
  | quotedName => cases hclosed
  | _ => cases hopen

section Expression

variable {text : List Char}

/-- As many parentheses are open in what is written as in the text itself. -/
theorem IsExpression.depth_front (h : IsExpression text) {front : List Char}
    (hfront : front <+: text) :
    (Nesting.after (scan ('(' :: front)).finish.reverse).depth
      = (outsideQuotes front).foldl openCount 1 := by
  have hopenly : ReadsOpenly (scan ['(']) front :=
    fun start hstart => h.openly start (hstart.trans hfront)
  have hnest := hopenly.foldl_read .outermost
  exact (congrArg Nesting.depth hnest).trans (depth_foldl_read front 1 false)

theorem IsExpression.exists_inside (h : IsExpression text) :
    ∃ inside, (scan ('(' :: text)).finish.reverse = '(' :: inside ∧
      (∀ start, start <+: inside → 1 ≤ (Nesting.after ('(' :: start)).depth) ∧
      (Nesting.after ('(' :: inside)).depth = 1 ∧ (')' ∉ text → ')' ∉ inside) := by
  have hopens : (scan ['(']).finish.reverse = ['('] := rfl
  obtain ⟨written, hwritten⟩ := h.openly.suffix_finish
  have hinside : (scan ('(' :: text)).finish.reverse = '(' :: written.reverse := by
    rw [← List.reverse_inj, List.reverse_reverse]
    exact hwritten.symm.trans (by simp [show (scan ['(']).finish = ['('] from rfl])
  refine ⟨written.reverse, hinside, fun start hstart => ?_, ?_, fun hnone hmem => ?_⟩
  · have hfirst : '(' :: start <+: (scan ('(' :: text)).finish.reverse := by
      rw [hinside]
      exact List.cons_prefix_cons.2 ⟨rfl, hstart⟩
    -- what is written so far is written for a front of the text, where the counts agree
    rcases h.openly.exists_front hfirst with hearly | ⟨front, hfront, hstart⟩
    · rw [hopens] at hearly
      obtain rfl : start = [] := by simpa using hearly
      decide
    · have hdepth := h.depth_front hfront
      obtain ⟨rest, rfl⟩ := hfront
      have hmore := outsideFrom_append false front rest
      rw [hstart]
      exact (h.matched.le_foldl_openCount hmore 1).trans (Nat.le_of_eq hdepth.symm)
  · rw [← hinside, h.depth_front (List.prefix_refl text), h.matched.foldl_openCount]
  -- reading writes no parenthesis that is not in the text
  · have hfinish : ')' ∈ (readFrom (scan ['(']) text).finish := by
      rw [← hwritten]
      exact List.mem_append_left _ (List.mem_reverse.1 hmem)
    rcases h.openly.mem_finish hfinish with hopen | htext | hspace
    · exact absurd hopen (by decide)
    · exact hnone htext
    · exact absurd hspace (by decide)

/-- What is written for an expression in parentheses. -/
theorem IsExpression.exists_group (h : IsExpression text) :
    ∃ inside, normalForm ('(' :: (text ++ [')'])) = '(' :: (inside ++ [')']) ∧ Encloses inside ∧
      (∃ preceding, (scan ('(' :: (text ++ [')']))).mode = .code preceding) ∧
      (')' ∉ text → ')' ∉ inside) := by
  obtain ⟨inside, hinside, hwithin, hdepth, hclose⟩ := h.exists_inside
  obtain ⟨preceding, hstep⟩ := step_close (h.openly text (List.prefix_refl text)) h.closed
  have hscan : scan ('(' :: (text ++ [')']))
      = ⟨.code preceding, ')' :: (scan ('(' :: text)).finish⟩ :=
    (scan_append ('(' :: text) [')']).trans hstep
  have hform : normalForm ('(' :: (text ++ [')'])) = '(' :: (inside ++ [')']) := by
    have hfinish : (scan ('(' :: (text ++ [')']))).finish = ')' :: (scan ('(' :: text)).finish := by
      rw [hscan]
      rfl
    rw [← List.reverse_inj, reverse_normalForm, hfinish, List.dropWhile_cons_of_neg (by decide),
      ← List.reverse_inj, List.reverse_cons, hinside]
    simp
  refine ⟨inside, hform, ⟨hwithin, ?_⟩, ⟨preceding, by rw [hscan]⟩, hclose⟩
  -- no quote is open inside, so the last parenthesis closes the first one
  have houtside : isOutside ('(' :: inside) = true := by
    have hfinish := ((sound_scan _).between_finish h.closed).outside
    rwa [← isOutside_reverse, hinside] at hfinish
  have hnest : Nesting.after ('(' :: inside) = ⟨1, false⟩ := by
    rw [← hdepth, ← isOutside_iff_quoted.1 houtside]
  have hlast : Nesting.after ('(' :: inside ++ [')']) = (Nesting.after ('(' :: inside)).read ')' :=
    List.foldl_concat _ _ _ _
  rw [← List.cons_append, hlast, hnest]
  rfl

end Expression

/-- No word is found between parentheses. -/
theorem Encloses.topLevel_eq_nil {word : String} (hword : IsLetters word) {inside : List Char}
    (h : Encloses inside) : topLevel (wholeWord word) ('(' :: (inside ++ [')'])) = [] := by
  rw [List.eq_nil_iff_forall_not_mem]
  intro found hfound
  obtain ⟨before, piece, after, htext, hisword, hdepth, -⟩ :=
    exists_isWord_of_mem_topLevel hword hfound
  obtain ⟨c, others, rfl⟩ := List.exists_cons_of_ne_nil (piece_ne_nil hword hisword.letters)
  cases before with
  | nil =>
      obtain ⟨rfl, -⟩ := List.cons.inj htext
      exact absurd (isWordChar_of_piece hword hisword.letters _ List.mem_cons_self) (by decide)
  | cons d start =>
      obtain ⟨rfl, hrest⟩ := List.cons.inj htext
      have hstart : start <+: inside := by
        refine (List.prefix_concat_iff.1 ⟨_, hrest.symm⟩).resolve_left ?_
        rintro rfl
        simp at hrest
      -- a word inside stands at a depth of at least one
      have := h.within start hstart
      omega

end RepoPolicy.Sql
