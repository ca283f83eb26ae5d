import RepoPolicy.Proofs.Sql.AgreedReading
import RepoPolicy.Sql.Nesting

set_option autoImplicit false

/-! # The marks of a normal form

The normal form of a text that both readers see alike consists of marks: the spellings of its tokens,
each with a space before it or not (`normalForm_eq_written`). A run of marks taken out of the text is
read as the same tokens again (`Legible.tokens_written`), and a blank outside double quotes is the
space before a mark (`exists_mark_of_blank`). -/

namespace RepoPolicy.Sql

open RepoPolicy.Text

/-- A token as it is written in a normal form: whether a space stands before it, and its spelling. -/
structure Mark where
  spaced : Bool
  token : Token
  text : List Char
  deriving DecidableEq, Repr

def Mark.write (mark : Mark) : List Char := if mark.spaced then ' ' :: mark.text else mark.text

/-- What is written for marks, without a space in front. -/
def written : List Mark → List Char
  | [] => []
  | mark :: more => mark.text ++ more.flatMap Mark.write

/-- The marks of lexemes. `spaced` says whether a gap stands before the first of them. -/
def marks : Bool → List Lexeme → List Mark
  | _, [] => []
  | spaced, lexeme :: more =>
    match lexeme.token? with
    | none => marks true more
    | some token => ⟨spaced, token, lexeme.spelling⟩ :: marks false more

/-! ## The spelling of a text -/

theorem map_token_marks (spaced : Bool) (found : List Lexeme) :
    (marks spaced found).map Mark.token = found.filterMap Lexeme.token? := by
  induction found generalizing spaced with
  | nil => rfl
  | cons lexeme more ih =>
      obtain ⟨token?, text⟩ := lexeme
      cases token? with
      | none => exact ih true
      | some token => exact congrArg (List.cons token) (ih false)

theorem marks_eq_nil_of_gaps {spaced : Bool} {found : List Lexeme}
    (h : found.all (·.token?.isNone) = true) : marks spaced found = [] := by
  induction found generalizing spaced with
  | nil => rfl
  | cons lexeme more ih =>
      obtain ⟨token?, text⟩ := lexeme
      rw [List.all_cons, Bool.and_eq_true, Option.isNone_iff_eq_none] at h
      obtain ⟨rfl, hmore⟩ := h
      exact ih hmore

/-- A gap before a token is written as one space. -/
theorem flatMap_write_marks_true {found : List Lexeme}
    (h : found.all (·.token?.isNone) = false) :
    (marks true found).flatMap Mark.write = ' ' :: written (marks true found) := by
  induction found with
  | nil => cases h
  | cons lexeme more ih =>
      obtain ⟨token?, text⟩ := lexeme
      cases token? with
      | none => exact ih (by simpa using h)
      | some token => rfl

/-- What is spelled for lexemes is what is written for their marks. -/
theorem spell_eq (found : List Lexeme) :
    (∀ spaced, spell true found = written (marks spaced found)) ∧
      spell false found = (marks false found).flatMap Mark.write := by
  induction found with
  | nil => exact ⟨fun _ => rfl, rfl⟩
  | cons lexeme more ih =>
      obtain ⟨token?, text⟩ := lexeme
      obtain ⟨htrue, hfalse⟩ := ih
      cases token? with
      | some token =>
          refine ⟨fun spaced => ?_, ?_⟩ <;> rw [spell_token, hfalse] <;> rfl
      | none =>
          refine ⟨fun spaced => ?_, ?_⟩
          · rw [spell_gap, Bool.true_or, if_pos rfl]
            exact htrue true
          -- a gap is written as a space if a token follows, which is then the space before its mark
          · rw [spell_gap, Bool.false_or]
            show _ = (marks true more).flatMap Mark.write
            split
            · rename_i hgaps
              rw [spell_eq_nil_of_gaps hgaps, marks_eq_nil_of_gaps hgaps]
              rfl
            · rename_i htokens
              rw [flatMap_write_marks_true (by simpa using htokens), htrue true]

/-! ## The text of a mark -/

/-- The text of a mark: a name in double quotes, or code without blanks and double quotes. -/
inductive MarkText : List Char → Prop where
  | name {body : List Char} (hbody : Doubled '"' body) : MarkText ('"' :: (body ++ ['"']))
  | code {c : Char} {rest : List Char} (h : ∀ d ∈ c :: rest, isBlank d = false ∧ d ≠ '"') :
      MarkText (c :: rest)

theorem not_quote_of_isCode {text left : List Char} (h : isCode text left = true) : '"' ∉ text := by
  induction text with
  | nil => simp
  | cons c rest ih =>
      simp only [isCode, Bool.and_eq_true, bne_iff_ne] at h
      simp only [List.mem_cons, not_or]
      exact ⟨h.1.1.1.1.2.symm, ih h.2⟩

theorem markText_of_readToken {c : Char} {rest left : List Char} {token : Token}
    {preceding : Preceding} {lexeme : Lexeme} (h : readToken c rest = .ok (some token, left))
    (hlexeme : lexeme = ⟨some token, c :: rest.take (rest.length - left.length)⟩)
    (halike : lexeme.readsAlike preceding left = true) : MarkText lexeme.spelling := by
  cases tokenText_of_readToken h with
  | @string body value hc htoken hrest _ _ =>
      subst htoken hlexeme
      exact .code (forall_mem_letters (by decide))
  | @literal start body hc htoken hstart hrest _ _ _ =>
      have htext : rest = (start ++ '\'' :: (body ++ ['\''])) ++ left := by simp [hrest]
      rw [text_eq_of_append htext] at hlexeme
      subst htoken hlexeme
      have hletters : ∀ d ∈ literalLetters, isBlank d = false ∧ d ≠ '"' :=
        forall_mem_letters (by decide)
      -- an emptied literal is written as its letter and two quotes, without blanks
      have hcode : ∀ more : List Char, (∀ d ∈ more, isBlank d = false ∧ d ≠ '"') →
          MarkText (c :: more) := by
        intro more hmore
        refine .code fun d hd => ?_
        rcases List.mem_cons.1 hd with rfl | hd
        · exact hletters d hc
        · exact hmore d hd
      rcases hstart with rfl | ⟨rfl, -⟩
      · exact hcode ['\'', '\''] (forall_mem_letters (by decide))
      · exact hcode ['&', '\'', '\''] (forall_mem_letters (by decide))
  | @verbatim used hrest hstring hliteral _ =>
      rw [text_eq_of_append hrest] at hlexeme
      subst hlexeme
      rw [spelling_eq_text hstring hliteral]
      by_cases hname : c = '"'
      · subst hname
        rw [readToken_doubleQuote] at h
        obtain ⟨⟨contents, after⟩, hread, heq⟩ := map_eq_ok h
        obtain ⟨-, rfl⟩ := Prod.mk.inj heq
        obtain ⟨body, rfl, hdoubled, -⟩ := doubled_of_readQuoted hread
        obtain rfl : used = body ++ ['"'] := List.append_cancel_right (hrest.symm.trans (by simp))
        exact .name hdoubled
      · have hcode := readsAlike_verbatim hstring hliteral hname halike
        refine .code fun d hd => ⟨not_isBlank_of_isCode hcode d hd, ?_⟩
        rintro rfl
        exact not_quote_of_isCode hcode hd

theorem MarkText.solid {text : List Char} (h : MarkText text) : Solid text := by
  cases h with
  | @name body hbody =>
      exact ⟨⟨'"', body ++ ['"'], rfl, by decide⟩, '"' :: body, '"', rfl, by decide⟩
  | @code c rest hcode =>
      refine ⟨⟨c, rest, rfl, (hcode c List.mem_cons_self).1⟩, (c :: rest).dropLast,
        (c :: rest).getLast (by simp), (List.dropLast_concat_getLast _).symm, ?_⟩
      exact (hcode _ (List.getLast_mem _)).1

theorem Solid.append {front rear : List Char} (hfront : Solid front) (hrear : Solid rear)
    (middle : List Char) : Solid (front ++ (middle ++ rear)) := by
  obtain ⟨⟨first, more, rfl, hfirst⟩, -⟩ := hfront
  obtain ⟨-, others, last, rfl, hlast⟩ := hrear
  refine ⟨⟨first, more ++ (middle ++ (others ++ [last])), rfl, hfirst⟩, ?_⟩
  exact ⟨first :: more ++ (middle ++ others), last, by simp, hlast⟩

/-- What is written for marks neither begins nor ends with a blank. -/
theorem solid_written {list : List Mark} (h : ∀ mark ∈ list, MarkText mark.text) (hne : list ≠ []) :
    Solid (written list) := by
  obtain ⟨first, more, rfl⟩ := List.exists_cons_of_ne_nil hne
  have hfirst := (h first List.mem_cons_self).solid
  rcases List.eq_nil_or_concat more with rfl | ⟨others, last, rfl⟩
  · rw [written, List.flatMap_nil, List.append_nil]
    exact hfirst
  · have hlast := (h last (by simp)).solid
    rw [written, List.concat_eq_append, List.flatMap_append, List.flatMap_singleton, Mark.write]
    split
    · have happend := hfirst.append hlast (others.flatMap Mark.write ++ [' '])
      simpa using happend
    · exact hfirst.append hlast _

/-- The space in front of marks is what trimming takes away. -/
theorem trim_flatMap {list : List Mark} (h : ∀ mark ∈ list, MarkText mark.text) :
    trim (list.flatMap Mark.write) = written list := by
  cases list with
  | nil => rfl
  | cons mark more =>
      have hsolid := solid_written h (List.cons_ne_nil mark more)
      rw [List.flatMap_cons, Mark.write]
      split
      · have hspace : trim (' ' :: (mark.text ++ more.flatMap Mark.write))
            = trim (mark.text ++ more.flatMap Mark.write) := rfl
        rw [List.cons_append, hspace, ← List.append_nil (mark.text ++ _)]
        exact hsolid.trim_append (by simp)
      · rw [← List.append_nil (mark.text ++ _)]
        exact hsolid.trim_append (by simp)

/-! ## Marks are read again -/

/-- Marks that are read as their tokens again, also if what is behind them is cut off. -/
inductive Legible : List Mark → Prop where
  | nil : Legible []
  | cons {mark : Mark} {more : List Mark} (htext : MarkText mark.text)
      (hread : ∀ front, front <+: more → ∃ c rest, mark.text = c :: rest ∧
        readToken c (rest ++ front.flatMap Mark.write)
          = .ok (some mark.token.emptied, front.flatMap Mark.write))
      (hmore : Legible more) : Legible (mark :: more)

theorem ahead_of_prefix {left new front : List Char} (h : Ahead left new) (hfront : front <+: new) :
    Ahead left front :=
  fun piece hspace hquote hpiece => h piece hspace hquote (hpiece.trans hfront)

theorem flatMap_write_prefix {front more : List Mark} (h : front <+: more) :
    front.flatMap Mark.write <+: more.flatMap Mark.write := by
  obtain ⟨rest, rfl⟩ := h
  rw [List.flatMap_append]
  exact List.prefix_append _ _

/-- **The marks of a text that both readers see alike are legible.** -/
theorem legible_marks {fuel : Nat} {text : List Char} {found : List Lexeme} {preceding : Preceding}
    {spaced : Bool} (h : lexemes fuel text = .ok found) (hfuel : text.length ≤ fuel)
    (halike : allReadAlike preceding found = true) : Legible (marks spaced found) := by
  induction fuel generalizing text found preceding spaced with
  | zero =>
      obtain rfl : text = [] := List.length_eq_zero_iff.1 (Nat.le_zero.1 hfuel)
      obtain rfl := Except.ok.inj h
      exact .nil
  | succ fuel ih =>
      cases text with
      | nil =>
          obtain rfl := Except.ok.inj h
          exact .nil
      | cons c rest =>
          obtain ⟨token?, left, more, hread, hmore, rfl⟩ := lexemes_cons_eq_ok h
          have hshort : left.length ≤ fuel := by
            obtain ⟨used, rfl⟩ := exists_append_of_readToken hread
            rw [List.length_cons, List.length_append] at hfuel
            omega
          rw [allReadAlike, Bool.and_eq_true, flatMap_text_of_lexemes hmore hshort] at halike
          obtain ⟨hfirst, hothers⟩ := halike
          cases token? with
          | none =>
              show Legible (marks true more)
              exact ih hmore hshort hothers
          | some token =>
              refine .cons (markText_of_readToken hread rfl hfirst) (fun front hfront => ?_)
                (ih hmore hshort hothers)
              -- what is written behind a mark begins like the text that is left, so it is read
              -- alike
              have hahead : Ahead left (front.flatMap Mark.write) :=
                ahead_of_prefix (ahead_spell hmore)
                  ((spell_eq more).2 ▸ flatMap_write_prefix hfront)
              exact exists_spelling (tokenText_of_readToken hread) hahead

theorem normalForm_eq_written {text : List Char} {found : List Lexeme}
    (h : lexemes text.length text = .ok found) (halike : allReadAlike .edge found = true) :
    normalForm text = written (marks false found) := by
  rw [normalForm_eq_spell h halike, (spell_eq found).1 false]

section Legible

variable {list front rest : List Mark}

theorem Legible.of_append_left (h : Legible (front ++ rest)) : Legible front := by
  induction front with
  | nil => exact .nil
  | cons mark front ih =>
      cases h with
      | cons htext hread hmore =>
          exact .cons htext (fun cut hcut => hread cut (hcut.trans (List.prefix_append _ _))) (ih hmore)

theorem Legible.of_append_right (h : Legible (front ++ rest)) : Legible rest := by
  induction front with
  | nil => exact h
  | cons mark front ih =>
      cases h with
      | cons _ _ hmore => exact ih hmore

theorem Legible.markText (h : Legible list) : ∀ mark ∈ list, MarkText mark.text := by
  induction h with
  | nil => simp
  | cons htext _ _ ih =>
      rintro mark (_ | ⟨_, hmem⟩)
      · exact htext
      · exact ih mark hmem

theorem Legible.tokens_flatMap (h : Legible list) {fuel : Nat}
    (hfuel : (list.flatMap Mark.write).length ≤ fuel) :
    tokens fuel (list.flatMap Mark.write) = .ok (list.map fun mark => mark.token.emptied) := by
  induction h generalizing fuel with
  | nil => rw [List.flatMap_nil, tokens]; rfl
  | @cons mark more htext hread hmore ih =>
      obtain ⟨c, rest, htext', hagain⟩ := hread more List.prefix_rfl
      -- behind the space, if there is one, the mark is read by itself
      have hmark : ∀ {fuel : Nat}, (mark.text ++ more.flatMap Mark.write).length ≤ fuel →
          tokens fuel (mark.text ++ more.flatMap Mark.write)
            = .ok (mark.token.emptied :: more.map fun mark => mark.token.emptied) := by
        intro fuel hfuel
        rw [htext', List.cons_append] at hfuel ⊢
        obtain ⟨n, rfl⟩ : ∃ n, fuel = n + 1 := ⟨fuel - 1, by simp at hfuel; omega⟩
        rw [List.length_cons, List.length_append] at hfuel
        exact tokens_cons hagain (ih (by omega))
      rw [List.flatMap_cons, Mark.write] at hfuel ⊢
      split
      · rename_i hspaced
        rw [if_pos hspaced, List.cons_append] at hfuel
        obtain ⟨n, rfl⟩ : ∃ n, fuel = n + 1 := ⟨fuel - 1, by simp at hfuel; omega⟩
        have hblank : ∀ text, readToken ' ' text = .ok (none, text) := fun _ => rfl
        exact tokens_cons (hblank _) (hmark (by simpa using hfuel))
      · rename_i hspaced
        rw [if_neg hspaced] at hfuel
        exact hmark hfuel

/-- **A run of marks is read as its tokens**, up to the contents of strings. -/
theorem Legible.tokens_written (h : Legible list) {fuel : Nat}
    (hfuel : (written list).length ≤ fuel) :
    tokens fuel (written list) = .ok (list.map fun mark => mark.token.emptied) := by
  cases h with
  | nil => rw [written, tokens]; rfl
  | @cons mark more htext hread hmore =>
      obtain ⟨c, rest, htext', hagain⟩ := hread more List.prefix_rfl
      rw [written, htext', List.cons_append] at hfuel ⊢
      obtain ⟨n, rfl⟩ : ∃ n, fuel = n + 1 := ⟨fuel - 1, by simp at hfuel; omega⟩
      rw [List.length_cons, List.length_append] at hfuel
      exact tokens_cons hagain (hmore.tokens_flatMap (by omega))

end Legible

/-! ## Quotes and blanks -/

theorem quoted_read (nesting : Nesting) (c : Char) :
    (nesting.read c).quoted = if c = '"' then !nesting.quoted else nesting.quoted := by
  unfold Nesting.read
  by_cases hquote : c = '"'
  · simp [hquote]
  · simp only [hquote, beq_iff_eq, if_false]
    split
    · rfl
    split
    · rfl
    split
    · rfl
    · rfl

theorem quoted_foldl_of_not_mem {text : List Char} (h : '"' ∉ text) (nesting : Nesting) :
    (text.foldl Nesting.read nesting).quoted = nesting.quoted := by
  induction text generalizing nesting with
  | nil => rfl
  | cons c rest ih =>
      rw [List.mem_cons, not_or] at h
      rw [List.foldl_cons, ih h.2, quoted_read, if_neg (Ne.symm h.1)]

/-- Between double quotes nothing nests. -/
theorem Doubled.foldl_read {body : List Char} (h : Doubled '"' body) (depth : Nat) :
    body.foldl Nesting.read ⟨depth, true⟩ = ⟨depth, true⟩ := by
  induction h with
  | nil => rfl
  | twice _ ih => exact ih
  | @other c body hc _ ih =>
      have hread : (⟨depth, true⟩ : Nesting).read c = ⟨depth, true⟩ := by simp [Nesting.read, hc]
      rw [List.foldl_cons, hread, ih]

theorem Doubled.quoted_of_append {body front rest : List Char} {c : Char} (h : Doubled '"' body)
    (hbody : body = front ++ c :: rest) (hc : c ≠ '"') (nesting : Nesting)
    (hquoted : nesting.quoted = true) : (front.foldl Nesting.read nesting).quoted = true := by
  induction h generalizing front nesting with
  | nil => simp at hbody
  | @twice body _ ih =>
      -- the two quotes cancel out, and the character is neither of them
      match front with
      | [] => exact absurd (List.cons.inj hbody).1.symm hc
      | [d] =>
          obtain ⟨-, hrest⟩ := List.cons.inj hbody
          exact absurd (List.cons.inj hrest).1.symm hc
      | d :: e :: front =>
          obtain ⟨rfl, hrest⟩ := List.cons.inj hbody
          obtain ⟨rfl, rfl⟩ := List.cons.inj hrest
          rw [List.foldl_cons, List.foldl_cons]
          exact ih rfl _ (by simp [quoted_read, hquoted])
  | @other d body hd _ ih =>
      cases front with
      | nil => exact hquoted
      | cons e front =>
          obtain ⟨rfl, rfl⟩ := List.cons.inj hbody
          rw [List.foldl_cons]
          exact ih rfl _ (by simp [quoted_read, hquoted, hd])

theorem MarkText.quoted_foldl {text : List Char} (h : MarkText text) {nesting : Nesting}
    (hquoted : nesting.quoted = false) : (text.foldl Nesting.read nesting).quoted = false := by
  cases h with
  | @name body hbody =>
      have hopen : nesting.read '"' = ⟨nesting.depth, true⟩ := by simp [Nesting.read, hquoted]
      rw [List.foldl_cons, hopen, List.foldl_append, hbody.foldl_read]
      rfl
  | code hcode =>
      rw [quoted_foldl_of_not_mem (fun hmem => (hcode '"' hmem).2 rfl), hquoted]

/-- A blank inside a mark is quoted. -/
theorem MarkText.quoted_of_blank {text front rest : List Char} {c : Char} (h : MarkText text)
    (htext : text = front ++ c :: rest) (hc : isBlank c = true) {nesting : Nesting}
    (hquoted : nesting.quoted = false) : (front.foldl Nesting.read nesting).quoted = true := by
  have hquote : c ≠ '"' := by
    rintro rfl
    exact absurd hc (by decide)
  cases h with
  | @name body hbody =>
      cases front with
      | nil => exact absurd (List.cons.inj htext).1.symm hquote
      | cons d front =>
          obtain ⟨rfl, hinside⟩ := List.cons.inj htext
          have hopen : (nesting.read '"').quoted = true := by simp [quoted_read, hquoted]
          -- the blank is neither of the quotes around the name, so it is inside
          rcases List.append_eq_append_iff.1 hinside with ⟨more, rfl, hend⟩ | ⟨more, rfl, hmore⟩
          · cases more with
            | nil => exact absurd (List.cons.inj hend).1.symm hquote
            | cons e more =>
                have := congrArg List.length hend
                simp at this
          · cases more with
            | nil => exact absurd (List.cons.inj hmore).1.symm.symm hquote
            | cons e more =>
                obtain ⟨rfl, -⟩ := List.cons.inj hmore
                rw [List.foldl_cons]
                exact hbody.quoted_of_append rfl hquote _ hopen
  | code hcode =>
      have hmem := hcode c (by simp [htext])
      rw [hc] at hmem
      cases hmem.1

theorem quoted_write {mark : Mark} (h : MarkText mark.text) {nesting : Nesting}
    (hquoted : nesting.quoted = false) :
    (mark.write.foldl Nesting.read nesting).quoted = false := by
  rw [Mark.write]
  split
  · rw [List.foldl_cons]
    exact h.quoted_foldl (by simp [quoted_read, hquoted])
  · exact h.quoted_foldl hquoted

theorem quoted_flatMap {list : List Mark} (h : ∀ mark ∈ list, MarkText mark.text) {nesting : Nesting}
    (hquoted : nesting.quoted = false) :
    ((list.flatMap Mark.write).foldl Nesting.read nesting).quoted = false := by
  induction list generalizing nesting with
  | nil => exact hquoted
  | cons mark more ih =>
      rw [List.flatMap_cons, List.foldl_append]
      exact ih (fun other hother => h other (List.mem_cons_of_mem _ hother))
        (quoted_write (h mark List.mem_cons_self) hquoted)

theorem quoted_written {list : List Mark} (h : ∀ mark ∈ list, MarkText mark.text) {nesting : Nesting}
    (hquoted : nesting.quoted = false) :
    ((written list).foldl Nesting.read nesting).quoted = false := by
  cases list with
  | nil => exact hquoted
  | cons mark more =>
      rw [written, List.foldl_append]
      exact quoted_flatMap (fun other hother => h other (List.mem_cons_of_mem _ hother))
        ((h mark List.mem_cons_self).quoted_foldl hquoted)

theorem exists_mark_of_flatMap {list : List Mark} (h : ∀ mark ∈ list, MarkText mark.text)
    {before after : List Char} {c : Char} (hc : isBlank c = true)
    (htext : list.flatMap Mark.write = before ++ c :: after) {nesting : Nesting}
    (hstart : nesting.quoted = false) (hquoted : (before.foldl Nesting.read nesting).quoted = false) :
    ∃ front mark rest, list = front ++ mark :: rest ∧ after = written (mark :: rest) := by
  induction list generalizing before nesting with
  | nil => simp at htext
  | cons mark more ih =>
      have hmark := h mark List.mem_cons_self
      rw [List.flatMap_cons] at htext
      rcases List.append_eq_append_iff.1 htext with ⟨passed, rfl, hmore⟩ | ⟨inside, hwrite, hafter⟩
      · rw [List.foldl_append] at hquoted
        obtain ⟨front, found, rest, rfl, hfound⟩ :=
          ih (fun other hother => h other (List.mem_cons_of_mem _ hother)) hmore
            (quoted_write hmark hstart) hquoted
        exact ⟨mark :: front, found, rest, rfl, hfound⟩
      · cases inside with
        | nil =>
            -- the blank is the first character behind the mark
            have hbehind : more.flatMap Mark.write = [] ++ c :: after := hafter.symm
            obtain ⟨front, found, rest, rfl, hfound⟩ :=
              ih (fun other hother => h other (List.mem_cons_of_mem _ hother)) hbehind hstart hstart
            exact ⟨mark :: front, found, rest, rfl, hfound⟩
        | cons d inside =>
            obtain ⟨rfl, rfl⟩ := List.cons.inj hafter
            rw [Mark.write] at hwrite
            split at hwrite
            · cases before with
              | nil =>
                  obtain ⟨-, rfl⟩ := List.cons.inj hwrite
                  exact ⟨[], mark, more, rfl, rfl⟩
              | cons space before =>
                  obtain ⟨rfl, hinside⟩ := List.cons.inj hwrite
                  have hspace : (nesting.read ' ').quoted = false := by simp [quoted_read, hstart]
                  have hblank := hmark.quoted_of_blank hinside hc hspace
                  rw [List.foldl_cons, hblank] at hquoted
                  cases hquoted
            · rw [hmark.quoted_of_blank hwrite hc hstart] at hquoted
              cases hquoted

/-- **A blank outside double quotes is the space before a mark.** -/
theorem exists_mark_of_blank {list : List Mark} (h : ∀ mark ∈ list, MarkText mark.text)
    {before after : List Char} {c : Char} (hc : isBlank c = true)
    (htext : written list = before ++ c :: after)
    (hquoted : (before.foldl Nesting.read .outermost).quoted = false) :
    ∃ front rest, list = front ++ rest ∧ after = written rest := by
  cases list with
  | nil => simp [written] at htext
  | cons mark more =>
      have hmark := h mark List.mem_cons_self
      have hmore := fun other hother => h other (List.mem_cons_of_mem mark hother)
      have hout : Nesting.outermost.quoted = false := rfl
      rw [written] at htext
      -- the blank stands behind the first mark, or in it, where it would be quoted
      rcases List.append_eq_append_iff.1 htext with ⟨passed, rfl, hpassed⟩ | ⟨inside, hinside, hafter⟩
      · rw [List.foldl_append] at hquoted
        obtain ⟨front, found, rest, rfl, hfound⟩ :=
          exists_mark_of_flatMap hmore hc hpassed (hmark.quoted_foldl hout) hquoted
        exact ⟨mark :: front, found :: rest, rfl, hfound⟩
      · cases inside with
        | nil =>
            have hbehind : more.flatMap Mark.write = [] ++ c :: after := hafter.symm
            obtain ⟨front, found, rest, rfl, hfound⟩ :=
              exists_mark_of_flatMap hmore hc hbehind hout hout
            exact ⟨mark :: front, found :: rest, rfl, hfound⟩
        | cons d inside =>
            obtain ⟨rfl, rfl⟩ := List.cons.inj hafter
            rw [hmark.quoted_of_blank hinside hc hout] at hquoted
            cases hquoted

end RepoPolicy.Sql
