import RepoPolicy.Proofs.Sql.PlainForm
import RepoPolicy.Proofs.Text.Offsets

set_option autoImplicit false

/-! # The normal form by indices

The characters of a text are read by their indices, with one more character looked at ahead. So no
character waits for the next one, but the index jumps: over two characters that are read together,
and over a whole dollar quote, whose end is searched for by the tag. The index moves forward with
each turn, nothing behind the end is looked at, and the normal form is the one that is read
character by character (`normalForm_eq_ok`). -/

namespace RepoPolicy.Sql.ByOffset

open RepoPolicy.Text

/-! ## Reading by indices -/

/-- The next index, and what has been read before it. -/
structure Cursor where
  index : Nat
  reading : Reading

def Cursor.start : Cursor := ⟨0, .start⟩

def followsEdge (text : List Char) : Nat → Checked Bool
  | 0 => .ok true
  | index + 1 => do return !isWordPart (← nth text index)

/-- Whether a letter `E` that begins a word stands before an index. -/
def followsEscapeLetter (text : List Char) : Nat → Checked Bool
  | 0 => .ok false
  | index + 1 => do
    let letter ← nth text index
    return (letter == 'E' || letter == 'e') && (← followsEdge text index)

/-- The tag that is read behind an opening dollar, when the characters `tag` of it, the last one
first, have been read before the text. -/
def readTag : List Char → List Char → Option (List Char)
  | _, [] => none
  | tag, c :: rest =>
    if c == '$' then some tag.reverse
    else if continuesTag tag c then readTag (c :: tag) rest
    else none

/-- A turn of the loop that looks for a closing tag. -/
def closingTurn (text tag : List Char) (index : Nat) : Checked (Turn Nat (Option Nat)) :=
  if index + tag.length ≤ text.length then do
    let piece ← slice text index (index + tag.length)
    return if piece == tag then .stop (some (index + tag.length)) else .goOn (index + 1)
  else return .stop none

/-- The index behind the closing tag of a dollar quote whose contents begin at an index. -/
def indexBehind (text tag : List Char) (index : Nat) : Checked (Option Nat) :=
  loop text.length id (closingTurn text tag) index

/-- Whether a text goes on outside quotes and comments, and nothing waits for it. -/
def inCode : Mode → Bool
  | .code _ => true
  | _ => false

/-- Whether a character and the next one are read together. -/
def joins (mode : Mode) (c : Char) (next : Option Char) : Bool :=
  match mode with
  | .code _ => c == '-' && next == some '-' || c == '/' && next == some '*'
  | .blockComment _ => c == '*' && next == some '/'
  | .literal escapes => escapes && c == '\\' || c == '\'' && next == some '\''
  | _ => false

/-- What has been read when the next character completes nothing. -/
def resolved (reading : Reading) : Reading :=
  let written := reading.written
  match reading.mode with
  | .dash => ⟨.code .edge, '-' :: written⟩
  | .slash => ⟨.code .edge, '/' :: written⟩
  | .dollar tag => ⟨.code .word, tag ++ '$' :: written⟩
  | .literalQuote _ => ⟨.code .edge, '\'' :: written⟩
  | .blockComment _ => ⟨.blockComment false, written⟩
  | _ => reading

/-- Read on behind the dollar quote that opens at an index. -/
def skipDollarQuote (text tag : List Char) (index : Nat) (written : List Char) : Checked Cursor := do
  match ← indexBehind text tag (index + width tag) with
  | some stop => return ⟨stop, .code .word, '\'' :: '\'' :: written⟩
  | none => return ⟨text.length, .dollarQuoted tag [], '\'' :: '\'' :: written⟩

def advance (text : List Char) (cursor : Cursor) (c : Char) (next : Option Char) : Checked Cursor :=
  let index := cursor.index
  let reading := cursor.reading
  if joins reading.mode c next then .ok ⟨index + 2, readFrom reading (c :: next.toList)⟩
  else if inCode reading.mode && c == '\'' then do
    return ⟨index + 1, .literal (← followsEscapeLetter text index), '\'' :: reading.written⟩
  else
    match if inCode reading.mode && c == '$' then readTag [] (text.drop (index + 1)) else none with
    | some tag => skipDollarQuote text (dollarTag tag) index reading.written
    | none => .ok ⟨index + 1, resolved (step reading c)⟩

def turn (text : List Char) (cursor : Cursor) :
    Checked (Turn Cursor (List Char × Option OpenQuote)) :=
  if cursor.index < text.length then do
    let c ← nth text cursor.index
    return .goOn (← advance text cursor c text[cursor.index + 1]?)
  else return .stop cursor.reading.outcome

/-- The normal form of a text, and the quote that it leaves open. An escaped character may lie behind
the end, so the index may reach one place further. -/
def normalForm (text : List Char) : Checked (List Char × Option OpenQuote) := do
  let outcome ← loop (text.length + 1) Cursor.index (turn text) .start
  return (trim outcome.1.reverse, outcome.2)

/-! ## What stands before an index -/

def precedingOf (passed : List Char) : Preceding := passed.foldl Preceding.next .edge

theorem precedingOf_concat (passed : List Char) (c : Char) :
    precedingOf (passed ++ [c]) = (precedingOf passed).next c := by
  rw [precedingOf, List.foldl_append]
  rfl

theorem next_eq_edge_iff {preceding : Preceding} {c : Char} :
    preceding.next c = .edge ↔ isWordPart c = false := by
  rw [Preceding.next]
  by_cases hletter : c = 'E' ∨ c = 'e'
  · have hword : isWordPart c = true := by rcases hletter with rfl | rfl <;> decide
    cases preceding <;> simp [hletter, hword]
  · simp [hletter]

theorem next_beq_escapeLetter (preceding : Preceding) (c : Char) :
    (preceding.next c == .escapeLetter) = ((c == 'E' || c == 'e') && preceding == .edge) := by
  rw [Preceding.next]
  cases (c == 'E' || c == 'e') && preceding == .edge with
  | true => rfl
  | false => cases isWordPart c <;> rfl

theorem precedingOf_edge (passed : List Char) {c : Char} (h : isWordPart c = false) :
    precedingOf (passed ++ [c]) = .edge := by
  rw [precedingOf_concat, next_eq_edge_iff, h]

theorem isWordPart_of_isBlank {c : Char} (h : isBlank c = true) : isWordPart c = false := by
  have hall : ∀ code ∈ blankCodes, isWordPart (Char.ofNat code) = false := by decide +kernel
  have hcode := hall c.toNat (mem_blankCodes h)
  rwa [Char.ofNat_toNat] at hcode

theorem followsEdge_eq_ok (passed rest : List Char) :
    followsEdge (passed ++ rest) passed.length = .ok (precedingOf passed == .edge) := by
  rcases List.eq_nil_or_concat passed with rfl | ⟨front, last, rfl⟩
  · rfl
  · have hedge : ((precedingOf front).next last == .edge) = !isWordPart last := by
      rw [Bool.eq_iff_iff, beq_iff_eq, next_eq_edge_iff, Bool.not_eq_true']
    rw [List.concat_eq_append, List.append_assoc, List.singleton_append, List.length_append,
      List.length_singleton, followsEdge, nth_append, precedingOf_concat, hedge]
    rfl

theorem followsEscapeLetter_eq_ok (passed rest : List Char) :
    followsEscapeLetter (passed ++ rest) passed.length
      = .ok (precedingOf passed == .escapeLetter) := by
  rcases List.eq_nil_or_concat passed with rfl | ⟨front, last, rfl⟩
  · rfl
  · rw [List.concat_eq_append, List.append_assoc, List.singleton_append, List.length_append,
      List.length_singleton, followsEscapeLetter, nth_append, ok_bind, followsEdge_eq_ok, ok_bind,
      precedingOf_concat, next_beq_escapeLetter]
    rfl

/-! ## Dollar quotes -/

theorem opensDollarQuote_of_readTag_eq_none {tag rest : List Char} (h : readTag tag rest = none) :
    opensDollarQuote tag rest = false := by
  induction rest generalizing tag with
  | nil => rfl
  | cons c rest ih =>
      rw [readTag] at h
      split at h
      · cases h
      · rename_i hdollar
        rw [opensDollarQuote, Bool.eq_false_iff.2 hdollar, Bool.false_or]
        split at h
        · rw [ih h, Bool.and_false]
        · rename_i hends
          rw [Bool.eq_false_iff.2 hends, Bool.false_and]

theorem exists_of_readTag {tag rest whole : List Char} (h : readTag tag rest = some whole)
    (htag : isTag tag.reverse = true) :
    ∃ more behind, rest = more ++ '$' :: behind ∧ whole = tag.reverse ++ more ∧
      isTag whole = true := by
  induction rest generalizing tag with
  | nil => cases h
  | cons c rest ih =>
      rw [readTag] at h
      split at h
      · rename_i hdollar
        obtain rfl := Option.some.inj h
        exact ⟨[], rest, by rw [beq_iff_eq.1 hdollar, List.nil_append], by simp, htag⟩
      · split at h
        · rename_i hcontinues
          -- a tag that goes on is still a tag, whatever it began with
          have hmore : isTag (c :: tag).reverse = true := by
            rw [List.reverse_cons, isTag_concat, htag, Bool.true_and, ← hcontinues]
            exact continuesTag_congr (by simp) c
          obtain ⟨more, behind, rfl, rfl, hwhole⟩ := ih h hmore
          exact ⟨c :: more, behind, rfl, by simp, hwhole⟩
        · cases h

/-- The dollars of a tag and the characters between them take one byte each. -/
theorem width_dollarTag {tag : List Char} (h : isTag tag = true) :
    width (dollarTag tag) = (dollarTag tag).length := by
  have hall : ∀ text : List Char, (∀ c ∈ text, c.toNat < 128) → width text = text.length := by
    intro text hbasic
    induction text with
    | nil => rfl
    | cons c text ih =>
        rw [width_cons, utf8Size_of_toNat_lt (hbasic c List.mem_cons_self),
          ih fun d hd => hbasic d (List.mem_cons_of_mem c hd), List.length_cons, Nat.add_comm]
  refine hall _ fun c hc => ?_
  rcases List.mem_append.1 hc with hc | hc
  · rcases List.mem_cons.1 hc with rfl | hc
    · decide
    · obtain ⟨front, hcontinues⟩ := of_mem_of_isTag h hc
      exact toNat_lt_of_continuesTag hcontinues
  · obtain rfl := List.mem_singleton.1 hc
    decide

/-- The closing text is searched for from index to index. -/
theorem gives_indexBehind {closing : List Char} (hclosing : closing ≠ []) (front left : List Char) :
    Gives (indexBehind (front ++ left) closing front.length) fun
      | some stop => ∃ contents behind, left = contents ++ (closing ++ behind) ∧
          ClosesFirst closing contents ∧ stop = (front ++ (contents ++ closing)).length
      | none => ¬closing <:+: left := by
  -- The closing text begins nowhere before the index.
  refine (gives_loop (fun index => ∃ seen rest, left = seen ++ rest ∧
    index = (front ++ seen).length ∧ ∀ k < seen.length, ¬closing <+: left.drop k)
    (fun index hindex => ?_) ⟨[], left, rfl, by simp, by simp⟩).1
  obtain ⟨seen, rest, rfl, rfl, hearlier⟩ := hindex
  rw [closingTurn]
  by_cases hlong : closing.length ≤ rest.length
  · have hslice := slice_append (front ++ seen) (rest.take closing.length)
      (rest.drop closing.length)
    rw [List.take_append_drop, List.length_take_of_le hlong, List.append_assoc] at hslice
    rw [if_pos (by simp only [List.length_append]; omega), hslice]
    by_cases hfound : rest.take closing.length = closing
    · rw [ok_bind, if_pos (beq_iff_eq.2 hfound)]
      have hrest : rest = closing ++ rest.drop closing.length := by
        rw [← hfound, List.length_take_of_le hlong, List.take_append_drop]
      refine gives_ok ⟨seen, _, congrArg _ hrest, fun k hk hprefix => hearlier k hk ?_, ?_⟩
      · rw [hrest, ← List.append_assoc, List.drop_append_of_le_length]
        · exact hprefix.trans (List.prefix_append _ _)
        · rw [List.length_append]
          omega
      · simp [Nat.add_assoc]
    · rw [ok_bind, if_neg (by simpa using hfound)]
      cases rest with
      | nil => exact absurd (List.length_eq_zero_iff.1 (Nat.le_zero.1 hlong)) hclosing
      | cons c rest =>
          refine gives_ok ⟨⟨seen ++ [c], rest, by simp, by simp [Nat.add_assoc], ?_⟩,
            Nat.lt_succ_self _, by simp only [List.length_append, List.length_cons, id]; omega⟩
          intro k hk hprefix
          rcases Nat.lt_succ_iff_lt_or_eq.1 (by simpa using hk) with hlt | rfl
          · exact hearlier k hlt hprefix
          · rw [List.drop_left] at hprefix
            exact hfound (List.prefix_iff_eq_take.1 hprefix).symm
  · rw [if_neg (by simp only [List.length_append]; omega)]
    refine gives_ok fun hinfix => ?_
    obtain ⟨before, behind, hsplit⟩ := hinfix
    have hprefix : closing <+: (seen ++ rest).drop before.length := by
      rw [← hsplit, List.append_assoc, List.drop_left]
      exact List.prefix_append _ _
    have hlength := congrArg List.length hsplit
    simp only [List.length_append] at hlength
    exact hearlier before.length (by omega) hprefix

/-- A dollar quote that is closed nowhere stays open. -/
theorem readFrom_openDollarQuote {closing written : List Char} (seen rest : List Char)
    (h : ¬closing <:+: seen ++ rest) :
    readFrom ⟨.dollarQuoted closing seen.reverse, written⟩ rest
      = ⟨.dollarQuoted closing (seen ++ rest).reverse, written⟩ := by
  induction rest generalizing seen with
  | nil => rw [List.append_nil, readFrom_nil]
  | cons c rest ih =>
      have hmore : seen ++ c :: rest = (seen ++ [c]) ++ rest := by simp
      -- if what is seen ended in the closing tag, this would stand in the text
      have hopen : closing.reverse.isPrefixOf (c :: seen.reverse) = false := by
        rw [Bool.eq_false_iff, ne_eq, List.isPrefixOf_iff_prefix, ← List.reverse_concat,
          List.reverse_prefix]
        intro hsuffix
        exact h (hmore ▸ hsuffix.isInfix.trans (List.prefix_append _ rest).isInfix)
      have hstep : step ⟨.dollarQuoted closing seen.reverse, written⟩ c
          = ⟨.dollarQuoted closing (seen ++ [c]).reverse, written⟩ := by
        rw [List.reverse_concat]
        simp [step, hopen]
      rw [readFrom_cons, hstep, hmore, ih (seen ++ [c]) (hmore ▸ h)]

/-! ## Reading on -/

/-- Nothing waits for the character behind a text in this mode. -/
def IsSettled (passed : List Char) : Mode → Prop
  | .code preceding => preceding = precedingOf passed
  | .lineComment => True
  | .blockComment star => star = false
  | .literal _ => True
  | .quotedName => True
  | _ => False

/-- What is going to come out of a reading by indices: what the text behind the index leads to, or
behind the end what there is. -/
inductive Awaits (text : List Char) (cursor : Cursor) : List Char × Option OpenQuote → Prop where
  | within (passed rest : List Char) (htext : text = passed ++ rest)
      (hindex : cursor.index = passed.length) (hsettled : IsSettled passed cursor.reading.mode) :
      Awaits text cursor (readFrom cursor.reading rest).outcome
  | past (h : text.length ≤ cursor.index) : Awaits text cursor cursor.reading.outcome

/-- A cursor further on, from which the same comes out. -/
def LeadsOn (passed rest : List Char) (reading : Reading) (next : Cursor) : Prop :=
  Awaits (passed ++ rest) next (readFrom reading rest).outcome ∧
    passed.length < next.index ∧ next.index ≤ (passed ++ rest).length + 1

/-- Reading leads on over a piece if the text behind is read alike. -/
theorem leadsOn_over {passed rest : List Char} {reading next : Reading} (piece : List Char)
    (hpiece : piece ≠ []) (hsettled : IsSettled (passed ++ piece) next.mode)
    (hsame : (readFrom reading (piece ++ rest)).outcome = (readFrom next rest).outcome) :
    LeadsOn passed (piece ++ rest) reading ⟨(passed ++ piece).length, next⟩ := by
  have hlength := List.length_pos_iff.2 hpiece
  refine ⟨?_, by simp only [List.length_append]; omega, by simp only [List.length_append]; omega⟩
  rw [hsame]
  exact .within (passed ++ piece) rest (by simp) rfl hsettled

section Turns

variable {passed rest : List Char} {reading : Reading} {c : Char}

/-- A star that no slash follows is a character of the comment like any other. -/
theorem outcome_blockComment {written : List Char} (h : rest.head? ≠ some '/') :
    (readFrom ⟨.blockComment true, written⟩ rest).outcome
      = (readFrom ⟨.blockComment false, written⟩ rest).outcome := by
  cases rest with
  | nil => rfl
  | cons d rest =>
      have hd : d ≠ '/' := fun hd => h (congrArg some hd)
      simp [step, hd]

/-- A character of code is read by itself, if the next one completes nothing. -/
theorem resolved_stepCode {written : List Char}
    (hjoins : joins (.code (precedingOf passed)) c rest.head? = false)
    (hdollar : c = '$' → opensDollarQuote [] rest = false) :
    (readFrom ⟨.code (precedingOf passed), written⟩ (c :: rest)).outcome
        = (readFrom (resolved (stepCode (precedingOf passed) written c)) rest).outcome ∧
      IsSettled (passed ++ [c]) (resolved (stepCode (precedingOf passed) written c)).mode := by
  have hread : readFrom ⟨.code (precedingOf passed), written⟩ (c :: rest)
      = readFrom (stepCode (precedingOf passed) written c) rest := rfl
  rw [hread]
  -- the characters that may open something, and at last blanks and all others
  by_cases hdash : c = '-'
  · subst hdash
    exact ⟨outcome_dash (by simpa [joins] using hjoins), (precedingOf_edge _ (by decide)).symm⟩
  by_cases hslash : c = '/'
  · subst hslash
    exact ⟨outcome_slash (by simpa [joins] using hjoins), (precedingOf_edge _ (by decide)).symm⟩
  by_cases hquote : c = '\''
  · subst hquote
    exact ⟨rfl, trivial⟩
  by_cases hname : c = '"'
  · subst hname
    exact ⟨rfl, trivial⟩
  by_cases hc : c = '$'
  · subst hc
    exact ⟨outcome_dollar (hdollar rfl), (precedingOf_concat passed '$').symm⟩
  rw [stepCode, if_neg (by simpa using hdash), if_neg (by simpa using hslash),
    if_neg (by simpa using hquote), if_neg (by simpa using hname), if_neg (by simpa using hc)]
  by_cases hblank : isBlank c = true
  · rw [if_pos hblank]
    exact ⟨rfl, (precedingOf_edge _ (isWordPart_of_isBlank hblank)).symm⟩
  · rw [if_neg hblank]
    exact ⟨rfl, (precedingOf_concat passed c).symm⟩

/-- A character is read by itself, if the next one completes nothing. -/
theorem resolved_step (hsettled : IsSettled passed reading.mode)
    (hjoins : joins reading.mode c rest.head? = false)
    (hdollar : inCode reading.mode = true → c = '$' → opensDollarQuote [] rest = false) :
    (readFrom reading (c :: rest)).outcome = (readFrom (resolved (step reading c)) rest).outcome ∧
      IsSettled (passed ++ [c]) (resolved (step reading c)).mode := by
  obtain ⟨mode, written⟩ := reading
  cases mode with
  | code preceding =>
      -- in code the reader remembers only what the text passed tells as well
      obtain rfl : preceding = precedingOf passed := hsettled
      exact resolved_stepCode hjoins (hdollar rfl)
  | lineComment =>
      by_cases hc : c = '\n'
      · subst hc
        exact ⟨rfl, (precedingOf_edge _ (by decide)).symm⟩
      · have hstep : step ⟨.lineComment, written⟩ c = ⟨.lineComment, written⟩ := by simp [step, hc]
        rw [readFrom_cons, hstep]
        exact ⟨rfl, trivial⟩
  | blockComment star =>
      obtain rfl : star = false := hsettled
      have hstep : step ⟨.blockComment false, written⟩ c = ⟨.blockComment (c == '*'), written⟩ := rfl
      rw [readFrom_cons, hstep]
      refine ⟨?_, rfl⟩
      cases hc : c == '*' with
      | true =>
          rw [joins, hc, Bool.true_and] at hjoins
          exact outcome_blockComment (by simpa using hjoins)
      | false => rfl
  | literal escapes =>
      rw [joins, Bool.or_eq_false_iff] at hjoins
      by_cases hc : c = '\''
      · subst hc
        have hstep : step ⟨.literal escapes, written⟩ '\'' = ⟨.literalQuote escapes, written⟩ := by
          simp [step]
        rw [readFrom_cons, hstep]
        exact ⟨outcome_literalQuote (by simpa using hjoins.2), (precedingOf_edge _ (by decide)).symm⟩
      · have hstep : step ⟨.literal escapes, written⟩ c = ⟨.literal escapes, written⟩ := by
          simp [step, hjoins.1, hc]
        rw [readFrom_cons, hstep]
        exact ⟨rfl, trivial⟩
  | quotedName =>
      refine ⟨by rw [readFrom_cons]; cases hc : c == '"' <;> simp [step, resolved, hc], ?_⟩
      by_cases hc : c = '"'
      · subst hc
        exact (precedingOf_edge _ (by decide)).symm
      · simp [step, resolved, hc, IsSettled]
  | _ => exact hsettled.elim

/-- Nothing waits behind two characters that are read together. -/
theorem isSettled_pair {d : Char} (hsettled : IsSettled passed reading.mode)
    (h : joins reading.mode c (some d) = true) :
    IsSettled (passed ++ [c, d]) (readFrom reading [c, d]).mode := by
  obtain ⟨mode, written⟩ := reading
  cases mode with
  | code preceding =>
      simp only [joins, Bool.or_eq_true, Bool.and_eq_true, beq_iff_eq, Option.some.injEq] at h
      rcases h with ⟨rfl, rfl⟩ | ⟨rfl, rfl⟩
      · trivial
      · exact rfl
  | blockComment star =>
      simp only [joins, Bool.and_eq_true, beq_iff_eq, Option.some.injEq] at h
      obtain ⟨rfl, rfl⟩ := h
      obtain rfl : star = false := hsettled
      rw [List.append_cons]
      exact (precedingOf_edge _ (by decide)).symm
  | literal escapes =>
      simp only [joins, Bool.or_eq_true, Bool.and_eq_true, beq_iff_eq, Option.some.injEq] at h
      rcases h with ⟨rfl, rfl⟩ | ⟨rfl, rfl⟩
      · trivial
      · cases escapes <;> trivial
  | _ => cases h

theorem leadsOn_joined (hsettled : IsSettled passed reading.mode)
    (h : joins reading.mode c rest.head? = true) :
    LeadsOn passed (c :: rest) reading
      ⟨passed.length + 2, readFrom reading (c :: rest.head?.toList)⟩ := by
  cases rest with
  | nil => exact ⟨.past (by simp), by simp, by simp⟩
  | cons d rest =>
      have hover : LeadsOn passed ([c, d] ++ rest) reading _ :=
        leadsOn_over [c, d] (List.cons_ne_nil _ _) (isSettled_pair hsettled h) rfl
      rwa [List.length_append] at hover

/-- A dollar quote is passed over, or the text ends in it. -/
theorem gives_skipDollarQuote {tag written : List Char} {preceding : Preceding}
    (htag : readTag [] rest = some tag) :
    Gives (skipDollarQuote (passed ++ '$' :: rest) (dollarTag tag) passed.length written)
      (LeadsOn passed ('$' :: rest) ⟨.code preceding, written⟩) := by
  obtain ⟨_, behind, rfl, rfl, hword⟩ := exists_of_readTag htag rfl
  have hclosing : dollarTag tag ≠ [] := List.cons_ne_nil _ _
  have htext : '$' :: (tag ++ '$' :: behind) = dollarTag tag ++ behind := by simp [dollarTag]
  have hread : readFrom ⟨.code preceding, written⟩ (dollarTag tag ++ behind)
      = readFrom ⟨.dollarQuoted (dollarTag tag) [], '\'' :: '\'' :: written⟩ behind := by
    rw [readFrom_append, ← readFrom_dollarTag hword]
    rfl
  -- the closing tag is searched behind the opening one
  have hsearch := gives_indexBehind hclosing (passed ++ dollarTag tag) behind
  rw [List.append_assoc, List.length_append, ← width_dollarTag hword] at hsearch
  rw [htext]
  refine hsearch.bind fun found hfound => ?_
  cases found with
  | none =>
      refine gives_ok ⟨?_, by simp [dollarTag], Nat.le_succ _⟩
      rw [hread, ← List.reverse_nil, readFrom_openDollarQuote [] behind hfound]
      exact .past (Nat.le_refl _)
  | some stop =>
      obtain ⟨contents, last, rfl, hfirst, rfl⟩ := hfound
      have hpiece : dollarTag tag ++ (contents ++ (dollarTag tag ++ last))
          = (dollarTag tag ++ (contents ++ dollarTag tag)) ++ last := by simp
      -- it is the first one, so the reader leaves the quote there and not before
      have hclosed : readFrom ⟨.dollarQuoted (dollarTag tag) [].reverse, '\'' :: '\'' :: written⟩
          (contents ++ dollarTag tag) = ⟨.code .word, '\'' :: '\'' :: written⟩ :=
        readFrom_dollarQuoted (List.suffix_append contents _)
          (fun front hfront hends => hfirst.eq_of_suffix hfront hends) [] _ rfl
          (List.append_ne_nil_of_right_ne_nil contents hclosing)
      have hends : precedingOf (passed ++ (dollarTag tag ++ (contents ++ dollarTag tag))) = .word := by
        rw [dollarTag, ← List.append_assoc, ← List.append_assoc, ← List.append_assoc,
          precedingOf_concat]
        rfl
      rw [hpiece, List.append_assoc passed]
      refine gives_ok (leadsOn_over _ (by simp [hclosing]) hends.symm ?_)
      rw [← hpiece, hread, ← List.append_assoc, readFrom_append, ← List.reverse_nil, hclosed]

theorem gives_advance (hsettled : IsSettled passed reading.mode) :
    Gives (advance (passed ++ c :: rest) ⟨passed.length, reading⟩ c rest.head?)
      (LeadsOn passed (c :: rest) reading) := by
  rw [advance]
  dsimp only
  by_cases hjoins : joins reading.mode c rest.head? = true
  · rw [if_pos hjoins]
    exact gives_ok (leadsOn_joined hsettled hjoins)
  rw [if_neg hjoins]
  -- in all but one of the cases the character is read by itself
  have hsingle (hdollar : inCode reading.mode = true → c = '$' → opensDollarQuote [] rest = false) :
      LeadsOn passed (c :: rest) reading ⟨passed.length + 1, resolved (step reading c)⟩ := by
    obtain ⟨hsame, hnext⟩ := resolved_step hsettled (Bool.eq_false_iff.2 hjoins) hdollar
    have hover := leadsOn_over [c] (List.cons_ne_nil _ _) hnext hsame
    rwa [List.length_append] at hover
  obtain ⟨mode, written⟩ := reading
  cases hcode : inCode mode with
  | false => exact gives_ok (hsingle fun h => absurd (hcode.symm.trans h) Bool.false_ne_true)
  | true =>
      cases mode with
      | code preceding =>
          obtain rfl : preceding = precedingOf passed := hsettled
          rw [Bool.true_and, Bool.true_and]
          by_cases hquote : c = '\''
          · subst hquote
            rw [if_pos (beq_self_eq_true _), followsEscapeLetter_eq_ok]
            exact gives_ok (hsingle fun _ h => absurd h (by decide))
          rw [if_neg (by simpa using hquote)]
          by_cases hdollar : c = '$'
          · subst hdollar
            have hdrop : (passed ++ '$' :: rest).drop (passed.length + 1) = rest := by simp
            rw [if_pos (beq_self_eq_true _), hdrop]
            cases htag : readTag [] rest with
            | some tag => exact gives_skipDollarQuote htag
            | none =>
                exact gives_ok (hsingle fun _ _ => opensDollarQuote_of_readTag_eq_none htag)
          · rw [if_neg (by simpa using hdollar)]
            exact gives_ok (hsingle fun _ h => absurd h hdollar)
      | _ => cases hcode

end Turns

/-- A turn ends the reading with what was awaited, or it leads further on to where that is still
awaited. -/
theorem Awaits.gives_turn {text : List Char} {cursor : Cursor} {result : List Char × Option OpenQuote}
    (h : Awaits text cursor result) :
    Gives (turn text cursor)
      (Turn.Keeps (text.length + 1) Cursor.index (Awaits text · result) (· = result) cursor) := by
  have hend (h : text.length ≤ cursor.index) :
      turn text cursor = .ok (.stop cursor.reading.outcome) := by
    rw [turn, if_neg (Nat.not_lt.2 h)]
    rfl
  cases h with
  | past h => exact ⟨_, hend h, rfl⟩
  | within passed rest htext hindex hsettled =>
      subst htext
      cases rest with
      | nil => exact ⟨_, hend (by simp [hindex]), rfl⟩
      | cons c rest =>
          obtain ⟨index, reading⟩ := cursor
          obtain rfl : index = passed.length := hindex
          -- the character looked at ahead is the first one of the rest
          have hlooked : (passed ++ c :: rest)[passed.length + 1]? = rest.head? := by
            rw [List.getElem?_append_right (Nat.le_add_right _ 1), Nat.add_sub_cancel_left,
              List.getElem?_cons_succ, List.head?_eq_getElem?]
          rw [turn, if_pos (by simp), nth_append, ok_bind, hlooked]
          exact (gives_advance hsettled).bind fun next hnext => gives_ok hnext

theorem gives_loop_turn (text : List Char) :
    Gives (loop (text.length + 1) Cursor.index (turn text) .start) (· = (scan text).outcome) ∧
      MovesForward (text.length + 1) Cursor.index (turn text) .start :=
  gives_loop (Awaits text · (scan text).outcome) (fun _ h => h.gives_turn)
    (.within [] text rfl rfl rfl)

/-- Reading by indices never goes wrong, and what comes out is what comes out character by
character. -/
theorem normalForm_eq_ok (text : List Char) :
    normalForm text = .ok (Sql.normalForm text, (scan text).mode.openQuote) := by
  rw [normalForm, (gives_loop_turn text).1.eq_ok]
  rfl

end RepoPolicy.Sql.ByOffset
