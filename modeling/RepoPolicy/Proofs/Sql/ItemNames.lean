import RepoPolicy.Proofs.Sql.Marks
import RepoPolicy.Proofs.Text.Occurrences
import RepoPolicy.Sql.Projection

set_option autoImplicit false

/-! # Names of items and their marks

The name of an item of a select list is looked for in its text: the last part of a reference to a
column, what stands behind the last `AS`, or a name at the end. Where a name is found, it is the last
mark of the item, and that mark is a word with this value (`exists_last_of_classifyItem`). -/

namespace RepoPolicy.Sql

open RepoPolicy.Text RepoPolicy.Text.Scanner

/-! ## Names -/

/-- The text of a name: something in double quotes, or an unquoted word. -/
inductive NameText : List Char → Prop where
  | quoted {body : List Char} (hne : body ≠ []) (hbody : '"' ∉ body) :
      NameText ('"' :: (body ++ ['"']))
  | plain {c : Char} {rest : List Char} (hc : startsWord c = true)
      (hrest : ∀ d ∈ rest, continuesWord d = true) : NameText (c :: rest)

theorem of_startsWord {c : Char} (h : startsWord c = true) :
    isBlank c = false ∧ c ∉ ['-', '/', '\'', '$', '?', '"', '@', '#'] ∧
      (c == '"' || c.toNat == 96) = false ∧ startsIdentifier c = true ∧ c.isDigit = false := by
  have hbasic : c.toNat < 128 := by
    simp only [startsWord, Bool.or_eq_true, beq_iff_eq] at h
    rcases h with h | rfl
    · exact toNat_lt_of_isAlphanum (by rw [Char.isAlphanum, h]; rfl)
    · decide
  have hall := of_basic (fun c => !isBlank c &&
    !(['-', '/', '\'', '$', '?', '"', '@', '#'].contains c) && !(c == '"' || c.toNat == 96) &&
    startsIdentifier c && !c.isDigit) hbasic h (by decide)
  simp only [Bool.and_eq_true, Bool.not_eq_true', List.contains_eq_mem, decide_eq_false_iff_not] at hall
  exact ⟨hall.1.1.1.1, hall.1.1.1.2, hall.1.1.2, hall.1.2, hall.2⟩

theorem of_continuesWord {c : Char} (h : continuesWord c = true) :
    continuesIdentifier c = true ∧ c ∉ ['\'', '"', '&', '.'] := by
  have hbasic : c.toNat < 128 := by
    simp only [continuesWord, Bool.or_eq_true, beq_iff_eq] at h
    rcases h with (h | rfl) | rfl
    · exact toNat_lt_of_isAlphanum h
    · decide
    · decide
  have hall := of_basic (fun c => continuesIdentifier c &&
    !(['\'', '"', '&', '.'].contains c)) hbasic h (by decide)
  simpa using hall

/-- What may stand behind a name: nothing, or the point before the next part. -/
def EndsName (left : List Char) : Prop := left = [] ∨ left.head? = some '.'

theorem exists_name_of_mem {place stop : Place} (h : stop ∈ namePart place) :
    ∃ name, NameText name ∧ place.after = name ++ stop.after := by
  rcases List.mem_append.1 h with hquoted | hplain
  -- in quotes: the opening one, what is inside, and the closing one
  · obtain ⟨opened, hopened, hrest⟩ := mem_sequence_cons.1 hquoted
    obtain ⟨more, hmore, rfl⟩ := mem_exactly.1 hopened
    obtain ⟨inside, hinside, hend⟩ := mem_sequence_cons.1 hrest
    obtain ⟨first, hfirst, hrun⟩ := mem_andThen.1 hinside
    obtain ⟨c, behind, rfl, hc, rfl⟩ := mem_char.1 hfirst
    obtain ⟨run, left, rfl, hall, rfl⟩ := mem_many.1 hrun
    obtain ⟨closed, hclosed, hstop⟩ := mem_sequence_cons.1 hend
    obtain ⟨last, rfl, rfl⟩ := mem_exactly.1 hclosed
    obtain rfl := mem_sequence_nil.1 hstop
    refine ⟨'"' :: ((c :: run) ++ ['"']), .quoted (by simp) ?_, by simp [hmore]⟩
    intro hmem
    rcases List.mem_cons.1 hmem with heq | hmem
    · rw [← heq] at hc
      exact absurd hc (by decide)
    · exact absurd (hall _ hmem) (by decide)
  · obtain ⟨first, hfirst, hrun⟩ := mem_andThen.1 hplain
    obtain ⟨c, behind, hbehind, hc, rfl⟩ := mem_char.1 hfirst
    obtain ⟨run, left, rfl, hall, rfl⟩ := mem_many.1 hrun
    exact ⟨c :: run, .plain hc hall, hbehind⟩

/-! ## Reading a name -/

theorem dropWhile_quote {text : List Char} (h : '"' ∉ text) :
    text.dropWhile (· == '"') = text := by
  cases text with
  | nil => rfl
  | cons c rest =>
      rw [List.mem_cons, not_or] at h
      exact List.dropWhile_cons_of_neg (by simpa using Ne.symm h.1)

theorem strip_of_not_mem {text : List Char} (h : '"' ∉ text) : strip (· == '"') text = text := by
  rw [strip, dropWhile_quote h, dropWhile_quote (by simpa using h), List.reverse_reverse]

theorem strip_quoted {body : List Char} (hne : body ≠ []) (h : '"' ∉ body) :
    strip (· == '"') ('"' :: (body ++ ['"'])) = body := by
  have hfront : ('"' :: (body ++ ['"'])).dropWhile (· == '"') = body ++ ['"'] := by
    obtain ⟨c, rest, rfl⟩ := List.exists_cons_of_ne_nil hne
    rw [List.mem_cons, not_or] at h
    rw [List.dropWhile_cons_of_pos (by decide)]
    exact List.dropWhile_cons_of_neg (by simpa using Ne.symm h.1)
  rw [strip, hfront, List.reverse_append, List.reverse_singleton, List.singleton_append,
    List.dropWhile_cons_of_pos (by decide), dropWhile_quote (by simpa using h), List.reverse_reverse]

theorem readQuoted_of_not_mem {body left : List Char} (h : '"' ∉ body)
    (hleft : left.head? ≠ some '"') : readQuoted '"' (body ++ '"' :: left) = .ok (body, left) := by
  induction body with
  | nil => exact readQuoted_emptied hleft
  | cons c rest ih =>
      rw [List.mem_cons, not_or] at h
      rw [List.cons_append, readQuoted.eq_def]
      simp [Ne.symm h.1, ih h.2, Except.map]

theorem opensLiteral_of_head? {c : Char} {text : List Char}
    (h : ∀ d, text.head? = some d → d ∉ ['\'', '"', '&']) : opensLiteral c text = false := by
  unfold opensLiteral
  split
  · exact absurd (by simp) (h '\'' rfl)
  · exact absurd (by simp) (h '"' rfl)
  · exact absurd (by simp) (h '&' rfl)
  · rfl

/-- An unquoted word is read as a whole, whether it stands alone or before a point. -/
theorem readToken_plain {c : Char} {rest left : List Char} (hc : startsWord c = true)
    (hrest : ∀ d ∈ rest, continuesWord d = true) (hleft : EndsName left) :
    readToken c (rest ++ left) = .ok (some (.ofWord (c :: rest)), left) := by
  obtain ⟨hblank, hspecial, hmark, hstarts, -⟩ := of_startsWord hc
  simp only [List.mem_cons, List.not_mem_nil, or_false, not_or] at hspecial
  have hoperator : startsOperator c (rest ++ left) = false := by
    unfold startsOperator
    split
    · exact absurd rfl hspecial.2.2.2.2.2.2.1
    · exact absurd rfl hspecial.2.2.2.2.2.2.2
    · rfl
  have hend : ∀ d, left.head? = some d → d = '.' := by
    rintro d hd
    rcases hleft with rfl | hpoint
    · cases hd
    · exact (Option.some.inj (hpoint.symm.trans hd)).symm
  -- a letter opens a literal only before a quote, which continues no word
  have hliteral : opensLiteral c (rest ++ left) = false := by
    refine opensLiteral_of_head? fun d hd => ?_
    cases rest with
    | nil =>
        rw [hend d hd]
        decide
    | cons e rest =>
        obtain rfl := Option.some.inj hd
        have he := (of_continuesWord (hrest e List.mem_cons_self)).2
        simp only [List.mem_cons, List.not_mem_nil, or_false, not_or] at he ⊢
        exact ⟨he.1, he.2.1, he.2.2.1⟩
  have hrun : ∀ d ∈ rest, continuesIdentifier d = true :=
    fun d hd => (of_continuesWord (hrest d hd)).1
  have hstop : left.takeWhile continuesIdentifier = [] ∧ left.dropWhile continuesIdentifier = left := by
    cases left with
    | nil => exact ⟨rfl, rfl⟩
    | cons d more =>
        obtain rfl := hend d rfl
        exact ⟨rfl, rfl⟩
  rw [readToken_of_plain hblank (fun hfront => hspecial.1 (List.cons_prefix_cons.1 hfront).1.symm)
      (fun hfront => hspecial.2.1 (List.cons_prefix_cons.1 hfront).1.symm) (by simp [hspecial]),
    hmark, hstarts, hoperator, if_neg Bool.false_ne_true, if_pos (by decide),
    readWordOrLiteral_of_opensLiteral_eq_false hliteral, List.takeWhile_append_of_pos hrun,
    List.dropWhile_append_of_pos hrun, hstop.1, hstop.2, List.append_nil]
  rfl

/-- **A name is read as one word with its value**, whether it stands alone or before a point. -/
theorem NameText.readToken {name : List Char} (h : NameText name) :
    ∃ c rest value spelling, name = c :: rest ∧ columnName name = lowercase value ∧
      ∀ left, EndsName left →
        readToken c (rest ++ left) = .ok (some (.word value spelling), left) := by
  cases h with
  | @quoted body hne hbody =>
      refine ⟨'"', body ++ ['"'], String.ofList body, "", rfl, ?_, fun left hleft => ?_⟩
      · rw [columnName, strip_quoted hne hbody]
      -- the quote that closes the name is not doubled
      · have hquote : left.head? ≠ some '"' := by
          rcases hleft with rfl | hpoint
          · simp
          · simp [hpoint]
        rw [readToken_doubleQuote, List.append_assoc, List.singleton_append,
          readQuoted_of_not_mem hbody hquote]
        rfl
  | @plain c rest hc hrest =>
      have hquote : '"' ∉ c :: rest := by
        rw [List.mem_cons, not_or]
        refine ⟨?_, fun hmem => (of_continuesWord (hrest _ hmem)).2 (by simp)⟩
        rintro rfl
        exact absurd hc (by decide)
      refine ⟨c, rest, String.ofList (c :: rest), String.ofList ((c :: rest).flatMap keywordLetters),
        rfl, ?_, fun left hleft => readToken_plain hc hrest hleft⟩
      rw [columnName, strip_of_not_mem hquote]

/-! ## References to columns -/

theorem upTo_append (text left : List Char) (before : List Char) :
    (Place.start (text ++ left)).upTo ⟨before, left⟩ = text := by
  simp [Place.start, Place.upTo]

/-- A reference to a column begins with a name, which is its last part unless a point follows. -/
theorem columnReference_cases {fuel : Nat} {text last : List Char}
    (h : columnReference fuel text = some last) :
    ∃ name, NameText name ∧ ((text = name ∧ last = name) ∨
      ∃ fuel' rest, fuel = fuel' + 1 ∧ text = name ++ '.' :: rest ∧
        columnReference fuel' rest = some last) := by
  cases fuel with
  | zero => cases h
  | succ fuel =>
      rw [columnReference] at h
      obtain ⟨stop, hstop, hlast⟩ := Option.bind_eq_some_iff.1 h
      obtain ⟨name, hname, htext⟩ := exists_name_of_mem (List.mem_of_mem_head? hstop)
      obtain ⟨before, left⟩ := stop
      obtain rfl : text = name ++ left := htext
      refine ⟨name, hname, ?_⟩
      dsimp only at hlast
      -- the name is the last part, or a point follows, or something that may not stand there
      split at hlast
      · rw [upTo_append] at hlast
        exact .inl ⟨List.append_nil name, (Option.some.inj hlast).symm⟩
      · exact .inr ⟨fuel, _, rfl, rfl, hlast⟩
      · cases hlast

theorem readToken_point {c : Char} {rest : List Char} (hc : c.isDigit = false) :
    readToken '.' (c :: rest) = .ok (some (.symbol "."), c :: rest) := by
  have hnumber : readNumber ('.' :: c :: rest) = (.symbol ".", c :: rest) := by
    rw [readNumber]
    simp [hc]
  rw [readToken_of_plain (by decide) (by simp) (by simp) (by decide), if_neg (by decide),
    if_neg (by simp [startsIdentifier, isAlphabetic]), if_pos (by decide), hnumber]

theorem NameText.not_isDigit {name left : List Char} (h : NameText name) :
    ∃ c rest, name ++ left = c :: rest ∧ c.isDigit = false := by
  cases h with
  | quoted hne hbody => exact ⟨_, _, rfl, by decide⟩
  | plain hc hrest => exact ⟨_, _, rfl, (of_startsWord hc).2.2.2.2⟩

/-- **The last token of a reference to a column is a word with the name of the column.** -/
theorem tokens_of_columnReference {fuel : Nat} {text last : List Char}
    (h : columnReference fuel text = some last) {n : Nat} (hn : text.length ≤ n) :
    ∃ front value spelling, tokens n text = .ok (front ++ [.word value spelling]) ∧
      columnName last = lowercase value := by
  induction fuel generalizing text n with
  | zero => cases h
  | succ fuel ih =>
      obtain ⟨name, hname, ⟨rfl, rfl⟩ | ⟨fuel', rest, heq, rfl, hrest⟩⟩ := columnReference_cases h
      · obtain ⟨c, more, value, spelling, rfl, hcolumn, hread⟩ := hname.readToken
        obtain ⟨n, rfl⟩ : ∃ m, n = m + 1 := ⟨n - 1, by simp at hn; omega⟩
        have hone := hread [] (.inl rfl)
        rw [List.append_nil] at hone
        have hnil : tokens n [] = .ok [] := by rw [tokens]
        exact ⟨[], value, spelling, tokens_cons hone hnil, hcolumn⟩
      · obtain rfl := Nat.succ.inj heq
        obtain ⟨c, more, first, spelled, rfl, -, hread⟩ := hname.readToken
        -- behind the point a name begins, so the point is not the start of a number
        obtain ⟨d, others, rfl, hdigit⟩ : ∃ d others, rest = d :: others ∧ d.isDigit = false := by
          obtain ⟨next, hnext, ⟨rfl, -⟩ | ⟨-, behind, -, rfl, -⟩⟩ := columnReference_cases hrest
          · rw [← List.append_nil rest]
            exact hnext.not_isDigit
          · exact hnext.not_isDigit
        rw [List.cons_append, List.length_cons, List.length_append, List.length_cons] at hn
        obtain ⟨m, rfl⟩ : ∃ m, n = m + 2 := ⟨n - 2, by omega⟩
        obtain ⟨front, value, spelling, htokens, hcolumn⟩ := ih hrest (n := m) (by omega)
        refine ⟨.word first spelled :: .symbol "." :: front, value, spelling, ?_, hcolumn⟩
        exact tokens_cons (hread _ (.inr rfl)) (tokens_cons (readToken_point hdigit) htokens)

/-! ## Aliases -/

theorem NameText.quoted_foldl {name : List Char} (h : NameText name) (nesting : Nesting) :
    (name.foldl Nesting.read nesting).quoted = nesting.quoted := by
  cases h with
  | quoted _ hbody =>
      rw [List.foldl_cons, List.foldl_append, List.foldl_cons, List.foldl_nil, quoted_read,
        quoted_foldl_of_not_mem hbody, quoted_read]
      simp
  | @plain c rest hc hrest =>
      refine quoted_foldl_of_not_mem ?_ nesting
      rw [List.mem_cons, not_or]
      refine ⟨?_, fun hmem => (of_continuesWord (hrest _ hmem)).2 (by simp)⟩
      rintro rfl
      exact absurd hc (by decide)

theorem eq_word_of_emptied {token : Token} {value spelling : String}
    (h : token.emptied = .word value spelling) : token = .word value spelling := by
  cases token with
  | string text => cases h
  | _ => exact h

theorem Legible.exists_last_of_tokens {list : List Mark} (h : Legible list) {front : List Token}
    {value spelling : String}
    (htokens : tokens (written list).length (written list) = .ok (front ++ [.word value spelling])) :
    ∃ others last, list = others ++ [last] ∧ last.token = .word value spelling ∧
      others.length = front.length := by
  rw [h.tokens_written (Nat.le_refl _)] at htokens
  obtain ⟨others, lasts, rfl, hothers, hlasts⟩ := List.map_eq_append_iff.1 (Except.ok.inj htokens)
  obtain ⟨last, more, rfl, hlast, hmore⟩ := List.map_eq_cons_iff.1 hlasts
  obtain rfl := List.map_eq_nil_iff.1 hmore
  exact ⟨others, last, rfl, eq_word_of_emptied hlast, by rw [← hothers, List.length_map]⟩

/-- **A name behind a blank at the end of an item is its last mark.** -/
theorem exists_last_of_name {piece : List Mark} (h : Legible piece) {before name : List Char}
    {c : Char} (hc : isBlank c = true) (htext : written piece = before ++ c :: name)
    (hname : NameText name) :
    ∃ front last value spelling, piece = front ++ [last] ∧ last.token = .word value spelling ∧
      columnName name = lowercase value := by
  have hquote : c ≠ '"' := by
    rintro rfl
    exact absurd hc (by decide)
  -- quotes are closed at the end of the item, hence before the name
  have hquoted : (before.foldl Nesting.read .outermost).quoted = false := by
    have hend := quoted_written h.markText (show Nesting.outermost.quoted = false from rfl)
    rwa [htext, List.foldl_append, List.foldl_cons, hname.quoted_foldl, quoted_read,
      if_neg hquote] at hend
  obtain ⟨front, rest, rfl, rfl⟩ := exists_mark_of_blank h.markText hc htext hquoted
  obtain ⟨d, more, value, spelling, hd, hcolumn, hread⟩ := hname.readToken
  have hone := hread [] (.inl rfl)
  rw [List.append_nil] at hone
  have htokens : tokens (written rest).length (written rest) = .ok ([] ++ [.word value spelling]) := by
    have hnil : tokens more.length [] = .ok [] := by rw [tokens]
    rw [hd]
    exact tokens_cons hone hnil
  obtain ⟨others, last, rfl, hlast, hothers⟩ := h.of_append_right.exists_last_of_tokens htokens
  obtain rfl := List.length_eq_zero_iff.1 hothers
  exact ⟨front, last, value, spelling, rfl, hlast, hcolumn⟩

theorem nameText_of_columnReference {text last : List Char} (h : columnReference? text = some last)
    (hpoint : '.' ∉ text) : NameText text := by
  obtain ⟨name, hname, ⟨rfl, -⟩ | ⟨-, rest, -, rfl, -⟩⟩ := columnReference_cases h
  · exact hname
  · exact absurd (by simp) hpoint

/-- What is left of the end of a text that ends with no blank stands behind the same blanks. -/
theorem exists_blank_of_trim {text front run left : List Char} (hsolid : Solid text)
    (htext : text = front ++ (run ++ left)) (hne : run ≠ []) (hrun : ∀ c ∈ run, isBlank c = true)
    (hleft : trim left ≠ []) :
    ∃ before c, text = before ++ c :: trim left ∧ isBlank c = true := by
  obtain ⟨-, init, last, hlast, hblank⟩ := hsolid
  -- the text ends with no blank, so nothing is cut off at its end
  have hcut : trim left = left.dropWhile isBlank := by
    have hstart : left.dropWhile isBlank ≠ [] := by
      intro hnil
      exact hleft (by rw [trim, trimStart, hnil]; rfl)
    obtain ⟨others, final, hfinal⟩ : ∃ others final, left.dropWhile isBlank = others ++ [final] :=
      ⟨_, _, (List.dropLast_concat_getLast hstart).symm⟩
    have hsame : final = last := by
      have hsplit : left = left.takeWhile isBlank ++ left.dropWhile isBlank :=
        List.takeWhile_append_dropWhile.symm
      rw [hlast, hsplit, hfinal, ← List.append_assoc, ← List.append_assoc, ← List.append_assoc] at htext
      exact (List.append_inj' htext rfl).2 |> List.cons.inj |>.1 |>.symm
    rw [trim, trimStart, trimEnd, hfinal, List.reverse_append, List.reverse_singleton,
      List.singleton_append, List.dropWhile_cons_of_neg (by rw [hsame, hblank]; decide)]
    simp
  -- the blanks that were found and those that follow them are one run
  have hblanks : ∀ c ∈ run ++ left.takeWhile isBlank, isBlank c = true := by
    intro c hmem
    rcases List.mem_append.1 hmem with hmem | hmem
    · exact hrun c hmem
    · exact List.all_eq_true.1 List.all_takeWhile c hmem
  obtain ⟨others, final, hfinal⟩ : ∃ others final, run ++ left.takeWhile isBlank = others ++ [final] :=
    ⟨_, _, (List.dropLast_concat_getLast (by simp [hne])).symm⟩
  refine ⟨front ++ others, final, ?_, hblanks final (by simp [hfinal])⟩
  calc text = front ++ ((run ++ left.takeWhile isBlank) ++ left.dropWhile isBlank) := by
        rw [htext, List.append_assoc, List.takeWhile_append_dropWhile]
    _ = _ := by rw [hfinal, hcut]; simp

theorem exists_blank_of_explicitAlias {text given : List Char} (hsolid : Solid text)
    (h : explicitAlias? text = some given) :
    NameText given ∧ ∃ before c, text = before ++ c :: given ∧ isBlank c = true := by
  rw [explicitAlias?] at h
  obtain ⟨found, hfound, hgiven⟩ := Option.bind_eq_some_iff.1 h
  dsimp only at hgiven
  split at hgiven
  · rename_i hname
    obtain rfl := Option.some.inj hgiven
    rw [Bool.and_eq_true, Option.isSome_iff_exists] at hname
    obtain ⟨⟨last, hlast⟩, hpoint⟩ := hname
    have hgiven : NameText (trim found.stop.after) :=
      nameText_of_columnReference hlast (by simpa using hpoint)
    refine ⟨hgiven, ?_⟩
    obtain ⟨passed, rest, rfl, hstart, hstop⟩ :=
      exists_of_mem_occurrences (List.mem_filter.1 (List.mem_of_getLast? hfound)).1
    -- what was found: a blank, the word, and the blanks before the alias
    obtain ⟨spaced, hspaced, hword⟩ := mem_sequence_cons.1 hstop
    obtain ⟨worded, hworded, hblanks⟩ := mem_sequence_cons.1 hword
    obtain ⟨ended, hended, hend⟩ := mem_sequence_cons.1 hblanks
    obtain rfl := mem_sequence_nil.1 hend
    obtain ⟨c, gap, -, -, hgap⟩ := exists_of_mem_blanks1 hspaced
    obtain ⟨word, -, hletters, -⟩ := exists_of_mem_letters hworded
    obtain ⟨d, gap', hd, hall, hgap'⟩ := exists_of_mem_blanks1 hended
    have htext : passed ++ rest = (passed ++ (c :: gap ++ word)) ++ (d :: gap' ++ found.stop.after) := by
      rw [hstart] at hgap
      obtain rfl : rest = c :: (gap ++ spaced.after) := hgap
      rw [hletters, hgap']
      simp
    have hleft : trim found.stop.after ≠ [] := by
      intro hnil
      rw [hnil] at hgiven
      cases hgiven
    refine exists_blank_of_trim hsolid htext (List.cons_ne_nil d gap') ?_ hleft
    rintro e (_ | ⟨_, he⟩)
    · exact hd
    · exact hall e he
  · cases hgiven

/-- An alias without `AS` is a name behind a blank. -/
theorem exists_blank_of_implicitAlias {text given : List Char} (h : implicitAlias? text = some given) :
    NameText given ∧ ∃ before c, text = before ++ c :: given ∧ isBlank c = true := by
  rw [implicitAlias?] at h
  obtain ⟨found, hfound, hrest⟩ := Option.bind_eq_some_iff.1 h
  obtain ⟨last, -, hgiven⟩ := Option.bind_eq_some_iff.1 hrest
  split at hgiven
  · obtain rfl := Option.some.inj hgiven
    obtain ⟨passed, rest, rfl, hstart, hstop⟩ :=
      exists_of_mem_occurrences (List.mem_of_mem_head? hfound)
    -- what was found: a blank, the name, and the end of the text
    obtain ⟨spaced, hspaced, hnamed⟩ := mem_sequence_cons.1 hstop
    obtain ⟨c, behind, hbehind, hc, rfl⟩ := mem_char.1 hspaced
    obtain ⟨named, hname, hend⟩ := mem_sequence_cons.1 hnamed
    obtain ⟨ended, hended, -⟩ := mem_sequence_cons.1 hend
    obtain ⟨name, hnameText, hafter⟩ := exists_name_of_mem hname
    have hnil : named.after = [] := by
      rw [endOfText] at hended
      split at hended
      · rename_i hempty
        exact List.isEmpty_iff.1 hempty
      · cases hended
    have hrest : rest = c :: name := by
      rw [hstart] at hbehind
      rw [hnil, List.append_nil] at hafter
      rw [← hafter]
      exact hbehind
    rw [hstart, hrest]
    exact ⟨hnameText, passed, c, rfl, hc⟩
  · cases hgiven

/-! ## Classification -/

/-- **An item with a name ends in a mark that is a word with this name.** -/
theorem exists_last_of_classifyItem {piece : List Mark} (h : Legible piece) {name : String}
    (hclass : classifyItem (written piece) = .column name) :
    ∃ front last value spelling, piece = front ++ [last] ∧ last.token = .word value spelling ∧
      name = lowercase value := by
  rw [classifyItem] at hclass
  -- a wildcard, a reference to a column, an alias with `AS`, one without it, or no name
  split at hclass
  · cases hclass
  split at hclass
  · rename_i last hlast
    obtain ⟨front, value, spelling, htokens, hcolumn⟩ :=
      tokens_of_columnReference hlast (Nat.le_refl _)
    obtain ⟨others, final, rfl, hfinal, -⟩ := h.exists_last_of_tokens htokens
    rw [← ProjectedItem.column.inj hclass]
    exact ⟨others, final, value, spelling, rfl, hfinal, hcolumn⟩
  split at hclass
  · rename_i given hgiven
    have hne : piece ≠ [] := by
      rintro rfl
      cases hgiven
    obtain ⟨hname, before, c, htext, hc⟩ :=
      exists_blank_of_explicitAlias (solid_written h.markText hne) hgiven
    rw [← ProjectedItem.column.inj hclass]
    exact exists_last_of_name h hc htext hname
  split at hclass
  · rename_i given hgiven
    obtain ⟨hname, before, c, htext, hc⟩ := exists_blank_of_implicitAlias hgiven
    rw [← ProjectedItem.column.inj hclass]
    exact exists_last_of_name h hc htext hname
  · cases hclass

end RepoPolicy.Sql
