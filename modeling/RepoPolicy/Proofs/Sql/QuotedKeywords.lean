import RepoPolicy.Proofs.Sql.PlainForm
import RepoPolicy.Proofs.Sql.SelectListScan

set_option autoImplicit false

/-! # Keywords inside quoted names

The words `SELECT` and `FROM` around a select list are looked for outside parentheses. Nothing asks
whether a word stands in the double quotes of a name. A name that holds the word is passed over only
if the word itself stands before the name: then it is found first (`BareFirst`). So the words that
are found are outside quotes exactly if this is so of every name before them
(`chosen_words_are_bare_iff`), and a column of the name `"from"` cuts its select list short
(`quoted_from_ends_the_list`). -/

namespace RepoPolicy.Sql

open RepoPolicy.Text RepoPolicy.Text.Scanner

/-! ## Words by themselves -/

/-- A text is a word, whatever the case of its letters, and no word goes on before or behind it. -/
structure IsWord (word : String) (before text after : List Char) : Prop where
  letters : text.map fold = word.toList
  begins : before.getLast?.any isWordChar = false
  ends : after.head?.any isWordChar = false

/-- A word stands by itself somewhere in a text. -/
def HoldsWord (word : String) (text : List Char) : Prop :=
  ∃ before piece after, text = before ++ (piece ++ after) ∧ IsWord word before piece after

/-- A word stands by itself in a text, outside parentheses and double quotes. -/
def HoldsBareWord (word : String) (text : List Char) : Prop :=
  ∃ before piece after, text = before ++ (piece ++ after) ∧ IsWord word before piece after ∧
    Nesting.after before = .outermost

/-- A name in double quotes stands in a text, outside parentheses and behind `front`. -/
structure HasQuotedName (text front body : List Char) : Prop where
  quoted : ∃ rest, text = front ++ '"' :: (body ++ '"' :: rest)
  outermost : Nesting.after front = .outermost
  closes : '"' ∉ body

/-- Every quoted name that holds a word stands behind the word itself. -/
def BareFirst (word : String) (text : List Char) : Prop :=
  ∀ front body, HasQuotedName text front body → HoldsWord word body → HoldsBareWord word front

/-! ## Nesting and quotes -/

theorem atPlace_reverse (text rest : List Char) :
    Nesting.atPlace ⟨text.reverse, rest⟩ = Nesting.after text := by
  rw [Nesting.atPlace, List.foldr_reverse]
  rfl

theorem atTopLevel_reverse (text rest : List Char) :
    atTopLevel ⟨text.reverse, rest⟩ = ((Nesting.after text).depth == 0) := by
  rw [atTopLevel, atPlace_reverse]

theorem quoted_atPlace (before after : List Char) :
    (Nesting.atPlace ⟨before, after⟩).quoted = !isOutside before := by
  induction before with
  | nil => rfl
  | cons c before ih =>
      have hstep : Nesting.atPlace ⟨c :: before, after⟩
          = (Nesting.atPlace ⟨before, after⟩).read c := rfl
      rw [hstep, Nesting.read]
      by_cases hc : c = '"'
      · rw [if_pos (beq_iff_eq.2 hc), hc, isOutside_quote, ← ih]
      · rw [if_neg (by simpa using hc), isOutside_cons hc, ← ih]
        repeat' split
        all_goals rfl

/-- What follows a text is outside double quotes if none is open behind it. -/
theorem isOutside_iff_quoted {text : List Char} :
    isOutside text = true ↔ (Nesting.after text).quoted = false := by
  rw [← atPlace_reverse text [], quoted_atPlace, isOutside_reverse, Bool.not_eq_false']

theorem after_eq_outermost_iff {text : List Char} :
    Nesting.after text = .outermost ↔ (Nesting.after text).depth = 0 ∧ isOutside text = true := by
  rw [isOutside_iff_quoted]
  cases Nesting.after text
  simp [Nesting.outermost]

theorem isOutside_append (front back : List Char) :
    isOutside (front ++ back) = (isOutside front == isOutside back) := by
  rw [isOutside, isOutside, isOutside, List.count_append, Nat.add_mod]
  rcases Nat.mod_two_eq_zero_or_one (front.count '"') with h | h <;>
    rcases Nat.mod_two_eq_zero_or_one (back.count '"') with h' | h' <;> simp [h, h']

theorem foldl_read_of_not_mem {text : List Char} (h : '"' ∉ text) (depth : Nat) :
    text.foldl Nesting.read ⟨depth, true⟩ = ⟨depth, true⟩ := by
  induction text with
  | nil => rfl
  | cons c rest ih =>
      have hc : c ≠ '"' := by
        rintro rfl
        exact h List.mem_cons_self
      have hstep : (⟨depth, true⟩ : Nesting).read c = ⟨depth, true⟩ := by
        simp [Nesting.read, hc]
      rw [List.foldl_cons, hstep, ih fun hmem => h (List.mem_cons_of_mem c hmem)]

/-- Inside a name, as many parentheses are open as before its quote. -/
theorem after_openQuote {front inside : List Char} (hfront : isOutside front = true)
    (hinside : '"' ∉ inside) :
    Nesting.after (front ++ '"' :: inside) = ⟨(Nesting.after front).depth, true⟩ := by
  have hopen : (Nesting.after front).read '"' = ⟨(Nesting.after front).depth, true⟩ := by
    simp [Nesting.read, isOutside_iff_quoted.1 hfront]
  have hsplit : Nesting.after (front ++ '"' :: inside)
      = inside.foldl Nesting.read ((Nesting.after front).read '"') := List.foldl_append
  rw [hsplit, hopen, foldl_read_of_not_mem hinside]

theorem mem_of_not_isOutside {text : List Char} (h : isOutside text = false) : '"' ∈ text := by
  rw [← List.count_pos_iff]
  rw [isOutside, beq_eq_false_iff_ne] at h
  omega

/-- A text behind which a quote is open ends in the quote and what it encloses so far. -/
theorem exists_openQuote {text : List Char} (h : isOutside text = false) :
    ∃ front inside, text = front ++ '"' :: inside ∧ '"' ∉ inside ∧ isOutside front = true := by
  obtain ⟨inside, front, htext, hinside⟩ :=
    List.eq_append_cons_of_mem (List.mem_reverse.2 (mem_of_not_isOutside h))
  obtain rfl : text = front.reverse ++ '"' :: inside.reverse := by
    rw [← List.reverse_reverse text, htext]
    simp
  refine ⟨front.reverse, inside.reverse, rfl, by simpa using hinside, ?_⟩
  have hopens : isOutside ('"' :: inside.reverse) = false := by
    rw [isOutside_quote, isOutside_reverse, isOutside, List.count_eq_zero_of_not_mem hinside]
    rfl
  rw [isOutside_append, hopens] at h
  simpa using h

/-! ## What a search finds -/

section Found

variable {word : String}

theorem IsWord.not_mem_quote (hword : IsLetters word) {before piece after : List Char}
    (h : IsWord word before piece after) : '"' ∉ piece :=
  fun hmem => absurd (isWordChar_of_piece hword h.letters _ hmem) (by decide)

/-- An occurrence of a word is the word by itself. -/
theorem exists_isWord_of_mem (hword : IsLetters word) {text : List Char} {found : Occurrence}
    (h : found ∈ occurrences (wholeWord word) text) :
    ∃ before piece after, text = before ++ (piece ++ after) ∧ IsWord word before piece after ∧
      found = ⟨⟨before.reverse, piece ++ after⟩, ⟨(before ++ piece).reverse, after⟩⟩ := by
  obtain ⟨before, rest, htext, hstart, hstop⟩ := exists_of_mem_occurrences h
  obtain ⟨hleft, hright, piece, after, hpiece, hafter, hend⟩ := mem_wholeWord.1 hstop
  rw [hstart] at hafter hleft hend
  obtain rfl : rest = piece ++ after := hafter
  -- beside a letter of the word, an edge means that no character of words stands there
  refine ⟨before, piece, after, htext, ⟨hpiece, ?_, ?_⟩, ?_⟩
  · obtain ⟨c, others, rfl⟩ := List.exists_cons_of_ne_nil (piece_ne_nil hword hpiece)
    have hc := isWordChar_of_piece hword hpiece c List.mem_cons_self
    simpa [Place.atWordEdge, hc] using hleft
  · have hlast := head?_reverse_append hword hpiece before.reverse
    rw [hend, Place.atWordEdge, hlast] at hright
    simpa using hright
  · obtain ⟨start, stop⟩ := found
    obtain rfl : start = _ := hstart
    obtain rfl : stop = _ := hend
    rw [List.reverse_append]

theorem topLevel_ne_nil_of_holdsBareWord (hword : IsLetters word) {text : List Char}
    (h : HoldsBareWord word text) : topLevel (wholeWord word) text ≠ [] := by
  obtain ⟨before, piece, after, rfl, hisword, hnest⟩ := h
  obtain ⟨more, hmore⟩ := exists_topLevel_of_word hword hisword.letters hisword.ends
  rw [topLevel_append hword (cut_of_last hisword.begins) hnest, hmore]
  simp

theorem occurrences_ne_nil_of_holdsWord (hword : IsLetters word) {text : List Char}
    (h : HoldsWord word text) : occurrences (wholeWord word) text ≠ [] := by
  obtain ⟨before, piece, after, rfl, hisword⟩ := h
  obtain ⟨more, hmore⟩ := exists_topLevel_of_word hword hisword.letters hisword.ends
  have hmem := List.mem_of_mem_filter (hmore ▸ List.mem_cons_self)
  rw [occurrences_wholeWord_append hword (cut_of_last hisword.begins)]
  exact List.append_ne_nil_of_right_ne_nil _ (by simpa using List.ne_nil_of_mem hmem)

/-- A word inside a quoted name is found where no other one stands before the name. -/
theorem exists_topLevel_of_quoted (hword : IsLetters word) {body : List Char} (hbody : '"' ∉ body)
    (h : HoldsWord word body) (rest : List Char) :
    ∃ found more, topLevel (wholeWord word) ('"' :: (body ++ '"' :: rest)) = found :: more ∧
      isOutside found.start.before = false := by
  have hholds : HoldsWord word ('"' :: body) := by
    obtain ⟨before, piece, after, rfl, hisword⟩ := h
    refine ⟨'"' :: before, piece, after, rfl, hisword.letters, ?_, hisword.ends⟩
    cases before with
    | nil => decide
    | cons c before => exact hisword.begins
  obtain ⟨first, others, hfirst⟩ :=
    List.exists_cons_of_ne_nil (occurrences_ne_nil_of_holdsWord hword hholds)
  obtain ⟨before, piece, after, hsplit, hisword, rfl⟩ :=
    exists_isWord_of_mem hword (hfirst ▸ List.mem_cons_self)
  -- the first occurrence begins behind the opening quote, which is no letter of a word
  obtain ⟨inside, rfl, hinside⟩ : ∃ inside, before = '"' :: inside ∧ '"' ∉ inside := by
    cases before with
    | nil =>
        obtain ⟨c, more, rfl⟩ := List.exists_cons_of_ne_nil (piece_ne_nil hword hisword.letters)
        obtain ⟨rfl, -⟩ := List.cons.inj hsplit
        exact absurd List.mem_cons_self (hisword.not_mem_quote hword)
    | cons c inside =>
        obtain ⟨rfl, rfl⟩ := List.cons.inj hsplit
        exact ⟨inside, rfl, fun hmem => hbody (by simp [hmem])⟩
  have hnest : Nesting.after ('"' :: inside) = ⟨0, true⟩ := @after_openQuote [] inside rfl hinside
  -- the closing quote cuts the text, so the first occurrence is that of the quoted part
  rw [topLevel, ← List.cons_append, occurrences_wholeWord_append hword (cut_of_head rfl), hfirst,
    List.map_cons, List.cons_append, List.filter_cons_of_pos]
  · refine ⟨_, _, rfl, ?_⟩
    have houtside := isOutside_iff_quoted.not.2 (by rw [hnest]; decide)
    rw [← isOutside_reverse] at houtside
    exact Bool.eq_false_iff.2 houtside
  · have htop := atTopLevel_reverse ('"' :: inside) (piece ++ after ++ '"' :: rest)
    rwa [hnest] at htop

theorem exists_isWord_of_mem_topLevel (hword : IsLetters word) {text : List Char}
    {found : Occurrence} (h : found ∈ topLevel (wholeWord word) text) :
    ∃ before piece after, text = before ++ (piece ++ after) ∧ IsWord word before piece after ∧
      (Nesting.after before).depth = 0 ∧
      found = ⟨⟨before.reverse, piece ++ after⟩, ⟨(before ++ piece).reverse, after⟩⟩ := by
  obtain ⟨hmem, htop⟩ := List.mem_filter.1 h
  obtain ⟨before, piece, after, htext, hisword, rfl⟩ := exists_isWord_of_mem hword hmem
  rw [atTopLevel_reverse, beq_iff_eq] at htop
  exact ⟨before, piece, after, htext, hisword, htop, rfl⟩

theorem holdsBareWord_of_mem (hword : IsLetters word) {text : List Char} {found : Occurrence}
    (h : found ∈ topLevel (wholeWord word) text) (hbare : isOutside found.start.before = true) :
    HoldsBareWord word text := by
  obtain ⟨before, piece, after, htext, hisword, hdepth, rfl⟩ :=
    exists_isWord_of_mem_topLevel hword h
  rw [isOutside_reverse] at hbare
  exact ⟨before, piece, after, htext, hisword, after_eq_outermost_iff.2 ⟨hdepth, hbare⟩⟩

/-- The name that a word stands in, if the word is not outside quotes. -/
theorem exists_quotedName_of_mem (hword : IsLetters word) {text : List Char} {found : Occurrence}
    (hclosed : isOutside text = true) (h : found ∈ topLevel (wholeWord word) text)
    (hquoted : isOutside found.start.before = false) :
    ∃ front body, HasQuotedName text front body ∧ HoldsWord word body ∧
      front.length < found.start.before.length := by
  obtain ⟨before, piece, after, rfl, hisword, hdepth, rfl⟩ :=
    exists_isWord_of_mem_topLevel hword h
  rw [isOutside_reverse] at hquoted
  obtain ⟨front, inside, rfl, hinside, hfront⟩ := exists_openQuote hquoted
  rw [after_openQuote hfront hinside] at hdepth
  -- the text leaves no quote open, so the name is closed behind the word
  have hafter : '"' ∈ after := by
    rw [isOutside_append, hquoted, beq_iff_eq] at hclosed
    have hmem := mem_of_not_isOutside hclosed.symm
    exact (List.mem_append.1 hmem).resolve_left (hisword.not_mem_quote hword)
  obtain ⟨ahead, rest, rfl, hahead⟩ := List.eq_append_cons_of_mem hafter
  refine ⟨front, inside ++ (piece ++ ahead), ⟨⟨rest, by simp⟩, ?_, ?_⟩,
    ⟨inside, piece, ahead, rfl, hisword.letters, ?_, ?_⟩, ?_⟩
  · exact after_eq_outermost_iff.2 ⟨hdepth, hfront⟩
  · simp [hinside, hisword.not_mem_quote hword, hahead]
  · rcases List.eq_nil_or_concat inside with rfl | ⟨others, c, rfl⟩
    · rfl
    · have hbegins := hisword.begins
      rw [List.concat_eq_append, ← List.cons_append, ← List.append_assoc,
        List.getLast?_concat] at hbegins
      rwa [List.concat_eq_append, List.getLast?_concat]
  · cases ahead with
    | nil => rfl
    | cons c others => exact hisword.ends
  · simp only [List.length_reverse, List.length_append, List.length_cons]
    omega

/-- The first of the words outside parentheses is outside quotes exactly if every quoted name that
holds the word stands behind it. -/
theorem first_isOutside_iff (hword : IsLetters word) {text : List Char}
    (hclosed : isOutside text = true) :
    (∀ found ∈ (topLevel (wholeWord word) text).head?, isOutside found.start.before = true) ↔
      BareFirst word text := by
  constructor
  · intro hhead front body hname hbody
    obtain ⟨rest, rfl⟩ := hname.quoted
    rw [topLevel_append hword (cut_of_head rfl) hname.outermost] at hhead
    cases hfront : topLevel (wholeWord word) front with
    | nil =>
        -- with nothing found in front of the name, the first word is the one in the name
        obtain ⟨found, more, hmore, hinside⟩ :=
          exists_topLevel_of_quoted hword hname.closes hbody rest
        rw [hfront, hmore] at hhead
        have hbare : isOutside (found.start.before ++ front.reverse) = true := hhead _ rfl
        rw [isOutside_append, hinside, isOutside_reverse,
          (after_eq_outermost_iff.1 hname.outermost).2] at hbare
        cases hbare
    | cons found more =>
        rw [hfront] at hhead
        have hmem : found ∈ topLevel (wholeWord word) front := hfront ▸ List.mem_cons_self
        exact holdsBareWord_of_mem hword hmem (hhead (found.extend _) rfl)
  · intro hfirst found hfound
    rw [← Bool.not_eq_false]
    intro hquoted
    obtain ⟨front, body, hname, hbody, hlength⟩ :=
      exists_quotedName_of_mem hword hclosed (List.mem_of_mem_head? hfound) hquoted
    obtain ⟨other, more, hmore⟩ := List.exists_cons_of_ne_nil
      (topLevel_ne_nil_of_holdsBareWord hword (hfirst front body hname hbody))
    obtain ⟨rest, rfl⟩ := hname.quoted
    rw [topLevel_append hword (cut_of_head rfl) hname.outermost, hmore] at hfound
    obtain rfl : other.extend ('"' :: (body ++ '"' :: rest)) = found := Option.some.inj hfound
    -- what is found in front of the name does not begin in the name
    obtain ⟨before, piece, after, hfront, -, -, rfl⟩ :=
      exists_isWord_of_mem_topLevel hword (hmore ▸ List.mem_cons_self)
    have hshorter := congrArg List.length hfront
    simp only [List.length_append] at hshorter
    simp only [Occurrence.extend, Place.extend, List.length_reverse] at hlength
    omega

end Found

/-! ## The words around a select list -/

theorem IsWord.after_append {word : String} (hword : IsLetters word)
    {before piece after : List Char} (h : IsWord word before piece after)
    (hnest : Nesting.after before = .outermost) :
    Nesting.after (before ++ piece) = .outermost := by
  have hothers : ∀ c ∈ piece, c ∉ ['"', '(', ')', ','] := by
    intro c hc hmem
    have hnone : ['"', '(', ')', ','].all (fun c => !isWordChar c) = true := by decide
    have hno := List.all_eq_true.1 hnone c hmem
    rw [isWordChar_of_piece hword h.letters c hc] at hno
    cases hno
  rw [Nesting.after] at hnest
  rw [Nesting.after, List.foldl_append, hnest, foldl_read_of_others hothers]

/-- The `FROM` behind a `SELECT` outside quotes is the first one in what is behind the `SELECT`. -/
theorem fromWord?_behind {before piece after : List Char} (h : IsWord "select" before piece after)
    (hnest : Nesting.after before = .outermost) :
    fromWord? (before ++ (piece ++ after)) ⟨(before ++ piece).reverse, after⟩
      = (topLevel (wholeWord "from") after).head?.map
          (Occurrence.behind (before ++ piece).reverse) := by
  have hnest' := h.after_append isLetters_select hnest
  rw [← List.append_assoc, @fromWord?_append _ _ ⟨_, after⟩ rfl (cut_of_head h.ends) hnest']
  cases hfirst : topLevel (wholeWord "from") after with
  | nil => rfl
  | cons found more =>
      obtain ⟨lead, word, rest, rfl, hisword, -, rfl⟩ :=
        exists_isWord_of_mem_topLevel isLetters_from (hfirst ▸ List.mem_cons_self)
      -- no word begins right behind another
      have hlead : lead ≠ [] := by
        rintro rfl
        obtain ⟨c, others, rfl⟩ :=
          List.exists_cons_of_ne_nil (piece_ne_nil isLetters_from hisword.letters)
        have hc := isWordChar_of_piece isLetters_from hisword.letters c List.mem_cons_self
        have hends : isWordChar c = false := h.ends
        rw [hc] at hends
        cases hends
      have hlength := List.length_pos_iff.2 hlead
      rw [List.map_cons, List.find?_cons_of_pos]
      · rfl
      · simp [Occurrence.behind, Place.behind, hlength]

theorem isOutside_normalForm {sql : String} (h : openQuote sql = none) :
    isOutside (normalForm sql.toList) = true := by
  have hbetween := ((sound_scan sql.toList).between_finish h).dropBlanks
  rw [← reverse_normalForm] at hbetween
  rw [← isOutside_reverse, hbetween.outside]

theorem exists_selectWord?_of_projection {sql : String} {items : List ProjectedItem}
    (h : projection sql = some items) :
    ∃ select, selectWord? (normalForm sql.toList) = some select := by
  obtain ⟨list, hlist, -⟩ := Option.map_eq_some_iff.1 h
  obtain ⟨select, hselect, -⟩ := Option.bind_eq_some_iff.1 hlist
  exact ⟨select, hselect⟩

/-- A text that leaves no quote open has a `SELECT` if it has a select list. The `SELECT` and the
`FROM` that are taken for the words around the list are outside quotes exactly if each quoted name
that holds one of the words, and stands outside parentheses, stands behind the word itself. For
`FROM` this is asked of the text behind the `SELECT`. -/
theorem chosen_words_are_bare_iff {sql : String} {items : List ProjectedItem}
    (hclosed : openQuote sql = none) (hitems : projection sql = some items) :
    ∃ select, selectWord? (normalForm sql.toList) = some select ∧
      (isOutside select.start.before = true ∧
          (∀ found ∈ fromWord? (normalForm sql.toList) select.stop,
            isOutside found.start.before = true) ↔
        BareFirst "select" (normalForm sql.toList) ∧ BareFirst "from" select.stop.after) := by
  have houtside := isOutside_normalForm hclosed
  obtain ⟨select, hselect⟩ := exists_selectWord?_of_projection hitems
  refine ⟨select, hselect, ?_⟩
  have hmem := List.mem_of_mem_head? hselect
  have hfirst := first_isOutside_iff isLetters_select houtside
  rw [← selectWord?, hselect] at hfirst
  simp only [Option.mem_some_iff, forall_eq'] at hfirst
  rw [← hfirst]
  refine and_congr_right fun hbare => ?_
  obtain ⟨before, piece, after, hform, hisword, hdepth, rfl⟩ :=
    exists_isWord_of_mem_topLevel isLetters_select hmem
  rw [isOutside_reverse] at hbare
  have hnest := after_eq_outermost_iff.2 ⟨hdepth, hbare⟩
  have hlead : isOutside (before ++ piece) = true :=
    (after_eq_outermost_iff.1 (hisword.after_append isLetters_select hnest)).2
  rw [hform, ← List.append_assoc, isOutside_append, hlead, beq_iff_eq] at houtside
  rw [← first_isOutside_iff isLetters_from houtside.symm, hform, fromWord?_behind hisword hnest]
  cases (topLevel (wholeWord "from") after).head? with
  | none => simp
  | some found =>
      have hsame : isOutside (found.behind (before ++ piece).reverse).start.before
          = isOutside found.start.before := by
        rw [Occurrence.behind, Place.behind, isOutside_append, isOutside_reverse, hlead, beq_true]
      simp only [Option.map_some, Option.mem_some_iff, forall_eq', hsame]

/-- Names that hold the words do no harm behind them: an alias `"select"`, and a table `"from"`. -/
theorem names_behind_the_words_are_passed :
    openQuote "SELECT a AS \"select\" FROM \"from\"" = none ∧
      projection "SELECT a AS \"select\" FROM \"from\"" = some [.column "select"] ∧
      BareFirst "select" (normalForm "SELECT a AS \"select\" FROM \"from\"".toList) ∧
      BareFirst "from" " a AS \"select\" FROM \"from\"".toList := by
  have hclosed : openQuote "SELECT a AS \"select\" FROM \"from\"" = none := by decide +kernel
  have hitems : projection "SELECT a AS \"select\" FROM \"from\"" = some [.column "select"] := by
    decide +kernel
  obtain ⟨select, hselect, hiff⟩ := chosen_words_are_bare_iff hclosed hitems
  obtain rfl : ⟨⟨[], "SELECT a AS \"select\" FROM \"from\"".toList⟩,
      ⟨"TCELES".toList, " a AS \"select\" FROM \"from\"".toList⟩⟩ = select :=
    Option.some.inj ((by decide +kernel : some _ = selectWord? _).trans hselect)
  have hfrom : (fromWord? (normalForm "SELECT a AS \"select\" FROM \"from\"".toList)
      ⟨"TCELES".toList, " a AS \"select\" FROM \"from\"".toList⟩).all
        (fun found => isOutside found.start.before) = true := by
    decide +kernel
  refine ⟨hclosed, hitems, hiff.1 ⟨rfl, fun found hfound => ?_⟩⟩
  rw [Option.mem_def.1 hfound] at hfrom
  exact hfrom

/-- A column of the name `"from"` ends its own select list, in the middle of its quotes. -/
theorem quoted_from_ends_the_list :
    openQuote "SELECT id, \"from\" FROM t" = none ∧
      projection "SELECT id, \"from\" FROM t" = some [.column "id", .complex "\""] ∧
      ∃ select found,
        selectWord? (normalForm "SELECT id, \"from\" FROM t".toList) = some select ∧
        fromWord? (normalForm "SELECT id, \"from\" FROM t".toList) select.stop = some found ∧
        isOutside found.start.before = false := by
  refine ⟨by decide +kernel, by decide +kernel, ?_⟩
  refine ⟨⟨⟨[], "SELECT id, \"from\" FROM t".toList⟩,
      ⟨"TCELES".toList, " id, \"from\" FROM t".toList⟩⟩,
    ⟨⟨"\" ,di TCELES".toList, "from\" FROM t".toList⟩,
      ⟨"morf\" ,di TCELES".toList, "\" FROM t".toList⟩⟩, ?_⟩
  decide +kernel

end RepoPolicy.Sql
