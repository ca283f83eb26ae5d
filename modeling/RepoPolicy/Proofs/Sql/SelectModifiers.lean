import RepoPolicy.Proofs.Sql.EnclosedText
import RepoPolicy.Proofs.Sql.LineBreaks
import RepoPolicy.Proofs.Sql.TableNames

set_option autoImplicit false

/-! # What stands between SELECT and its list

`ALL`, `DISTINCT` and `DISTINCT ON (...)` in front of a select list are meant to make no difference
to its items. The list is found behind any of them (`Leads.selectList?_eq_some`), and then the
modifier is dropped. The parentheses of `DISTINCT ON` are taken to end where the first parenthesis
is closed, which may be inside them. `modifiers_end_at_first_close` says what is left of the
expressions then. Where none is closed inside, nothing is left. -/

namespace RepoPolicy.Sql

open RepoPolicy.Text RepoPolicy.Text.Scanner

/-! ## Lists behind a lead -/

theorem not_isBlank_head {text : List Char} {c : Char} (h : (normalForm text).head? = some c) :
    isBlank c = false := by
  obtain ⟨more, hform⟩ := List.head?_eq_some_iff.1 h
  have hfitting := (sound_scan text).fitting_finish
  rw [← List.takeWhile_append_dropWhile (p := isBlank) (l := (scan text).finish),
    ← reverse_normalForm, hform, List.reverse_cons, ← List.append_assoc] at hfitting
  exact hfitting.not_isBlank_first

/-- A text that does not begin with a blank, without the blanks at its end. -/
theorem exists_solid {first : Char} {text : List Char} (htext : text.head? = some first)
    (hfirst : isBlank first = false) :
    ∃ list tail, text = list ++ tail ∧ Solid list ∧ ∀ c ∈ tail, isBlank c = true := by
  have hsplit : text = (text.reverse.dropWhile isBlank).reverse
      ++ (text.reverse.takeWhile isBlank).reverse := by
    rw [← List.reverse_append, List.takeWhile_append_dropWhile, List.reverse_reverse]
  -- the first character is no blank, so something is left
  have hne : text.reverse.dropWhile isBlank ≠ [] := by
    intro hnil
    have hblank := List.dropWhile_eq_nil_iff.1 hnil first
      (List.mem_reverse.2 (List.mem_of_head? htext))
    rw [hfirst] at hblank
    cases hblank
  have hlast := List.head?_dropWhile_not isBlank text.reverse
  refine ⟨_, _, hsplit, ⟨?_, ?_⟩, fun c hc => List.mem_takeWhile_imp (List.mem_reverse.1 hc)⟩
  · obtain ⟨c, more, hlist⟩ := List.exists_cons_of_ne_nil (mt List.reverse_eq_nil_iff.1 hne)
    rw [hsplit, hlist, List.cons_append, List.head?_cons, Option.some.injEq] at htext
    exact ⟨c, more, hlist, htext ▸ hfirst⟩
  · obtain ⟨c, more, hlist⟩ := List.exists_cons_of_ne_nil hne
    rw [hlist, List.head?_cons] at hlast
    exact ⟨more.reverse, c, by rw [hlist, List.reverse_cons], by simpa using hlast⟩

theorem Solid.behind {front rear : List Char} (h : Solid rear)
    (hfront : front.head?.any (!isBlank ·) = true) : Solid (front ++ rear) := by
  obtain ⟨first, hhead, hfirst⟩ := (Option.any_eq_true _ _).1 hfront
  obtain ⟨middle, rfl⟩ := List.head?_eq_some_iff.1 hhead
  have hblank : isBlank first = false := by simpa using hfirst
  have hsingle : Solid [first] := ⟨⟨first, [], rfl, hblank⟩, [], first, rfl, hblank⟩
  exact hsingle.append h middle

theorem mem_trimStart {text : List Char} {c : Char} (hmem : c ∈ text) (hc : isBlank c = false) :
    c ∈ trimStart text := by
  rw [← List.takeWhile_append_dropWhile (p := isBlank) (l := text), List.mem_append] at hmem
  refine hmem.resolve_left fun htake => ?_
  rw [List.mem_takeWhile_imp htake] at hc
  cases hc

theorem trim_ne_nil_of_mem {text : List Char} {c : Char} (hmem : c ∈ text)
    (hc : isBlank c = false) : trim text ≠ [] := by
  intro hnil
  have hblank := List.dropWhile_eq_nil_iff.1 (List.reverse_eq_nil_iff.1 hnil) c
    (List.mem_reverse.2 (mem_trimStart hmem hc))
  rw [hc] at hblank
  cases hblank

/-- What stands before the first `FROM` outside parentheses. -/
def untilFrom (text : List Char) : List Char :=
  match (topLevel (wholeWord "from") text).head? with
  | some found => found.start.before.reverse
  | none => text

theorem untilFrom_prefix (text : List Char) : untilFrom text <+: text := by
  rw [untilFrom]
  split
  · rename_i found hfound
    obtain ⟨before, piece, after, htext, -, -, rfl⟩ :=
      exists_isWord_of_mem_topLevel isLetters_from (List.mem_of_mem_head? hfound)
    rw [List.reverse_reverse]
    exact ⟨_, htext.symm⟩
  · exact List.prefix_refl text

/-- What may stand between `SELECT` and a list for the list to be found behind it: it closes what it
opens, it has no `FROM` outside parentheses, and the list is behind a space. -/
structure Leads (modifier : List Char) : Prop where
  noFrom : topLevel (wholeWord "from") (' ' :: modifier) = []
  closes : Nesting.after (' ' :: modifier) = .outermost
  spaced : (' ' :: modifier).getLast? = some ' '

/-- The place behind the first word of a text that begins with `SELECT`. -/
def behindSelect (rest : List Char) : Place := ⟨"SELECT".toList.reverse, rest⟩

theorem Leads.fromWord?_eq {modifier : List Char} (h : Leads modifier) (rest : List Char) :
    fromWord? ("SELECT".toList ++ (' ' :: modifier ++ rest))
        (behindSelect (' ' :: modifier ++ rest))
      = (topLevel (wholeWord "from") rest).head?.map fun found =>
          (found.behind (' ' :: modifier).reverse).behind "SELECT".toList.reverse := by
  have hcut : Cut (' ' :: modifier) rest := cut_of_last (by rw [h.spaced]; decide)
  have hbehind := @fromWord?_append "SELECT".toList (' ' :: modifier ++ rest) (behindSelect _) rfl
    (cut_of_head rfl) rfl
  rw [hbehind, topLevel_append isLetters_from hcut h.closes, h.noFrom, List.map_nil,
    List.nil_append, List.map_map]
  cases hfirst : topLevel (wholeWord "from") rest with
  | nil => rfl
  | cons found more =>
      obtain ⟨before, piece, after, rfl, -, -, rfl⟩ :=
        exists_isWord_of_mem_topLevel isLetters_from (hfirst ▸ List.mem_cons_self)
      -- whatever is found behind the modifier begins behind `SELECT`
      rw [List.map_cons, List.find?_cons_of_pos]
      · rfl
      · simp [Occurrence.behind, Place.behind]
        omega

theorem Leads.upTo_fromWord? {modifier : List Char} (h : Leads modifier) (rest : List Char) :
    (behindSelect (' ' :: modifier ++ rest)).upTo
        ((fromWord? ("SELECT".toList ++ (' ' :: modifier ++ rest))
          (behindSelect (' ' :: modifier ++ rest))).elim ⟨[], []⟩ (·.start))
      = ' ' :: modifier ++ untilFrom rest := by
  rw [h.fromWord?_eq, untilFrom]
  cases hfirst : (topLevel (wholeWord "from") rest).head? with
  | none => exact upTo_end
  | some found =>
      obtain ⟨before, piece, after, rfl, -, -, rfl⟩ :=
        exists_isWord_of_mem_topLevel isLetters_from (List.mem_of_mem_head? hfirst)
      refine upTo_of_append ?_
      simp [behindSelect, Occurrence.behind, Place.behind]

/-- The list behind a modifier is what is left when the modifier is dropped. -/
theorem Leads.selectList?_eq_some {modifier rest list tail result : List Char} (h : Leads modifier)
    (huntil : untilFrom rest = list ++ tail) (hsolid : Solid (modifier ++ list))
    (htail : ∀ c ∈ tail, isBlank c = true) (hresult : dropModifier (modifier ++ list) = result)
    (hne : trim result ≠ []) :
    selectList? ("SELECT".toList ++ (' ' :: modifier ++ rest)) = some result := by
  obtain ⟨more, hmore⟩ := @exists_topLevel_of_word "select" isLetters_select "SELECT".toList
    (' ' :: modifier ++ rest) (by decide) rfl
  have hselect : selectWord? ("SELECT".toList ++ (' ' :: modifier ++ rest))
      = some ⟨⟨[], "SELECT".toList ++ (' ' :: modifier ++ rest)⟩,
          behindSelect (' ' :: modifier ++ rest)⟩ := by
    rw [selectWord?, hmore]
    rfl
  refine selectList?_eq hselect rfl ?_ hne
  have htrim : trim (' ' :: modifier ++ (list ++ tail)) = modifier ++ list := by
    rw [List.cons_append, ← List.append_assoc]
    exact (trim_of_cases (.inr rfl)).trans (hsolid.trim_append htail)
  rw [h.upTo_fromWord?, huntil, htrim, hresult]

theorem Leads.selectList?_word {word : String} (h : Leads (word.toList ++ [' ']))
    {rest list tail result : List Char} (huntil : untilFrom rest = list ++ tail)
    (hsolid : Solid (word.toList ++ [' '] ++ list)) (htail : ∀ c ∈ tail, isBlank c = true)
    (hresult : dropModifier (word.toList ++ ' ' :: list) = result) (hne : trim result ≠ []) :
    selectList? ("SELECT".toList ++ ' ' :: (word.toList ++ ' ' :: rest)) = some result := by
  have happend : ∀ more, word.toList ++ [' '] ++ more = word.toList ++ ' ' :: more := by simp
  have hsome := h.selectList?_eq_some huntil hsolid htail (by rwa [happend]) hne
  rwa [List.cons_append, happend] at hsome

/-! ## Dropping a modifier -/

/-- The piece that begins a text is followed by `rest`, whatever is before the text. -/
def ReadsTo (scan : Scanner) (text rest : List Char) : Prop :=
  ∀ before, ∃ stop, (scan ⟨before, text⟩).head? = some stop ∧ stop.after = rest

theorem ReadsTo.andThen {first second : Scanner} {text middle rest : List Char}
    (hfirst : ReadsTo first text middle) (hsecond : ReadsTo second middle rest) :
    ReadsTo (andThen first second) text rest := by
  intro before
  obtain ⟨⟨_, _⟩, hhead, rfl⟩ := hfirst before
  obtain ⟨stop, hstop, hafter⟩ := hsecond _
  obtain ⟨others, hothers⟩ := List.head?_eq_some_iff.1 hhead
  refine ⟨stop, ?_, hafter⟩
  rw [Scanner.andThen, hothers, List.flatMap_cons, List.head?_append, hstop]
  rfl

theorem readsTo_letters {word : String} {piece : List Char} (hpiece : piece.map fold = word.toList)
    (rest : List Char) : ReadsTo (letters word) (piece ++ rest) rest :=
  fun before => ⟨_, by rw [letters_of_map_fold hpiece before rest]; rfl, rfl⟩

theorem readsTo_exactly (c : Char) (rest : List Char) : ReadsTo (exactly c) (c :: rest) rest :=
  fun before => ⟨⟨c :: before, rest⟩, by simp [exactly, char], rfl⟩

theorem readsTo_many (accept : Char → Bool) (text : List Char) :
    ReadsTo (many accept) text (text.dropWhile accept) :=
  fun _ => ⟨_, head?_many, rfl⟩

theorem readsTo_blanks1 {c : Char} (hc : isBlank c = true) (rest : List Char) :
    ReadsTo blanks1 (c :: rest) (trimStart rest) :=
  have hchar : ReadsTo (char isBlank) (c :: rest) rest :=
    fun before => ⟨⟨c :: before, rest⟩, by simp [char, hc], rfl⟩
  hchar.andThen (readsTo_many isBlank rest)

theorem readsTo_sequence_nil (text : List Char) : ReadsTo (sequence []) text text :=
  fun _ => ⟨_, rfl, rfl⟩

/-- What follows the first closing parenthesis of a text. -/
def behindClose (text : List Char) : List Char := (text.dropWhile (· != ')')).drop 1

theorem dropWhile_close {front : List Char} (h : ')' ∉ front) (rest : List Char) :
    (front ++ ')' :: rest).dropWhile (· != ')') = ')' :: rest := by
  have hall : ∀ c ∈ front, (c != ')') = true := by
    intro c hc
    rw [bne_iff_ne]
    rintro rfl
    exact h hc
  rw [List.dropWhile_append_of_pos hall, List.dropWhile_cons_of_neg (by decide)]

theorem behindClose_append {front : List Char} (h : ')' ∉ front) (rest : List Char) :
    behindClose (front ++ ')' :: rest) = rest := by
  rw [behindClose, dropWhile_close h]
  rfl

theorem exists_behindClose (inside rest : List Char) :
    ∃ front, behindClose (inside ++ ')' :: rest) = front ++ rest := by
  by_cases hclose : ')' ∈ inside
  · obtain ⟨front, more, rfl, hfront⟩ := List.eq_append_cons_of_mem hclose
    refine ⟨more ++ [')'], ?_⟩
    rw [List.append_assoc, List.cons_append, behindClose_append hfront]
    simp
  · exact ⟨[], behindClose_append hclose rest⟩

/-- `DISTINCT ON` and its parentheses end at the first closing one. -/
def distinctOn : Scanner :=
  sequence [letters "distinct", blanks1, letters "on", blanks, exactly '(', many (· != ')'),
    exactly ')', blanks]

theorem selectModifier_eq (place : Place) :
    selectModifier place = andThen (letters "all") blanks1 place
      ++ (distinctOn place ++ andThen (letters "distinct") blanks1 place) := by
  simp [selectModifier, oneOf, distinctOn]

theorem dropModifier_of_head? {text : List Char} {stop : Place}
    (h : (selectModifier (Place.start text)).head? = some stop) :
    dropModifier text = stop.after := by
  rw [dropModifier, h]

theorem Solid.trimStart_append {list : List Char} (h : Solid list) (rest : List Char) :
    trimStart (list ++ rest) = list ++ rest := by
  obtain ⟨⟨first, more, rfl, hfirst⟩, -⟩ := h
  exact List.dropWhile_cons_of_neg (by simp [hfirst])

theorem Solid.trimStart_eq {list : List Char} (h : Solid list) : trimStart list = list := by
  have happend := h.trimStart_append []
  rwa [List.append_nil] at happend

theorem dropModifier_all {list : List Char} (hsolid : Solid list) :
    dropModifier ("ALL".toList ++ ' ' :: list) = list := by
  have hreads : ReadsTo (andThen (letters "all") blanks1) ("ALL".toList ++ ' ' :: list)
      (trimStart list) :=
    (readsTo_letters (by decide) _).andThen (readsTo_blanks1 (by decide) list)
  obtain ⟨stop, hstop, hafter⟩ := hreads []
  rw [hsolid.trimStart_eq] at hafter
  refine (dropModifier_of_head? ?_).trans hafter
  rw [selectModifier_eq, Place.start, List.head?_append, hstop, Option.some_or]

theorem letters_all_distinct (before rest : List Char) :
    letters "all" ⟨before, "DISTINCT".toList ++ rest⟩ = [] := by
  rw [letters_eq, if_neg]
  exact show ¬"DIS".toList.map fold = "all".toList by decide

theorem selectModifier_distinct (rest : List Char) :
    selectModifier (Place.start ("DISTINCT".toList ++ rest))
      = distinctOn ⟨[], "DISTINCT".toList ++ rest⟩
        ++ andThen (letters "distinct") blanks1 ⟨[], "DISTINCT".toList ++ rest⟩ := by
  rw [selectModifier_eq, Place.start, andThen, letters_all_distinct, List.flatMap_nil,
    List.nil_append]

/-- Behind `DISTINCT ON`, what follows the first closing parenthesis is left. -/
theorem dropModifier_distinctOn {text : List Char} (hclose : ')' ∈ text) :
    dropModifier ("DISTINCT".toList ++ ' ' :: ("ON".toList ++ ' ' :: '(' :: text))
      = trimStart (behindClose text) := by
  obtain ⟨front, rest, rfl, hfront⟩ := List.eq_append_cons_of_mem hclose
  have hreads : ReadsTo distinctOn
      ("DISTINCT".toList ++ ' ' :: ("ON".toList ++ ' ' :: '(' :: (front ++ ')' :: rest)))
      (trimStart rest) := by
    refine (@readsTo_letters "distinct" "DISTINCT".toList (by decide) _).andThen ?_
    refine (readsTo_blanks1 (by decide) _).andThen ?_
    refine (@readsTo_letters "on" "ON".toList (by decide) _).andThen ?_
    refine (readsTo_many isBlank _).andThen ?_
    refine (readsTo_exactly '(' _).andThen ?_
    refine (readsTo_many _ _).andThen ?_
    rw [dropWhile_close hfront]
    refine (readsTo_exactly ')' rest).andThen ?_
    exact (readsTo_many isBlank rest).andThen (readsTo_sequence_nil _)
  obtain ⟨stop, hstop, hafter⟩ := hreads []
  rw [behindClose_append hfront]
  refine (dropModifier_of_head? ?_).trans hafter
  rw [selectModifier_distinct, List.head?_append, hstop, Option.some_or]

/-! ## Where a list begins -/

/-- Whether a text begins with a word, in any case, and what follows the word is as it should be. -/
def startsWith (word : String) (follows : List Char → Bool) (text : List Char) : Bool :=
  (text.take word.length).map fold == word.toList && follows (text.drop word.length)

def startsBlank (text : List Char) : Bool := text.head?.any isBlank

def startsInWord (text : List Char) : Bool := text.head?.any isWordChar

/-- Whether a text begins with a parenthesis, behind blanks. -/
def startsParenthesis (text : List Char) : Bool := (trimStart text).head? == some '('

/-- A select list begins a text: the text has something, and begins neither with the word `FROM` nor
with what would be taken for a modifier, or for the rest of one behind `DISTINCT`. -/
structure OpensList (text : List Char) : Prop where
  ne_nil : text ≠ []
  noFrom : startsWith "from" (!startsInWord ·) text = false
  noAll : startsWith "all" startsBlank text = false
  noDistinct : startsWith "distinct" startsBlank text = false
  noOn : startsWith "on" startsParenthesis text = false

instance (text : List Char) : Decidable (OpensList text) :=
  decidable_of_iff (text ≠ [] ∧ startsWith "from" (!startsInWord ·) text = false ∧
      startsWith "all" startsBlank text = false ∧ startsWith "distinct" startsBlank text = false ∧
      startsWith "on" startsParenthesis text = false)
    ⟨fun ⟨hne, hfrom, hall, hdistinct, hon⟩ => ⟨hne, hfrom, hall, hdistinct, hon⟩,
      fun h => ⟨h.ne_nil, h.noFrom, h.noAll, h.noDistinct, h.noOn⟩⟩

theorem startsWith_append {word : String} {follows : List Char → Bool} {piece rest : List Char}
    (hpiece : piece.map fold = word.toList) (hrest : follows rest = true) :
    startsWith word follows (piece ++ rest) = true := by
  have hlength : word.length = piece.length := by
    rw [← String.length_toList, ← hpiece, List.length_map]
  rw [startsWith, hlength, List.take_left, List.drop_left, hpiece, hrest]
  simp

theorem startsWith_of_mem {word : String} {before text : List Char} {middle stop : Place}
    (hmiddle : middle ∈ letters word ⟨before, text⟩) (hstop : stop ∈ blanks1 middle)
    (rest : List Char) : startsWith word startsBlank (text ++ rest) = true := by
  obtain ⟨piece, hpiece, htext, -⟩ := exists_of_mem_letters hmiddle
  obtain ⟨c, gap, hc, -, hafter⟩ := exists_of_mem_blanks1 hstop
  obtain rfl : text = piece ++ middle.after := htext
  rw [hafter, List.append_assoc]
  exact startsWith_append hpiece hc

section Opens

variable {list rest : List Char}

theorem OpensList.dropModifier_eq (h : OpensList (list ++ rest)) : dropModifier list = list := by
  have hnone : selectModifier (Place.start list) = [] := by
    rw [List.eq_nil_iff_forall_not_mem]
    intro stop hstop
    rw [selectModifier_eq, List.mem_append, List.mem_append] at hstop
    rcases hstop with hall | hon | hdistinct
    · obtain ⟨middle, hmiddle, hblanks⟩ := mem_andThen.1 hall
      exact absurd (startsWith_of_mem hmiddle hblanks rest) (by simp [h.noAll])
    · obtain ⟨middle, hmiddle, hmore⟩ := mem_sequence_cons.1 hon
      obtain ⟨behind, hblanks, -⟩ := mem_sequence_cons.1 hmore
      exact absurd (startsWith_of_mem hmiddle hblanks rest) (by simp [h.noDistinct])
    · obtain ⟨middle, hmiddle, hblanks⟩ := mem_andThen.1 hdistinct
      exact absurd (startsWith_of_mem hmiddle hblanks rest) (by simp [h.noDistinct])
  rw [dropModifier, hnone]
  rfl

/-- Behind `DISTINCT` and one space, nothing is taken for `ON`. -/
theorem OpensList.distinctOn_eq_nil (h : OpensList (list ++ rest)) (hsolid : Solid list) :
    distinctOn ⟨[], "DISTINCT".toList ++ ' ' :: list⟩ = [] := by
  rw [List.eq_nil_iff_forall_not_mem]
  intro stop hstop
  obtain ⟨_, hdistinct, hmore⟩ := mem_sequence_cons.1 hstop
  rw [@letters_of_map_fold "distinct" "DISTINCT".toList (by decide),
    List.mem_singleton] at hdistinct
  subst hdistinct
  obtain ⟨start, hblanks, hmore⟩ := mem_sequence_cons.1 hmore
  obtain ⟨middle, hword, hmore⟩ := mem_sequence_cons.1 hmore
  obtain ⟨behind, hblanks', hmore⟩ := mem_sequence_cons.1 hmore
  obtain ⟨_, hopen, -⟩ := mem_sequence_cons.1 hmore
  -- the list begins with no blank, so the one space is all there is in front of `ON`
  have hstart : start.after = list := by
    obtain ⟨c, gap, -, hgap, hlist⟩ := exists_of_mem_blanks1 hblanks
    obtain ⟨-, rfl⟩ := List.cons.inj hlist
    cases gap with
    | nil => rfl
    | cons d gap =>
        obtain ⟨⟨first, more, hfirst, hblank⟩, -⟩ := hsolid
        obtain ⟨rfl, -⟩ := List.cons.inj hfirst
        rw [hgap d List.mem_cons_self] at hblank
        cases hblank
  obtain ⟨piece, hpiece, hlist, -⟩ := exists_of_mem_letters hword
  obtain ⟨gap, _, hmiddle, hgap, rfl⟩ := mem_many.1 hblanks'
  obtain ⟨more, hbehind, -⟩ := mem_exactly.1 hopen
  obtain rfl : list = piece ++ (gap ++ '(' :: more) := by
    rw [← hstart, hlist, hmiddle, ← hbehind]
  have hon : startsWith "on" startsParenthesis (piece ++ (gap ++ '(' :: (more ++ rest)))
      = true := by
    refine startsWith_append hpiece ?_
    rw [startsParenthesis, trimStart, List.dropWhile_append_of_pos hgap,
      List.dropWhile_cons_of_neg (by decide)]
    rfl
  have hnone := h.noOn
  rw [List.append_assoc, List.append_assoc, List.cons_append, hon] at hnone
  cases hnone

theorem OpensList.dropModifier_distinct (h : OpensList (list ++ rest)) (hsolid : Solid list) :
    dropModifier ("DISTINCT".toList ++ ' ' :: list) = list := by
  have hreads : ReadsTo (andThen (letters "distinct") blanks1) ("DISTINCT".toList ++ ' ' :: list)
      (trimStart list) :=
    (readsTo_letters (by decide) _).andThen (readsTo_blanks1 (by decide) list)
  obtain ⟨stop, hstop, hafter⟩ := hreads []
  rw [hsolid.trimStart_eq] at hafter
  refine (dropModifier_of_head? ?_).trans hafter
  rw [selectModifier_distinct, h.distinctOn_eq_nil hsolid, List.nil_append, hstop]

end Opens

/-- Something stands before the first `FROM` of a text that a list begins. -/
theorem OpensList.untilFrom_ne_nil {text : List Char} (h : OpensList text) :
    untilFrom text ≠ [] := by
  rw [untilFrom]
  split
  · rename_i found hfound
    obtain ⟨before, piece, after, rfl, hisword, -, rfl⟩ :=
      exists_isWord_of_mem_topLevel isLetters_from (List.mem_of_mem_head? hfound)
    rw [List.reverse_reverse]
    -- with nothing before it, the `FROM` would begin the text
    rintro rfl
    have hfrom : startsWith "from" (!startsInWord ·) (piece ++ after) = true :=
      startsWith_append hisword.letters (by simp [startsInWord, hisword.ends])
    rw [show startsWith _ _ (piece ++ after) = false from h.noFrom] at hfrom
    cases hfrom
  · exact h.ne_nil

/-- The list that begins a normal form, without the blanks at its end. -/
theorem OpensList.exists_list {text : List Char} (h : OpensList (normalForm text)) :
    ∃ list tail more, untilFrom (normalForm text) = list ++ tail ∧ Solid list ∧
      (∀ c ∈ tail, isBlank c = true) ∧ normalForm text = list ++ more := by
  obtain ⟨rest, hrest⟩ := untilFrom_prefix (normalForm text)
  obtain ⟨c, others, huntil⟩ := List.exists_cons_of_ne_nil h.untilFrom_ne_nil
  have hhead : (untilFrom (normalForm text)).head? = some c := by
    rw [huntil]
    rfl
  have hc : isBlank c = false := by
    refine @not_isBlank_head text c ?_
    rw [← hrest, List.head?_append, hhead]
    rfl
  obtain ⟨list, tail, hlist, hsolid, htail⟩ := exists_solid hhead hc
  exact ⟨list, tail, tail ++ rest, hlist, hsolid, htail, by rw [← hrest, hlist, List.append_assoc]⟩

theorem normalForm_append_space {text rest : List Char} {preceding : Preceding}
    (hcode : (scan text).mode = .code preceding) (htext : normalForm text ≠ [])
    (hrest : normalForm rest ≠ []) :
    normalForm (text ++ ' ' :: rest) = normalForm text ++ ' ' :: normalForm rest := by
  -- outside quotes all blanks are read alike
  have hsame : scan (text ++ ' ' :: rest) = scan (text ++ '\n' :: rest) := by
    have hstep : step (scan text) ' ' = step (scan text) '\n' := by
      rw [step, step, hcode]
      rfl
    rw [scan_append, scan_append, readFrom_cons, readFrom_cons, hstep]
  rw [normalForm, hsame, ← normalForm, normalForm_across_line_break (by rw [hcode]; rfl),
    if_neg htext, if_neg hrest]

/-! ## Modifiers -/

theorem leads_nil : Leads [] := ⟨by decide +kernel, rfl, rfl⟩

theorem leads_all : Leads ("ALL".toList ++ [' ']) := ⟨by decide +kernel, rfl, rfl⟩

theorem leads_distinct : Leads ("DISTINCT".toList ++ [' ']) := ⟨by decide +kernel, rfl, rfl⟩

theorem Encloses.leads {inside : List Char} (h : Encloses inside) :
    Leads ("DISTINCT ON ".toList ++ ('(' :: (inside ++ [')']) ++ [' '])) where
  noFrom := by
    have hgroup := topLevel_concat_space isLetters_from (by decide) h.closes
      (h.topLevel_eq_nil isLetters_from)
    have hlead : topLevel (wholeWord "from") " DISTINCT ON ".toList = [] := by decide +kernel
    have hcut : Cut " DISTINCT ON ".toList ('(' :: (inside ++ [')']) ++ [' ']) := cut_of_last rfl
    have hsplit := topLevel_append isLetters_from hcut rfl
    rw [hgroup, hlead] at hsplit
    exact hsplit
  closes := by
    have hspace : Nesting.after ('(' :: (inside ++ [')']) ++ [' ']) = .outermost := by
      rw [Nesting.after, List.foldl_append]
      exact congrArg (Nesting.read · ' ') h.closes
    exact hspace
  spaced := by rw [← List.append_assoc, ← List.cons_append, List.getLast?_concat]

/-- A query with something between `SELECT` and its list. -/
def selecting (modifier list tail : String) : String :=
  "SELECT " ++ modifier ++ list ++ " FROM " ++ tail

theorem toList_selecting (modifier list tail : String) :
    (selecting modifier list tail).toList
      = "SELECT".toList ++ ' ' :: (modifier.toList ++ (list ++ " FROM " ++ tail).toList) := by
  simp [selecting, String.toList_append]

theorem projection_eq_of_selectList? {sql other : String}
    (h : selectList? (normalForm sql.toList) = selectList? (normalForm other.toList)) :
    projection sql = projection other := by
  rw [projection, projection, h]

/-- A word in front of a text is written in front of its normal form. -/
theorem normalForm_word {word : String} (hword : word ∈ ["SELECT", "ALL", "DISTINCT", "ON"])
    {rest : List Char} (hrest : normalForm rest ≠ []) :
    normalForm (word.toList ++ ' ' :: rest) = word.toList ++ ' ' :: normalForm rest := by
  have hall : ["SELECT", "ALL", "DISTINCT", "ON"].all (fun word =>
      (scan word.toList).mode == .code .word && normalForm word.toList == word.toList &&
        !word.toList.isEmpty) = true := by
    decide +kernel
  have hone := List.all_eq_true.1 hall word hword
  simp only [Bool.and_eq_true, beq_iff_eq, Bool.not_eq_true', List.isEmpty_eq_false_iff] at hone
  obtain ⟨⟨hcode, hform⟩, hne⟩ := hone
  rw [normalForm_append_space hcode (by rwa [hform]) hrest, hform]

theorem normalForm_word_ne_nil {word : String} (hword : word ∈ ["SELECT", "ALL", "DISTINCT", "ON"])
    {rest : List Char} (hrest : normalForm rest ≠ []) :
    normalForm (word.toList ++ ' ' :: rest) ≠ [] := by
  rw [normalForm_word hword hrest]
  simp

theorem normalForm_distinctOn {inside group rest : List Char} {preceding : Preceding}
    (hcode : (scan group).mode = .code preceding)
    (hgroup : normalForm group = '(' :: (inside ++ [')'])) (hrest : normalForm rest ≠ []) :
    normalForm ("SELECT".toList ++ ' ' :: ("DISTINCT".toList ++ ' ' ::
        ("ON".toList ++ ' ' :: (group ++ ' ' :: rest))))
      = "SELECT".toList ++ (' ' :: ("DISTINCT ON ".toList ++ ('(' :: (inside ++ [')']) ++ [' ']))
        ++ normalForm rest) := by
  have hbehind := normalForm_append_space hcode (by simp [hgroup]) hrest
  have hne : normalForm (group ++ ' ' :: rest) ≠ [] := by simp [hbehind]
  have hon := normalForm_word_ne_nil (show "ON" ∈ _ by decide) hne
  have hdistinct := normalForm_word_ne_nil (show "DISTINCT" ∈ _ by decide) hon
  rw [normalForm_word (by decide) hdistinct, normalForm_word (by decide) hon,
    normalForm_word (by decide) hne, hbehind, hgroup]
  simp

theorem OpensList.exists_selectList? {rest : List Char} (h : OpensList (normalForm rest)) :
    ∃ text, Solid text ∧
      selectList? (normalForm ("SELECT".toList ++ ' ' :: rest)) = some text ∧
      selectList? (normalForm ("SELECT".toList ++ ' ' :: ("ALL".toList ++ ' ' :: rest)))
        = some text ∧
      selectList? (normalForm ("SELECT".toList ++ ' ' :: ("DISTINCT".toList ++ ' ' :: rest)))
        = some text ∧
      ∀ expressions, IsExpression expressions →
        selectList? (normalForm ("SELECT".toList ++ ' ' :: ("DISTINCT".toList ++ ' ' ::
            ("ON".toList ++ ' ' :: ('(' :: (expressions ++ [')']) ++ ' ' :: rest)))))
          = some (trimStart (behindClose
              (normalForm ('(' :: (expressions ++ [')'])) ++ ' ' :: text))) := by
  obtain ⟨text, tail, more, huntil, hsolid, htail, hform⟩ := h.exists_list
  have hopens : OpensList (text ++ more) := hform ▸ h
  obtain ⟨first, others, htext, hfirst⟩ := hsolid.1
  have hmem : first ∈ text := htext ▸ List.mem_cons_self
  have htrim := trim_ne_nil_of_mem hmem hfirst
  have hword : ∀ {word}, word ∈ ["SELECT", "ALL", "DISTINCT", "ON"] →
    normalForm (word.toList ++ ' ' :: rest) ≠ [] :=
      fun hword => normalForm_word_ne_nil hword h.ne_nil
  refine ⟨text, hsolid, ?_, ?_, ?_, fun expressions hexpressions => ?_⟩
  · rw [normalForm_word (by decide) h.ne_nil]
    exact leads_nil.selectList?_eq_some huntil hsolid htail hopens.dropModifier_eq htrim
  · rw [normalForm_word (by decide) (hword (by decide)), normalForm_word (by decide) h.ne_nil]
    exact leads_all.selectList?_word huntil (hsolid.behind (by decide)) htail
      (dropModifier_all hsolid) htrim
  · rw [normalForm_word (by decide) (hword (by decide)), normalForm_word (by decide) h.ne_nil]
    exact leads_distinct.selectList?_word huntil (hsolid.behind (by decide)) htail
      (hopens.dropModifier_distinct hsolid) htrim
  · obtain ⟨inside, hgroup, hencloses, ⟨preceding, hcode⟩, -⟩ := hexpressions.exists_group
    rw [normalForm_distinctOn hcode hgroup h.ne_nil]
    -- the parenthesis that opens the group is not the one that is looked for
    have hbehind : behindClose ('(' :: (inside ++ [')']) ++ ' ' :: text)
        = behindClose (inside ++ ')' :: ' ' :: text) := by
      simp [behindClose]
    rw [hgroup, hbehind]
    refine hencloses.leads.selectList?_eq_some huntil (hsolid.behind ?_) htail ?_ ?_
    · rfl
    · have hdrop := @dropModifier_distinctOn (inside ++ ')' :: ' ' :: text) (by simp)
      simpa using hdrop
    · obtain ⟨front, hfront⟩ := exists_behindClose inside (' ' :: text)
      rw [hfront]
      exact trim_ne_nil_of_mem (mem_trimStart (by simp [hmem]) hfirst) hfirst

theorem IsExpression.behindClose_group {text : List Char} (h : IsExpression text)
    (hnone : ')' ∉ text) (rest : List Char) :
    behindClose (normalForm ('(' :: (text ++ [')'])) ++ rest) = rest := by
  obtain ⟨inside, hgroup, -, -, hclose⟩ := h.exists_group
  have hinside : ')' ∉ '(' :: inside := by simpa using hclose hnone
  have hbehind := behindClose_append hinside rest
  rw [hgroup, ← List.cons_append, List.append_assoc]
  exact hbehind

/-- **Modifiers are dropped up to the first closing parenthesis.** `ALL` and `DISTINCT` make no
difference to the items of a list. Behind `DISTINCT ON` the list begins where the first parenthesis
is closed, so there is no difference either if the expressions close none of their own. -/
theorem modifiers_end_at_first_close {list tail expressions : String}
    (hlist : OpensList (normalForm (list ++ " FROM " ++ tail).toList))
    (hexpressions : IsExpression expressions.toList) :
    projection (selecting "ALL " list tail) = projection (selecting "" list tail) ∧
      projection (selecting "DISTINCT " list tail) = projection (selecting "" list tail) ∧
      (∃ text, selectList? (normalForm (selecting "" list tail).toList) = some text ∧
        selectList?
            (normalForm (selecting ("DISTINCT ON (" ++ expressions ++ ") ") list tail).toList)
          = some (trimStart (behindClose
              (normalForm ("(" ++ expressions ++ ")").toList ++ ' ' :: text)))) ∧
      (')' ∉ expressions.toList →
        projection (selecting ("DISTINCT ON (" ++ expressions ++ ") ") list tail)
          = projection (selecting "" list tail)) := by
  obtain ⟨text, hsolid, hplain, hall, hdistinct, hon⟩ := hlist.exists_selectList?
  have hgroup : ("(" ++ expressions ++ ")").toList = '(' :: (expressions.toList ++ [')']) := by
    simp [String.toList_append]
  have hmodifier : ∀ rest, ("DISTINCT ON (" ++ expressions ++ ") ").toList ++ rest
      = "DISTINCT".toList ++ ' ' :: ("ON".toList ++ ' ' ::
          ('(' :: (expressions.toList ++ [')']) ++ ' ' :: rest)) := by
    intro rest
    simp [String.toList_append]
  have hbehind := hon expressions.toList hexpressions
  refine ⟨?_, ?_, ⟨text, ?_, ?_⟩, fun hnone => ?_⟩
  · refine projection_eq_of_selectList? ?_
    rw [toList_selecting, toList_selecting, show "ALL ".toList = "ALL".toList ++ [' '] by decide,
      List.append_assoc]
    exact hall.trans hplain.symm
  · refine projection_eq_of_selectList? ?_
    rw [toList_selecting, toList_selecting,
      show "DISTINCT ".toList = "DISTINCT".toList ++ [' '] by decide, List.append_assoc]
    exact hdistinct.trans hplain.symm
  · rw [toList_selecting]
    exact hplain
  · rw [toList_selecting, hmodifier, hgroup]
    exact hbehind
  · rw [hexpressions.behindClose_group hnone] at hbehind
    refine projection_eq_of_selectList? ?_
    have htext : trimStart (' ' :: text) = text := hsolid.trimStart_eq
    rw [toList_selecting, toList_selecting, hmodifier, hbehind, htext]
    exact hplain.symm

theorem matched_of_all {text : List Char} (h : text.all (fun c => c != '(' && c != ')') = true) :
    Matched text := by
  induction text with
  | nil => exact .nil
  | cons c rest ih =>
      simp only [List.all_cons, Bool.and_eq_true, bne_iff_ne] at h
      exact .other h.1.1 h.1.2 (ih (by simpa using h.2))

/-- Names in quotes among the expressions, and calls in the list, make no difference. -/
theorem distinctOn_names_is_dropped :
    (OpensList (normalForm ("lower(name) AS \"from\"" ++ " FROM " ++ "t").toList) ∧
        IsExpression "a, \"b -- c\"".toList) ∧
      projection
          (selecting ("DISTINCT ON (" ++ "a, \"b -- c\"" ++ ") ") "lower(name) AS \"from\"" "t")
        = projection (selecting "" "lower(name) AS \"from\"" "t") := by
  have hlist : OpensList (normalForm ("lower(name) AS \"from\"" ++ " FROM " ++ "t").toList) := by
    decide +kernel
  have hexpressions : IsExpression "a, \"b -- c\"".toList :=
    ⟨by decide +kernel, by decide +kernel, matched_of_all (by decide +kernel)⟩
  obtain ⟨-, -, -, hsame⟩ := modifiers_end_at_first_close hlist hexpressions
  exact ⟨⟨hlist, hexpressions⟩, hsame (by decide)⟩

/-- A call among the expressions closes the modifier too early, and what is left of the expressions
is taken for items. The words `FROM` and `ON` in front of a list are not passed over either. -/
theorem call_ends_the_modifier :
    IsExpression "lower(a), b".toList ∧
      projection "SELECT DISTINCT ON (lower(a), b) id FROM t" = some [.complex "", .column "id"] ∧
      projection "SELECT id FROM t" = some [.column "id"] ∧
      projection "SELECT ALL from u FROM t" ≠ projection "SELECT from u FROM t" ∧
      projection "SELECT DISTINCT on (a), b FROM t" ≠ projection "SELECT on (a), b FROM t" := by
  have houtside : outsideQuotes "lower(a), b".toList
      = "lower".toList ++ '(' :: ("a".toList ++ ')' :: ", b".toList) := by
    decide +kernel
  have hmatched : Matched (outsideQuotes "lower(a), b".toList) := by
    rw [houtside]
    exact (matched_of_all (by decide)).append (.pair (matched_of_all (by decide))
      (matched_of_all (by decide)))
  exact ⟨⟨by decide +kernel, by decide +kernel, hmatched⟩, by decide +kernel, by decide +kernel,
    by decide +kernel, by decide +kernel⟩

end RepoPolicy.Sql
