import RepoPolicy.Proofs.Sql.Grammar.SelectLists
import RepoPolicy.Proofs.Sql.ItemNames
import RepoPolicy.Proofs.Text.WordSearch

set_option autoImplicit false

/-! # Finding a select list by its marks

Parentheses, commas and the words `SELECT` and `FROM` are looked for in the characters of a normal
form. They are where the marks have them if no other mark looks like one of them (`Mark.isPlain`). The
items of a list are then the pieces between the commas of its marks (`splitItems_written`), and the
list is what stands between the two words (`selectList?_written`). -/

namespace RepoPolicy.Sql

open RepoPolicy.Text RepoPolicy.Text.Scanner Grammar

/-! ## Marks that look like what they are -/

/-- The symbols that nest or separate. -/
def separators : List String := ["(", ")", ","]

/-- Whether no part of a mark looks like a symbol that nests or separates, unless it is one or stands
in double quotes, and no symbol looks like a part of a word. -/
def Mark.isPlain (mark : Mark) : Bool :=
  !mark.token.isWordSymbol && (separators.any (mark.token == .symbol ·) ||
    mark.text.head? == some '"' || mark.text.all fun c => !(['(', ')', ','].contains c))

inductive Plain (mark : Mark) : Prop where
  | separator {text : String} (hmem : text ∈ separators) (htoken : mark.token = .symbol text)
      (htext : mark.text = text.toList)
  | name {body : List Char} (htoken : ∀ text ∈ separators, mark.token ≠ .symbol text)
      (hbody : Doubled '"' body) (htext : mark.text = '"' :: (body ++ ['"']))
  | code (htoken : ∀ text ∈ separators, mark.token ≠ .symbol text)
      (htext : ∀ c ∈ mark.text, c ∉ ['"', '(', ')', ','])

theorem Legible.readToken {mark : Mark} {more : List Mark} (h : Legible (mark :: more)) :
    ∃ c rest, mark.text = c :: rest ∧ readToken c rest = .ok (some mark.token.emptied, []) := by
  cases h with
  | cons _ hread _ =>
      obtain ⟨c, rest, htext, hone⟩ := hread [] List.nil_prefix
      rw [List.flatMap_nil, List.append_nil] at hone
      exact ⟨c, rest, htext, hone⟩

theorem plain_of_isPlain {mark : Mark} {more : List Mark} (h : Legible (mark :: more))
    (hplain : mark.isPlain = true) : Plain mark := by
  obtain ⟨c, rest, htext, hread⟩ := h.readToken
  by_cases hseparator : ∃ text ∈ separators, mark.token = .symbol text
  · obtain ⟨text, hmem, htoken⟩ := hseparator
    have hsingle : ∀ text ∈ separators, text.length = 1 ∧ text ≠ "." := by decide
    rw [htoken] at hread
    obtain ⟨hc, hnil⟩ := eq_of_readToken_symbol hread (hsingle text hmem).1 (hsingle text hmem).2
    exact .separator hmem htoken (by rw [htext, ← hc, hnil])
  · have htoken : ∀ text ∈ separators, mark.token ≠ .symbol text :=
      fun text hmem htoken => hseparator ⟨text, hmem, htoken⟩
    have hmark := h.markText mark List.mem_cons_self
    generalize hwhole : mark.text = whole at hmark
    cases hmark with
    | name hbody => exact .name htoken hbody hwhole
    | @code d others hcode =>
        refine .code htoken fun e he => ?_
        rw [hwhole] at he
        -- the mark is no name in quotes and no separator, so it holds none of the other characters
        have hhead : mark.text.head? ≠ some '"' := by
          rw [hwhole]
          simpa using (hcode d List.mem_cons_self).2
        have hseparates : separators.any (mark.token == .symbol ·) = false := by
          simpa using htoken
        simp only [Mark.isPlain, Bool.and_eq_true, hseparates, Bool.false_or, Bool.or_eq_true,
          beq_iff_eq, hhead, false_or, List.all_eq_true] at hplain
        have hother := hplain.2 e (hwhole ▸ he)
        simp only [List.contains_eq_mem, Bool.not_eq_true', decide_eq_false_iff_not] at hother
        rw [List.mem_cons, not_or]
        exact ⟨(hcode e he).2, hother⟩

/-! ## Nesting -/

theorem nest_of_not_separator {token : Token} (h : ∀ text ∈ separators, token ≠ .symbol text)
    (depth : Nat) : token.nest depth = depth := by
  unfold Token.nest
  split
  · exact absurd rfl (h "(" (by decide))
  · exact absurd rfl (h ")" (by decide))
  · rfl

theorem read_of_other {c : Char} (h : c ∉ ['"', '(', ')']) (nesting : Nesting) :
    nesting.read c = nesting := by
  simp only [List.mem_cons, List.not_mem_nil, or_false, not_or] at h
  simp [Nesting.read, h]

theorem foldl_read_of_others {text : List Char} (h : ∀ c ∈ text, c ∉ ['"', '(', ')', ','])
    (nesting : Nesting) : text.foldl Nesting.read nesting = nesting := by
  induction text with
  | nil => rfl
  | cons c rest ih =>
      have hc := h c List.mem_cons_self
      simp only [List.mem_cons, List.not_mem_nil, or_false, not_or] at hc
      rw [List.foldl_cons, read_of_other (by simp [hc]), ih fun d hd => h d (List.mem_cons_of_mem _ hd)]

/-- A plain mark nests like its token. -/
theorem Plain.foldl_read {mark : Mark} (h : Plain mark) (depth : Nat) :
    mark.text.foldl Nesting.read ⟨depth, false⟩ = ⟨mark.token.nest depth, false⟩ := by
  cases h with
  | @separator text hmem htoken htext =>
      rw [htext, htoken]
      simp only [separators, List.mem_cons, List.not_mem_nil, or_false] at hmem
      rcases hmem with rfl | rfl | rfl <;> rfl
  | @name body htoken hbody htext =>
      have hopen : (⟨depth, false⟩ : Nesting).read '"' = ⟨depth, true⟩ := rfl
      rw [htext, List.foldl_cons, hopen, List.foldl_append, hbody.foldl_read,
        nest_of_not_separator htoken]
      rfl
  | code htoken htext => rw [foldl_read_of_others htext, nest_of_not_separator htoken]

theorem Plain.foldl_write {mark : Mark} (h : Plain mark) (depth : Nat) :
    mark.write.foldl Nesting.read ⟨depth, false⟩ = ⟨mark.token.nest depth, false⟩ := by
  rw [Mark.write]
  split
  · exact h.foldl_read depth
  · exact h.foldl_read depth

theorem plain_of_all {list : List Mark} (h : Legible list) (hplain : list.all Mark.isPlain = true) :
    ∀ mark ∈ list, Plain mark := by
  induction h with
  | nil => simp
  | @cons mark more htext hread hmore ih =>
      rw [List.all_cons, Bool.and_eq_true] at hplain
      rintro other (_ | ⟨_, hmem⟩)
      · exact plain_of_isPlain (.cons htext hread hmore) hplain.1
      · exact ih hplain.2 other hmem

theorem foldl_read_flatMap {list : List Mark} (h : ∀ mark ∈ list, Plain mark) (depth : Nat) :
    (list.flatMap Mark.write).foldl Nesting.read ⟨depth, false⟩
      = ⟨(list.map Mark.token).foldl Token.nest depth, false⟩ := by
  induction list generalizing depth with
  | nil => rfl
  | cons mark more ih =>
      rw [List.flatMap_cons, List.foldl_append, (h mark List.mem_cons_self).foldl_write,
        ih fun other hother => h other (List.mem_cons_of_mem _ hother)]
      rfl

theorem foldl_read_written {list : List Mark} (h : ∀ mark ∈ list, Plain mark) (depth : Nat) :
    (written list).foldl Nesting.read ⟨depth, false⟩
      = ⟨(list.map Mark.token).foldl Token.nest depth, false⟩ := by
  cases list with
  | nil => rfl
  | cons mark more =>
      rw [written, List.foldl_append, (h mark List.mem_cons_self).foldl_read,
        foldl_read_flatMap fun other hother => h other (List.mem_cons_of_mem _ hother)]
      rfl

/-! ## Items -/

/-- No comma in the text separates, when it is read in this state. -/
def Passes (nesting : Nesting) (text : List Char) : Prop :=
  ∀ front rest, text = front ++ ',' :: rest →
    (front.foldl Nesting.read nesting).quoted = true ∨ (front.foldl Nesting.read nesting).depth ≠ 0

theorem splitFrom_append {nesting : Nesting} {text : List Char} (h : Passes nesting text)
    (piece rest : List Char) :
    splitFrom nesting piece (text ++ rest)
      = splitFrom (text.foldl Nesting.read nesting) (text.reverse ++ piece) rest := by
  induction text generalizing nesting piece with
  | nil => rfl
  | cons c text ih =>
      -- a comma is in quotes or in parentheses here, and any other character never separates
      have hc : (c == ',' && !nesting.quoted && nesting.depth == 0) = false := by
        by_cases hcomma : c = ','
        · subst hcomma
          rcases h [] text rfl with hquoted | hdepth
          · simp [show nesting.quoted = true from hquoted]
          · simp [show nesting.depth ≠ 0 from hdepth]
        · simp [hcomma]
      have hpasses : Passes (nesting.read c) text := by
        intro front rest htext
        exact h (c :: front) rest (by rw [htext]; rfl)
      rw [List.cons_append, splitFrom, if_neg (by simp [hc]), ih hpasses]
      simp

theorem Passes.of_not_mem {nesting : Nesting} {text : List Char} (h : ',' ∉ text) :
    Passes nesting text :=
  fun front rest htext => absurd (by simp [htext]) h

/-- A plain mark separates if it is a comma outside parentheses, and not otherwise. -/
theorem Plain.passes {mark : Mark} (h : Plain mark) {depth : Nat}
    (hcomma : mark.token = .symbol "," → depth ≠ 0) : Passes ⟨depth, false⟩ mark.text := by
  cases h with
  | @separator text hmem htoken htext =>
      intro front rest hsplit
      rw [htext] at hsplit
      simp only [separators, List.mem_cons, List.not_mem_nil, or_false] at hmem
      rcases hmem with rfl | rfl | rfl
      · exact absurd (show ',' ∈ "(".toList by rw [hsplit]; simp) (by decide)
      · exact absurd (show ',' ∈ ")".toList by rw [hsplit]; simp) (by decide)
      · cases front with
        | nil => exact .inr (hcomma htoken)
        | cons c front =>
            have hlength := congrArg List.length hsplit
            simp at hlength
  | @name body htoken hbody htext =>
      intro front rest hsplit
      left
      rw [htext] at hsplit
      cases front with
      | nil => exact absurd (List.cons.inj hsplit).1 (by decide)
      | cons c front =>
          obtain ⟨rfl, hinside⟩ := List.cons.inj hsplit
          rw [List.foldl_cons]
          -- the comma is neither of the quotes around the name, so it stands between them
          rcases List.append_eq_append_iff.1 hinside with ⟨more, rfl, hend⟩ | ⟨more, rfl, hmore⟩
          · cases more with
            | nil => exact absurd (List.cons.inj hend).1 (by decide)
            | cons e more =>
                have hlength := congrArg List.length hend
                simp at hlength
          · cases more with
            | nil => exact absurd (List.cons.inj hmore).1 (by decide)
            | cons e more =>
                obtain ⟨rfl, -⟩ := List.cons.inj hmore
                exact hbody.quoted_of_append rfl (by decide) _ rfl
  | code htoken htext => exact .of_not_mem fun hmem => absurd (by simp) (htext ',' hmem)

theorem trim_append_blank {c : Char} (hc : isBlank c = true) (text : List Char) :
    trim (text ++ [c]) = trim text := by
  rw [trim, trimStart, List.dropWhile_append]
  split
  · rename_i hblank
    rw [trim, trimStart, List.isEmpty_iff.1 hblank, List.dropWhile_cons_of_pos hc, List.dropWhile_nil]
  · rw [trim, trimStart, trimEnd, trimEnd, List.reverse_append, List.reverse_singleton,
      List.singleton_append, List.dropWhile_cons_of_pos hc]

theorem Plain.text_of_comma {mark : Mark} (h : Plain mark) (htoken : mark.token = .symbol ",") :
    mark.text = [','] := by
  cases h with
  | separator _ htoken' htext =>
      obtain rfl := Token.symbol.inj (htoken'.symm.trans htoken)
      exact htext
  | name hother _ _ => exact absurd htoken (hother "," (by decide))
  | code hother _ => exact absurd htoken (hother "," (by decide))

/-- A comma outside parentheses ends a piece, and the space before it does not count. -/
theorem map_trim_splitFrom_comma {mark : Mark} (h : mark.text = [',']) (piece rest : List Char) :
    (splitFrom ⟨0, false⟩ piece (mark.write ++ rest)).map trim
      = trim piece.reverse :: (splitFrom ⟨0, false⟩ [] rest).map trim := by
  have hcomma : ∀ piece, splitFrom ⟨0, false⟩ piece (',' :: rest)
      = piece.reverse :: splitFrom ⟨0, false⟩ [] rest := fun _ => rfl
  rw [Mark.write, h]
  split
  · have hspace : splitFrom ⟨0, false⟩ piece (' ' :: ',' :: rest)
        = splitFrom ⟨0, false⟩ (' ' :: piece) (',' :: rest) := rfl
    rw [List.cons_append, List.singleton_append, hspace, hcomma, List.map_cons, List.reverse_cons,
      trim_append_blank (by decide)]
  · rw [List.singleton_append, hcomma, List.map_cons]

theorem Passes.write {mark : Mark} {nesting : Nesting} (h : Passes nesting mark.text) :
    Passes nesting mark.write := by
  rw [Mark.write]
  split
  · intro front rest htext
    cases front with
    | nil => exact absurd (List.cons.inj htext).1 (by decide)
    | cons c front =>
        obtain ⟨rfl, hrest⟩ := List.cons.inj htext
        have hspace : nesting.read ' ' = nesting := read_of_other (by decide) nesting
        rw [List.foldl_cons, hspace]
        exact h front rest hrest
  · exact h

/-- The items of a text are what is written for the pieces between the commas of its marks. `piece`
is what the first one holds already. -/
theorem map_trim_splitFrom {list : List Mark} (h : ∀ mark ∈ list, Plain mark) (depth : Nat)
    (piece : List Char) :
    ∃ first others, pieces Mark.token depth list = first :: others ∧
      (splitFrom ⟨depth, false⟩ piece (list.flatMap Mark.write)).map trim
        = trim (piece.reverse ++ first.flatMap Mark.write)
          :: others.map fun other => trim (other.flatMap Mark.write) := by
  induction list generalizing depth piece with
  | nil => exact ⟨[], [], rfl, by simp [splitFrom]⟩
  | cons mark more ih =>
      have hmark := h mark List.mem_cons_self
      have hmore := fun other hother => h other (List.mem_cons_of_mem mark hother)
      -- a comma outside parentheses ends the piece; any other mark goes on with it
      by_cases hcomma : mark.token = .symbol "," ∧ depth = 0
      · obtain ⟨htoken, rfl⟩ := hcomma
        obtain ⟨first, others, hpieces, hitems⟩ := ih hmore 0 []
        refine ⟨[], first :: others, ?_, ?_⟩
        · rw [pieces, if_pos (by simp [htoken]), hpieces]
        · rw [List.flatMap_cons, map_trim_splitFrom_comma (hmark.text_of_comma htoken), hitems]
          simp
      · have hseparates : mark.token = .symbol "," → depth ≠ 0 :=
          fun htoken hdepth => hcomma ⟨htoken, hdepth⟩
        obtain ⟨first, others, hpieces, hitems⟩ :=
          ih hmore (mark.token.nest depth) (mark.write.reverse ++ piece)
        refine ⟨mark :: first, others, ?_, ?_⟩
        · rw [pieces, if_neg (by simpa using hseparates), hpieces]
          rfl
        · rw [List.flatMap_cons, splitFrom_append (hmark.passes hseparates).write, hmark.foldl_write,
            hitems]
          simp

theorem mem_of_mem_pieces {α : Type} {token : α → Token} {depth : Nat} {list piece : List α}
    (h : piece ∈ pieces token depth list) : ∃ front rest, list = front ++ (piece ++ rest) := by
  -- the first piece is where the list begins
  suffices hfirst : ∃ first others, pieces token depth list = first :: others ∧
      (∃ rest, list = first ++ rest) ∧
        ∀ other ∈ others, ∃ front rest, list = front ++ (other ++ rest) by
    obtain ⟨first, others, hpieces, hprefix, hothers⟩ := hfirst
    rw [hpieces] at h
    rcases List.mem_cons.1 h with rfl | h
    · obtain ⟨rest, hrest⟩ := hprefix
      exact ⟨[], rest, hrest⟩
    · exact hothers piece h
  clear h
  induction list generalizing depth with
  | nil => exact ⟨[], [], rfl, ⟨[], rfl⟩, by simp⟩
  | cons item list ih =>
      have hmore : ∀ {other rest front : List α}, list = front ++ (other ++ rest) →
          item :: list = (item :: front) ++ (other ++ rest) := fun h => congrArg (List.cons item) h
      rw [pieces]
      split
      · obtain ⟨first, others, hpieces, ⟨rest, hrest⟩, hothers⟩ := @ih depth
        rw [hpieces]
        refine ⟨[], first :: others, rfl, ⟨item :: list, rfl⟩, ?_⟩
        rintro other (_ | ⟨_, hmem⟩)
        · exact ⟨[item], rest, congrArg (List.cons item) hrest⟩
        · obtain ⟨front, rest', hother⟩ := hothers other hmem
          exact ⟨item :: front, rest', hmore hother⟩
      · obtain ⟨first, others, hpieces, ⟨rest, hrest⟩, hothers⟩ := @ih ((token item).nest depth)
        rw [hpieces]
        refine ⟨item :: first, others, rfl, ⟨rest, congrArg (List.cons item) hrest⟩, ?_⟩
        intro other hmem
        obtain ⟨front, rest', hother⟩ := hothers other hmem
        exact ⟨item :: front, rest', hmore hother⟩

theorem trim_written {list : List Mark} (h : ∀ mark ∈ list, MarkText mark.text) :
    trim (written list) = written list := by
  cases list with
  | nil => rfl
  | cons mark more =>
      have hsolid := solid_written h (List.cons_ne_nil mark more)
      rw [← List.append_nil (written (mark :: more))]
      exact (hsolid.trim_append (by simp)).trans (List.append_nil _).symm

/-- **The items of a list of marks are what is written for the pieces between its commas.** -/
theorem splitItems_written {list : List Mark} (hlegible : Legible list)
    (hplain : ∀ mark ∈ list, Plain mark) :
    splitItems (written list) = (pieces Mark.token 0 list).map written := by
  have hpiece : ∀ piece ∈ pieces Mark.token 0 list, ∀ mark ∈ piece, MarkText mark.text := by
    intro piece hmem mark hmark
    obtain ⟨front, rest, rfl⟩ := mem_of_mem_pieces hmem
    exact hlegible.markText mark (by simp [hmark])
  cases list with
  | nil => rfl
  | cons mark more =>
      have hmark := hplain mark List.mem_cons_self
      have hmore := fun other hother => hplain other (List.mem_cons_of_mem mark hother)
      have hothers : ∀ others : List (List Mark),
          (∀ other ∈ others, ∀ mark ∈ other, MarkText mark.text) →
          others.map (fun other => trim (other.flatMap Mark.write)) = others.map written :=
        fun others h => List.map_congr_left fun other hmem => trim_flatMap (h other hmem)
      rw [splitItems, written]
      -- the first mark is written without its space, so it is split off by hand
      by_cases hcomma : mark.token = .symbol ","
      · obtain ⟨first, others, hpieces, hitems⟩ := map_trim_splitFrom hmore 0 []
        have hlist : pieces Mark.token 0 (mark :: more) = [] :: first :: others := by
          rw [pieces, if_pos (by simp [hcomma]), hpieces]
        rw [hlist] at hpiece ⊢
        have hsplit : (splitFrom .outermost [] (mark.text ++ more.flatMap Mark.write)).map trim
            = [] :: (splitFrom ⟨0, false⟩ [] (more.flatMap Mark.write)).map trim := by
          rw [hmark.text_of_comma hcomma]
          rfl
        have htail := hothers (first :: others) fun other hmem =>
          hpiece other (List.mem_cons_of_mem _ hmem)
        rw [hsplit, hitems]
        exact congrArg (List.cons []) htail
      · obtain ⟨first, others, hpieces, hitems⟩ :=
          map_trim_splitFrom hmore (mark.token.nest 0) (mark.text.reverse ++ [])
        have hlist : pieces Mark.token 0 (mark :: more) = (mark :: first) :: others := by
          rw [pieces, if_neg (by simp [hcomma]), hpieces]
          rfl
        rw [hlist] at hpiece ⊢
        have hpasses : Passes .outermost mark.text := hmark.passes fun htoken => absurd htoken hcomma
        have hnest : mark.text.foldl Nesting.read .outermost = ⟨mark.token.nest 0, false⟩ :=
          hmark.foldl_read 0
        have hhead := trim_written (hpiece (mark :: first) List.mem_cons_self)
        have htail := hothers others fun other hmem => hpiece other (List.mem_cons_of_mem _ hmem)
        rw [splitFrom_append hpasses, hnest, hitems, htail, List.append_nil, List.reverse_reverse]
        exact congrArg (· :: others.map written) hhead

/-! ## Words outside parentheses -/

section TopLevel

variable {word : String}

theorem atTopLevel_behind {front : List Char} (hnest : front.foldl Nesting.read .outermost = .outermost)
    (place : Place) : atTopLevel (place.behind front.reverse) = atTopLevel place := by
  have hplace : Nesting.atPlace (place.behind front.reverse) = Nesting.atPlace place := by
    rw [Nesting.atPlace, Place.behind, List.foldr_append, List.foldr_reverse]
    exact congrArg (fun start => place.before.foldr (fun c nesting => nesting.read c) start) hnest
  rw [atTopLevel, hplace, atTopLevel]

/-- The words of a text outside parentheses are those of its parts, if the first part closes what it
opens. -/
theorem topLevel_append (hword : IsLetters word) {first second : List Char} (hcut : Cut first second)
    (hnest : first.foldl Nesting.read .outermost = .outermost) :
    topLevel (wholeWord word) (first ++ second)
      = (topLevel (wholeWord word) first).map (Occurrence.extend second)
        ++ (topLevel (wholeWord word) second).map (Occurrence.behind first.reverse) := by
  have hbehind : ((fun found : Occurrence => atTopLevel found.start) ∘ Occurrence.behind first.reverse)
      = fun found => atTopLevel found.start :=
    funext fun found => atTopLevel_behind hnest found.start
  rw [topLevel, occurrences_wholeWord_append hword hcut, List.filter_append, List.filter_map,
    List.filter_map, hbehind]
  rfl

/-- A word at the front of a text is the first one outside parentheses. -/
theorem exists_topLevel_of_word (hword : IsLetters word) {piece rest : List Char}
    (hpiece : piece.map fold = word.toList) (hrest : rest.head?.any isWordChar = false) :
    ∃ more, topLevel (wholeWord word) (piece ++ rest)
      = ⟨⟨[], piece ++ rest⟩, ⟨piece.reverse, rest⟩⟩ :: more := by
  obtain ⟨c, others, rfl⟩ := List.exists_cons_of_ne_nil (piece_ne_nil hword hpiece)
  have hc := isWordChar_of_piece hword hpiece c List.mem_cons_self
  have hstop : (wholeWord word ⟨[], c :: others ++ rest⟩).head?
      = some ⟨(c :: others).reverse ++ [], rest⟩ := by
    refine head?_wholeWord.2 (mem_wholeWord.2 ⟨?_, ?_, c :: others, rest, hpiece, rfl, rfl⟩)
    · simp [Place.atWordEdge, hc]
    · have hleft := head?_reverse_append hword hpiece []
      simp only [Place.atWordEdge, hleft, hrest]
      rfl
  rw [topLevel, occurrences, List.cons_append, occurrencesFrom, ← List.cons_append, hstop,
    List.append_nil]
  exact ⟨_, List.filter_cons_of_pos rfl⟩

theorem cut_of_last {first second : List Char} (h : first.getLast?.any isWordChar = false) :
    Cut first second := by
  intro hword
  rw [h] at hword
  cases hword

theorem cut_of_head {first second : List Char} (h : second.head?.any isWordChar = false) :
    Cut first second :=
  fun _ => h

theorem topLevel_space_cons (hword : IsLetters word) (hspace : topLevel (wholeWord word) [' '] = [])
    {text : List Char} (h : topLevel (wholeWord word) text = []) :
    topLevel (wholeWord word) (' ' :: text) = [] := by
  have hcut : Cut [' '] text := cut_of_last (by decide)
  have hsplit := topLevel_append hword hcut rfl
  rw [h, hspace] at hsplit
  exact hsplit

theorem topLevel_concat_space (hword : IsLetters word)
    (hspace : topLevel (wholeWord word) [' '] = []) {text : List Char}
    (hnest : text.foldl Nesting.read .outermost = .outermost)
    (h : topLevel (wholeWord word) text = []) : topLevel (wholeWord word) (text ++ [' ']) = [] := by
  rw [topLevel_append hword (cut_of_head (by decide)) hnest, h, hspace]
  rfl

end TopLevel

theorem isLetters_select : IsLetters "select" := ⟨by decide, by decide⟩

theorem isLetters_from : IsLetters "from" := ⟨by decide, by decide⟩

/-! ## Keywords -/

theorem isKeyword_emptied (token : Token) (keyword : String) :
    token.emptied.isKeyword keyword = token.isKeyword keyword := by
  cases token <;> rfl

theorem isWordSymbol_emptied (token : Token) : token.emptied.isWordSymbol = token.isWordSymbol := by
  cases token <;> rfl

/-- A keyword is written with letters that fold to it. -/
theorem Legible.map_fold_of_keyword {mark : Mark} {more : List Mark} (h : Legible (mark :: more))
    {keyword word : String} (hkeyword : mark.token.isKeyword keyword = true) (hne : keyword ≠ "")
    (hbasic : ∀ u ∈ keyword.toList, u ≠ 'I' ∧ u.toNat < 128)
    (hpairs : ∀ pair ∈ keyword.toList.zip keyword.toList.tail, pair ∉ joinedLetters)
    (hword : keyword.toList.map Char.toLower = word.toList) :
    mark.text.map fold = word.toList := by
  obtain ⟨c, rest, htext, hread⟩ := h.readToken
  have hemptied := (isKeyword_emptied mark.token keyword).trans hkeyword
  obtain ⟨-, hleft, hletters⟩ := of_readToken_keyword hread hemptied hne
  have htake : rest.takeWhile continuesIdentifier = rest := by
    have hsplit := List.takeWhile_append_dropWhile (p := continuesIdentifier) (l := rest)
    rwa [← hleft, List.append_nil] at hsplit
  rw [htake] at hletters
  rw [htext, map_fold_of_keywordLetters hbasic hpairs hletters, hword]

/-- No word goes on behind a keyword. -/
theorem Legible.head?_of_keyword {mark : Mark} {more : List Mark} (h : Legible (mark :: more))
    {keyword : String} (hkeyword : mark.token.isKeyword keyword = true) (hne : keyword ≠ "")
    (hsymbol : ∀ next ∈ more.head?, next.token.isWordSymbol = false) :
    (more.flatMap Mark.write).head?.any isWordChar = false := by
  cases h with
  | cons _ hread hmore =>
      cases more with
      | nil => rfl
      | cons next others =>
          obtain ⟨c, rest, -, hagain⟩ := hread [next] (by simp)
          rw [List.flatMap_singleton] at hagain
          have hemptied := (isKeyword_emptied mark.token keyword).trans hkeyword
          obtain ⟨-, hleft, -⟩ := of_readToken_keyword hagain hemptied hne
          obtain ⟨d, left, htext, hnext⟩ := hmore.readToken
          rw [List.flatMap_cons]
          -- a space ends the word; a mark without one begins where the keyword could not go on
          by_cases hspaced : next.spaced = true
          · rw [Mark.write, if_pos hspaced]
            rfl
          · rw [Mark.write, if_neg hspaced, htext] at hleft
            have hends := List.head?_dropWhile_not continuesIdentifier (rest ++ d :: left)
            rw [← hleft] at hends
            have hd : isWordChar d = false := by
              refine not_isWordChar_of_readToken hnext (by simpa using hends) ?_
              rw [isWordSymbol_emptied]
              exact hsymbol next rfl
            rw [Mark.write, if_neg hspaced, htext]
            simp [hd]

/-! ## The list between the words -/

/-- The marks around the select list of the leftmost `SELECT`. -/
structure Frame where
  before : List Mark
  select : Mark
  modifier : List Mark
  list : List Mark
  after : List Mark
  deriving DecidableEq, Repr

/-- Whether a mark does not look like the end of a word that begins before it. -/
def standsApart (front : List Mark) (mark : Mark) : Bool :=
  mark.spaced || !(written front).getLast?.any isWordChar

/-- Whether what follows a list of marks is the word `FROM` by itself, or nothing. -/
def endsList (list after : List Mark) : Bool :=
  match after with
  | [] => true
  | mark :: _ => mark.token.isKeyword "FROM" && standsApart list mark

namespace Frame

def marks (frame : Frame) : List Mark :=
  frame.before ++ frame.select :: (frame.modifier ++ frame.list ++ frame.after)

/-- The marks of the text up to the one behind the word after the list. -/
def reach (frame : Frame) : List Mark :=
  frame.before ++ frame.select :: (frame.modifier ++ frame.list ++ frame.after.take 2)

/-- Whether the words around the list are the ones that are looked for: no other `SELECT` outside
parentheses stands before it, no `FROM` outside parentheses stands in it, and it is followed by `FROM`
or by nothing. What stands between `SELECT` and the list is what is taken for its modifier. -/
def isFound (frame : Frame) : Bool :=
  (frame.before ++ frame.select :: (frame.modifier ++ frame.list ++ frame.after.take 2)).all
      Mark.isPlain &&
    standsApart frame.before frame.select &&
    (topLevel (wholeWord "select") (written frame.before)).isEmpty &&
    (topLevel (wholeWord "from") (written (frame.modifier ++ frame.list))).isEmpty &&
    endsList (frame.modifier ++ frame.list) frame.after &&
    dropModifier (written (frame.modifier ++ frame.list)) == written frame.list

end Frame

def leadTo (front : List Mark) (mark : Mark) : List Char :=
  if front.isEmpty then [] else if mark.spaced then written front ++ [' '] else written front

theorem written_append_cons (front : List Mark) (mark : Mark) (rest : List Mark) :
    written (front ++ mark :: rest) = leadTo front mark ++ (mark.text ++ rest.flatMap Mark.write) := by
  cases front with
  | nil => rfl
  | cons first more =>
      rw [leadTo, if_neg (by simp), List.cons_append, written, List.flatMap_append, List.flatMap_cons,
        Mark.write]
      split <;> simp [written]

section Lead

variable {front : List Mark} {mark : Mark}

theorem leadTo_cases (front : List Mark) (mark : Mark) :
    leadTo front mark = written front ++ [' '] ∨
      leadTo front mark = written front ∧ (front = [] ∨ mark.spaced = false) := by
  rw [leadTo]
  split
  · rename_i hempty
    obtain rfl := List.isEmpty_iff.1 hempty
    exact .inr ⟨rfl, .inl rfl⟩
  split
  · exact .inl rfl
  · rename_i hspaced
    exact .inr ⟨rfl, .inr (by simpa using hspaced)⟩

theorem foldl_read_leadTo (h : (written front).foldl Nesting.read .outermost = .outermost) :
    (leadTo front mark).foldl Nesting.read .outermost = .outermost := by
  rcases leadTo_cases front mark with hlead | ⟨hlead, -⟩
  · rw [hlead, List.foldl_append, h]
    rfl
  · rw [hlead, h]

theorem topLevel_leadTo {word : String} (hword : IsLetters word)
    (hspace : topLevel (wholeWord word) [' '] = [])
    (hnest : (written front).foldl Nesting.read .outermost = .outermost)
    (h : topLevel (wholeWord word) (written front) = []) :
    topLevel (wholeWord word) (leadTo front mark) = [] := by
  rcases leadTo_cases front mark with hlead | ⟨hlead, -⟩
  · rw [hlead]
    exact topLevel_concat_space hword hspace hnest h
  · rw [hlead, h]

theorem cut_leadTo (h : standsApart front mark = true) (text : List Char) :
    Cut (leadTo front mark) text := by
  rcases leadTo_cases front mark with hlead | ⟨hlead, rfl | hspaced⟩
  · rw [hlead]
    exact cut_of_last (by simp; decide)
  · rw [hlead]
    exact cut_of_last rfl
  · rw [hlead]
    rw [standsApart, hspaced, Bool.false_or, Bool.not_eq_true'] at h
    exact cut_of_last h

theorem trim_leadTo (h : ∀ mark ∈ front, MarkText mark.text) :
    trim (leadTo front mark) = written front := by
  rcases leadTo_cases front mark with hlead | ⟨hlead, -⟩
  · rw [hlead, trim_append_blank (by decide), trim_written h]
  · rw [hlead, trim_written h]

end Lead

/-- The first `SELECT` outside parentheses, when none stands before it. -/
theorem exists_selectWord? {lead piece rest : List Char} (hpiece : piece.map fold = "select".toList)
    (hlead : topLevel (wholeWord "select") lead = []) (hcut : Cut lead (piece ++ rest))
    (hnest : lead.foldl Nesting.read .outermost = .outermost)
    (hrest : rest.head?.any isWordChar = false) :
    ∃ found, selectWord? (lead ++ (piece ++ rest)) = some found ∧ found.stop.after = rest := by
  obtain ⟨more, hmore⟩ := exists_topLevel_of_word isLetters_select hpiece hrest
  rw [selectWord?, topLevel_append isLetters_select hcut hnest, hlead, hmore]
  exact ⟨_, rfl, rfl⟩

/-- The `FROM` behind a place is looked for in what is behind the place. -/
theorem fromWord?_append {front behind : List Char} {start : Place} (hstart : start.after = behind)
    (hcut : Cut front behind) (hnest : front.foldl Nesting.read .outermost = .outermost) :
    fromWord? (front ++ behind) start
      = ((topLevel (wholeWord "from") behind).map (Occurrence.behind front.reverse)).find? fun found =>
          found.start.after.length < behind.length := by
  have hnone : ((topLevel (wholeWord "from") front).map (Occurrence.extend behind)).find?
      (fun found => decide (found.start.after.length < behind.length)) = none := by
    rw [List.find?_eq_none]
    intro found hfound
    obtain ⟨inside, -, rfl⟩ := List.mem_map.1 hfound
    simp [Occurrence.extend, Place.extend]
  rw [fromWord?, topLevel_append isLetters_from hcut hnest, List.find?_append, hstart, hnone]
  rfl

/-- The text from one place to another, when no `FROM` comes first. -/
theorem fromWord?_eq_none {front behind : List Char} {start : Place} (hstart : start.after = behind)
    (hcut : Cut front behind) (hnest : front.foldl Nesting.read .outermost = .outermost)
    (hfrom : topLevel (wholeWord "from") behind = []) : fromWord? (front ++ behind) start = none := by
  rw [fromWord?_append hstart hcut hnest, hfrom]
  rfl

theorem exists_fromWord? {front lead piece rest : List Char} {start : Place}
    (hstart : start.after = lead ++ (piece ++ rest)) (hcut : Cut front (lead ++ (piece ++ rest)))
    (hnest : front.foldl Nesting.read .outermost = .outermost) (hne : lead ≠ [])
    (hlead : topLevel (wholeWord "from") lead = []) (hcut' : Cut lead (piece ++ rest))
    (hnest' : lead.foldl Nesting.read .outermost = .outermost)
    (hpiece : piece.map fold = "from".toList) (hrest : rest.head?.any isWordChar = false) :
    ∃ found, fromWord? (front ++ (lead ++ (piece ++ rest))) start = some found ∧
      found.start.after = piece ++ rest := by
  obtain ⟨more, hmore⟩ := exists_topLevel_of_word isLetters_from hpiece hrest
  rw [fromWord?_append hstart hcut hnest, topLevel_append isLetters_from hcut' hnest', hlead, hmore]
  simp only [List.map_nil, List.nil_append, List.map_cons]
  refine ⟨_, List.find?_cons_of_pos ?_, rfl⟩
  have hlength : 0 < lead.length := List.length_pos_iff.2 hne
  simp [Occurrence.behind, Place.behind, hlength]

/-- The list lies between the `SELECT` and the `FROM` that are found, or the end of the text. -/
theorem selectList?_eq {text list : List Char} {select : Occurrence} {stop : Place}
    (hselect : selectWord? text = some select)
    (hstop : (fromWord? text select.stop).elim ⟨[], []⟩ (·.start) = stop)
    (hlist : dropModifier (trim (select.stop.upTo stop)) = list) (hne : trim list ≠ []) :
    selectList? text = some list := by
  rw [selectList?, hselect]
  subst hstop
  cases hfrom : fromWord? text select.stop with
  | none =>
      rw [hfrom, Option.elim_none] at hlist
      simp [hfrom, hlist, hne]
  | some found =>
      rw [hfrom, Option.elim_some] at hlist
      simp [hfrom, hlist, hne]

theorem flatMap_cases (list : List Mark) :
    list.flatMap Mark.write = written list ∨ list.flatMap Mark.write = ' ' :: written list := by
  cases list with
  | nil => exact .inl rfl
  | cons mark more =>
      rw [List.flatMap_cons, Mark.write]
      split
      · exact .inr rfl
      · exact .inl rfl

theorem foldl_read_of_cases {text new : List Char} (hnew : new = text ∨ new = ' ' :: text)
    (nesting : Nesting) : new.foldl Nesting.read nesting = text.foldl Nesting.read nesting := by
  rcases hnew with rfl | rfl
  · rfl
  · rw [List.foldl_cons, read_of_other (by decide)]

theorem trim_of_cases {text new : List Char} (hnew : new = text ∨ new = ' ' :: text) :
    trim new = trim text := by
  rcases hnew with rfl | rfl <;> rfl

theorem topLevel_of_cases {word : String} (hword : IsLetters word)
    (hspace : topLevel (wholeWord word) [' '] = []) {text new : List Char}
    (hnew : new = text ∨ new = ' ' :: text) (h : topLevel (wholeWord word) text = []) :
    topLevel (wholeWord word) new = [] := by
  rcases hnew with rfl | rfl
  · exact h
  · exact topLevel_space_cons hword hspace h

theorem getLast?_of_cases {text new : List Char} (hnew : new = text ∨ new = ' ' :: text)
    (hne : text ≠ []) : new.getLast? = text.getLast? := by
  rcases hnew with rfl | rfl
  · rfl
  · obtain ⟨c, rest, rfl⟩ := List.exists_cons_of_ne_nil hne
    rw [List.getLast?_cons_cons]

theorem upTo_end {place : Place} {before : List Char} : place.upTo ⟨before, []⟩ = place.after := by
  simp [Place.upTo]

theorem upTo_of_append {place stop : Place} {between : List Char}
    (h : place.after = between ++ stop.after) : place.upTo stop = between := by
  simp [Place.upTo, h]

theorem nest_of_keyword {token : Token} {keyword : String} (h : token.isKeyword keyword = true)
    (depth : Nat) : token.nest depth = depth := by
  cases token with
  | word value spelling => rfl
  | _ => cases h

theorem written_ne_nil {list : List Mark} (h : Legible list) (hne : list ≠ []) : written list ≠ [] := by
  obtain ⟨⟨first, more, hfirst, -⟩, -⟩ := solid_written h.markText hne
  rw [hfirst]
  exact List.cons_ne_nil first more

theorem leadTo_ne_nil {front : List Mark} {mark : Mark} (h : Legible front) (hne : front ≠ []) :
    leadTo front mark ≠ [] := by
  have hwritten := written_ne_nil h hne
  rcases leadTo_cases front mark with hlead | ⟨hlead, -⟩ <;> rw [hlead] <;> simp [hwritten]

/-- The space in front of a run of marks goes with what is written before one of them. -/
theorem exists_lead (front : List Mark) (mark : Mark) (rest : List Mark) :
    ∃ lead, (lead = leadTo front mark ∨ lead = ' ' :: leadTo front mark) ∧
      (front ++ mark :: rest).flatMap Mark.write = lead ++ (mark.text ++ rest.flatMap Mark.write) := by
  rcases flatMap_cases (front ++ mark :: rest) with htext | htext
  · exact ⟨_, .inl rfl, htext.trans (written_append_cons front mark rest)⟩
  · exact ⟨_, .inr rfl, htext.trans (congrArg _ (written_append_cons front mark rest))⟩

/-- What lies between a place and the `FROM` that is found behind it is what is written for the marks
before that `FROM`. -/
theorem trim_upTo_fromWord? {front : List Char} {start : Place} {middle after : List Mark}
    (hstart : start.after = (middle ++ after).flatMap Mark.write)
    (hcut : Cut front ((middle ++ after).flatMap Mark.write))
    (hnest : front.foldl Nesting.read .outermost = .outermost)
    (hlegible : Legible (middle ++ after)) (hne : middle ≠ [])
    (hsymbols : ∀ mark ∈ after.take 2, mark.token.isWordSymbol = false)
    (hclosed : (written middle).foldl Nesting.read .outermost = .outermost)
    (hfrom : topLevel (wholeWord "from") (written middle) = [])
    (hends : endsList middle after = true) :
    trim (start.upTo ((fromWord? (front ++ (middle ++ after).flatMap Mark.write) start).elim ⟨[], []⟩
      (·.start))) = written middle := by
  have hspace : topLevel (wholeWord "from") [' '] = [] := by decide
  have hmarks := hlegible.of_append_left.markText
  cases after with
  | nil =>
      rw [List.append_nil] at hstart hcut ⊢
      -- without a `FROM` the list reaches to the end of the text
      have hnone := fromWord?_eq_none hstart hcut hnest
        (topLevel_of_cases isLetters_from hspace (flatMap_cases middle) hfrom)
      rw [hnone, Option.elim_none, upTo_end, hstart, trim_flatMap hmarks]
  | cons mark others =>
      rw [endsList, Bool.and_eq_true] at hends
      have hmark : Legible (mark :: others) := hlegible.of_append_right
      have hpiece : mark.text.map fold = "from".toList :=
        hmark.map_fold_of_keyword hends.1 (by decide) (by simp) (by simp [joinedLetters]) (by decide)
      have hedge : (others.flatMap Mark.write).head?.any isWordChar = false := by
        refine hmark.head?_of_keyword hends.1 (by decide) fun next hnext => hsymbols next ?_
        obtain ⟨more, rfl⟩ := List.head?_eq_some_iff.1 hnext
        simp
      -- otherwise the mark behind the list is the `FROM`, and none is found before it
      obtain ⟨lead, hlead, htext⟩ := exists_lead middle mark others
      have hleadTo : leadTo middle mark ≠ [] := leadTo_ne_nil hlegible.of_append_left hne
      have hleadCut : Cut lead (mark.text ++ others.flatMap Mark.write) := by
        rw [Cut, getLast?_of_cases hlead hleadTo]
        exact cut_leadTo hends.2 _
      rw [htext] at hstart hcut ⊢
      obtain ⟨found, hword, hbegins⟩ := exists_fromWord? hstart hcut hnest
        (by rcases hlead with rfl | rfl <;> simp [hleadTo])
        (topLevel_of_cases isLetters_from hspace hlead
          (topLevel_leadTo isLetters_from hspace hclosed hfrom)) hleadCut
        (by rw [foldl_read_of_cases hlead, foldl_read_leadTo hclosed]) hpiece hedge
      rw [hword, Option.elim_some, upTo_of_append (hstart.trans (by rw [hbegins])), trim_of_cases hlead,
        trim_leadTo hmarks]

/-- What `Frame.isFound` says of legible marks. -/
structure Frame.Found (frame : Frame) : Prop where
  plain : ∀ mark ∈ frame.reach, Plain mark
  noWordSymbol : ∀ mark ∈ frame.reach, mark.token.isWordSymbol = false
  apart : standsApart frame.before frame.select = true
  noSelect : topLevel (wholeWord "select") (written frame.before) = []
  noFrom : topLevel (wholeWord "from") (written (frame.modifier ++ frame.list)) = []
  ends : endsList (frame.modifier ++ frame.list) frame.after = true
  modified : dropModifier (written (frame.modifier ++ frame.list)) = written frame.list

section Found

variable {frame : Frame}

theorem Legible.frame_reach (h : Legible frame.marks) : Legible frame.reach := by
  have hsplit : frame.marks = frame.reach ++ frame.after.drop 2 := by
    simp [Frame.marks, Frame.reach]
  rw [hsplit] at h
  exact h.of_append_left

theorem Legible.frame_select (h : Legible frame.marks) :
    Legible (frame.select :: (frame.modifier ++ frame.list ++ frame.after)) :=
  Legible.of_append_right h

theorem Legible.frame_behind (h : Legible frame.marks) :
    Legible (frame.modifier ++ frame.list ++ frame.after) := by
  cases h.frame_select with
  | cons _ _ hmore => exact hmore

theorem Legible.frame_list (h : Legible frame.marks) : Legible frame.list :=
  h.frame_behind.of_append_left.of_append_right

theorem Frame.found_of_isFound (hlegible : Legible frame.marks) (h : frame.isFound = true) :
    frame.Found := by
  simp only [Frame.isFound, Bool.and_eq_true, List.isEmpty_iff, beq_iff_eq] at h
  obtain ⟨⟨⟨⟨⟨hall, hapart⟩, hselect⟩, hfrom⟩, hends⟩, hmodifier⟩ := h
  refine ⟨plain_of_all hlegible.frame_reach hall, fun mark hmem => ?_, hapart, hselect, hfrom, hends,
    hmodifier⟩
  have hmark := List.all_eq_true.1 hall mark hmem
  rw [Mark.isPlain, Bool.and_eq_true, Bool.not_eq_true'] at hmark
  exact hmark.1

theorem Frame.mem_reach_of_mem_middle {mark : Mark} (h : mark ∈ frame.modifier ++ frame.list) :
    mark ∈ frame.reach :=
  List.mem_append_right _ (List.mem_cons_of_mem _ (List.mem_append_left _ h))

namespace Frame.Found

variable (h : frame.Found)

include h

/-- The marks before the `SELECT` close the parentheses that they open. -/
theorem closed_before (hbefore : (frame.before.map Mark.token).foldl Token.nest 0 = 0) :
    (written frame.before).foldl Nesting.read .outermost = .outermost := by
  have hplain : ∀ mark ∈ frame.before, Plain mark :=
    fun mark hmem => h.plain mark (List.mem_append_left _ hmem)
  refine (foldl_read_written hplain 0).trans ?_
  rw [hbefore]
  rfl

/-- The list and its modifier close the parentheses that they open. -/
theorem closed_middle
    (hmiddle : ((frame.modifier ++ frame.list).map Mark.token).foldl Token.nest 0 = 0) :
    (written (frame.modifier ++ frame.list)).foldl Nesting.read .outermost = .outermost := by
  have hplain : ∀ mark ∈ frame.modifier ++ frame.list, Plain mark :=
    fun mark hmem => h.plain mark (Frame.mem_reach_of_mem_middle hmem)
  refine (foldl_read_written hplain 0).trans ?_
  rw [hmiddle]
  rfl

/-- No word goes on behind the `SELECT`. -/
theorem head?_behind_select (hlegible : Legible frame.marks)
    (hselect : frame.select.token.isKeyword "SELECT" = true) (hlist : frame.list ≠ []) :
    ((frame.modifier ++ frame.list ++ frame.after).flatMap Mark.write).head?.any isWordChar
      = false := by
  refine hlegible.frame_select.head?_of_keyword hselect (by decide) fun next hnext => ?_
  refine h.noWordSymbol next (Frame.mem_reach_of_mem_middle ?_)
  obtain ⟨first, more, hfirst⟩ :=
    List.exists_cons_of_ne_nil (List.append_ne_nil_of_right_ne_nil frame.modifier hlist)
  rw [hfirst] at hnext ⊢
  obtain rfl := Option.some.inj hnext
  exact List.mem_cons_self

/-- The `SELECT` and what is before it close the parentheses that they open. -/
theorem closed_select (hselect : frame.select.token.isKeyword "SELECT" = true)
    (hbefore : (frame.before.map Mark.token).foldl Token.nest 0 = 0) :
    (leadTo frame.before frame.select ++ frame.select.text).foldl Nesting.read .outermost
      = .outermost := by
  rw [List.foldl_append, foldl_read_leadTo (h.closed_before hbefore)]
  refine ((h.plain frame.select (by simp [Frame.reach])).foldl_read 0).trans ?_
  rw [nest_of_keyword hselect]
  rfl

end Frame.Found

/-- **The select list that is looked for is the one between the marks**, if the words around it are
the ones that are looked for. -/
theorem selectList?_written (hlegible : Legible frame.marks) (h : frame.Found)
    (hselect : frame.select.token.isKeyword "SELECT" = true)
    (hbefore : (frame.before.map Mark.token).foldl Token.nest 0 = 0)
    (hmiddle : ((frame.modifier ++ frame.list).map Mark.token).foldl Token.nest 0 = 0)
    (hlist : frame.list ≠ []) :
    selectList? (written frame.marks) = some (written frame.list) := by
  have hclosed := h.closed_before hbefore
  have hedge := h.head?_behind_select hlegible hselect hlist
  have hpiece : frame.select.text.map fold = "select".toList :=
    hlegible.frame_select.map_fold_of_keyword hselect (by decide) (by simp)
      (by simp [joinedLetters]) (by decide)
  obtain ⟨found, hfound, hstop⟩ := exists_selectWord? hpiece
    (topLevel_leadTo isLetters_select (by decide) hclosed h.noSelect) (cut_leadTo h.apart _)
    (foldl_read_leadTo hclosed) hedge
  have hsymbols : ∀ mark ∈ frame.after.take 2, mark.token.isWordSymbol = false :=
    fun mark hmem => h.noWordSymbol mark (by simp [Frame.reach, hmem])
  have hbetween := trim_upTo_fromWord? hstop (cut_of_head hedge) (h.closed_select hselect hbefore)
    hlegible.frame_behind (List.append_ne_nil_of_right_ne_nil _ hlist) hsymbols
    (h.closed_middle hmiddle) h.noFrom h.ends
  rw [List.append_assoc (leadTo frame.before frame.select)] at hbetween
  rw [Frame.marks, written_append_cons]
  refine selectList?_eq hfound rfl ?_ ?_
  · rw [hbetween, h.modified]
  · rw [trim_written hlegible.frame_list.markText]
    exact written_ne_nil hlegible.frame_list hlist

end Found

end RepoPolicy.Sql
