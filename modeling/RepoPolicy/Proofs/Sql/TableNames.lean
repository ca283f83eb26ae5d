import Mathlib.Data.List.Infix
import RepoPolicy.Proofs.Sql.TableList
import RepoPolicy.Proofs.Text.Occurrences

set_option autoImplicit false

/-! # The tables that a text names

`NamesTable` says what it means that a table is named in a normalized text: it stands after a
keyword, and the keyword is at a place that a table can follow. Scanning a text finds these tables
and no others (`mem_scannedTables_iff`). For this, no keyword may be hidden by an earlier one: the
pieces that begin with keywords lie apart (`apart_of_keywords`). -/

namespace RepoPolicy.Sql

open RepoPolicy.Text RepoPolicy.Text.Scanner

/-! ## Keywords -/

/-- What follows the blanks that a text begins with. -/
def afterBlanks (text : List Char) : Option (List Char) :=
  match text with
  | c :: rest => if isBlank c then some (trimStart rest) else none
  | [] => none

/-- What follows a word, in any case, and the blanks behind it. -/
def lead (word : String) (text : List Char) : Option (List Char) :=
  if (text.take word.length).map fold = word.toList then afterBlanks (text.drop word.length)
  else none

theorem letters_eq (word : String) (place : Place) :
    letters word place =
      if (place.after.take word.length).map fold = word.toList then
        [⟨(place.after.take word.length).reverse ++ place.before, place.after.drop word.length⟩]
      else [] := by
  obtain ⟨before, after⟩ := place
  by_cases h : (after.take word.length).map fold = word.toList
  · have hread := letters_of_map_fold h before (after.drop word.length)
    rw [List.take_append_drop] at hread
    rw [if_pos h, hread]
  · rw [if_neg h, List.eq_nil_iff_forall_not_mem]
    intro stop hstop
    -- a piece that spells the word has as many characters, so it is the one that was compared
    obtain ⟨piece, hpiece, hafter, -⟩ := exists_of_mem_letters hstop
    have hlen : piece.length = word.length := by
      rw [← List.length_map (f := fold), hpiece, String.length_toList]
    obtain rfl : after = piece ++ stop.after := hafter
    rw [← hlen, List.take_left, hpiece] at h
    exact h rfl

theorem head?_blanks1 (place : Place) :
    (blanks1 place).head?.map Place.after = afterBlanks place.after := by
  obtain ⟨before, after⟩ := place
  cases after with
  | nil => rfl
  | cons c rest =>
      rw [blanks1, many1, andThen, char]
      by_cases hc : isBlank c = true
      · simp only [hc, if_true, List.flatMap_singleton, head?_many, afterBlanks]
        rfl
      · simp [hc, afterBlanks]

theorem head?_letters_blanks1 (word : String) (place : Place) :
    ((letters word place).flatMap blanks1).head?.map Place.after = lead word place.after := by
  rw [letters_eq, lead]
  by_cases h : (place.after.take word.length).map fold = word.toList
  · rw [if_pos h, if_pos h, List.flatMap_singleton, head?_blanks1]
  · rw [if_neg h, if_neg h]
    rfl

/-- `FROM` is read at the edge of a word. -/
theorem head?_fromKeyword (place : Place) :
    (fromKeyword place).head?.map Place.after =
      if place.atWordEdge then lead "from" place.after else none := by
  rw [fromKeyword, keyword, andThen, andThen, wordEdge]
  by_cases h : place.atWordEdge = true
  · rw [if_pos h, if_pos h, List.flatMap_singleton, head?_letters_blanks1]
  · rw [if_neg h, if_neg h]
    rfl

/-- What follows a keyword that one table follows. -/
def tableLead (text : List Char) : Option (List Char) :=
  (((lead "join" text).map fun rest => (lead "lateral" rest).getD rest).or (lead "into" text)).or
    (lead "update" text)

/-- Of the ends of a run of blanks, only the last one has no blank behind it. -/
theorem findSome?_blanks1 {α : Type} {f : Place → Option α}
    (hf : ∀ before c rest, isBlank c = true → f ⟨before, c :: rest⟩ = none) (place : Place) :
    (blanks1 place).findSome? f = (blanks1 place).head?.bind f := by
  -- the ends of a run are listed from the last one on, and the others have a blank behind them
  have hrun : ∀ before after, (runFrom isBlank before after).findSome? f
      = (runFrom isBlank before after).head?.bind f := by
    intro before after
    induction after generalizing before with
    | nil =>
        rw [runFrom]
        simp
    | cons c rest ih =>
        rw [runFrom]
        by_cases hc : isBlank c = true
        · rw [if_pos hc, List.findSome?_append, List.findSome?_singleton, hf before c rest hc,
            Option.or_none, ih, List.head?_append]
          obtain ⟨stop, hstop⟩ : ∃ stop, (many isBlank ⟨c :: before, rest⟩).head? = some stop :=
            ⟨_, head?_many⟩
          rw [many] at hstop
          rw [hstop]
          rfl
        · rw [if_neg hc]
          simp
  obtain ⟨before, after⟩ := place
  rw [blanks1, many1, andThen, char]
  cases after with
  | nil => rfl
  | cons c rest =>
      by_cases hc : isBlank c = true
      · simp only [hc, if_true, List.flatMap_singleton, many]
        exact hrun _ _
      · simp [hc]

theorem lead_of_isBlank {word : String} {letter c : Char} {letters text : List Char}
    (hword : word.toList = letter :: letters) (hletter : isBlank letter = false)
    (hc : isBlank c = true) : lead word (c :: text) = none := by
  have hlength : word.length = letters.length + 1 := by
    rw [← String.length_toList, hword, List.length_cons]
  rw [lead, if_neg]
  rw [hword, hlength, List.take_succ_cons, List.map_cons, fold_of_isBlank hc]
  intro h
  obtain ⟨rfl, -⟩ := List.cons.inj h
  rw [hc] at hletter
  exact absurd hletter (by decide)

theorem andThen_sequence_nil (scan : Scanner) : andThen scan (sequence []) = scan := by
  funext place
  exact List.flatMap_singleton' (scan place)

theorem singleTableKeyword_eq (place : Place) :
    singleTableKeyword place =
      if place.atWordEdge then
        ((letters "join" place).flatMap (optional (andThen blanks1 (letters "lateral")))
          ++ letters "into" place ++ letters "update" place).flatMap blanks1
      else [] := by
  show andThen wordEdge (andThen (oneOf _) (andThen blanks1 (sequence []))) place = _
  rw [andThen_sequence_nil, andThen, wordEdge]
  by_cases h : place.atWordEdge = true
  · rw [if_pos h, if_pos h, List.flatMap_singleton]
    simp [andThen, oneOf]
  · rw [if_neg h, if_neg h]
    rfl

/-- After `JOIN`, a following `LATERAL` is read as well. -/
theorem head?_join_lateral (place : Place) :
    (((letters "join" place).flatMap (optional (andThen blanks1 (letters "lateral")))).flatMap
        blanks1).head?.map Place.after
      = (lead "join" place.after).map fun rest => (lead "lateral" rest).getD rest := by
  rw [letters_eq, lead]
  by_cases h : (place.after.take "join".length).map fold = "join".toList
  · rw [if_pos h, if_pos h, List.flatMap_singleton]
    generalize hjoin : Place.mk _ (place.after.drop "join".length) = behind
    have hlateral : ∀ stop : Place, ((letters "lateral" stop).flatMap blanks1).head?.map Place.after
        = lead "lateral" stop.after := head?_letters_blanks1 "lateral"
    -- `LATERAL` is not found behind a part of the blanks only, as a blank is none of its letters
    have hblank : ∀ before c rest, isBlank c = true →
        ((letters "lateral" ⟨before, c :: rest⟩).flatMap blanks1).head? = none := by
      intro before c rest hc
      rw [← Option.map_eq_none_iff (f := Place.after), hlateral]
      exact lead_of_isBlank rfl (by decide) hc
    rw [Scanner.optional, List.flatMap_append, List.flatMap_singleton, List.head?_append, Option.map_or,
      andThen, List.flatMap_assoc, List.head?_flatMap, findSome?_blanks1 hblank]
    have hblanks := head?_blanks1 behind
    rw [← hjoin] at hblanks
    rw [← hblanks, hjoin]
    cases (blanks1 behind).head? with
    | none => rfl
    | some stop =>
        simp only [Option.bind_some, Option.map_some, hlateral]
        cases lead "lateral" stop.after <;> rfl
  · rw [if_neg h, if_neg h]
    rfl

theorem head?_singleTableKeyword (place : Place) :
    (singleTableKeyword place).head?.map Place.after =
      if place.atWordEdge then tableLead place.after else none := by
  rw [singleTableKeyword_eq]
  by_cases h : place.atWordEdge = true
  · rw [if_pos h, if_pos h, List.flatMap_append, List.flatMap_append, List.head?_append,
      List.head?_append, Option.map_or, Option.map_or, head?_join_lateral, head?_letters_blanks1,
      head?_letters_blanks1, tableLead]
  · rw [if_neg h, if_neg h]
    rfl

/-! ## Keywords lie apart -/

/-- A keyword with what belongs to it before the table: it begins a text, a blank follows it, and
no further keyword begins after that blank. -/
structure KeywordPiece (keywords : List String) (word gap : List Char) : Prop where
  isKeyword : word.map fold ∈ keywords.map String.toList
  blank : gap.head?.any isBlank = true
  noInitial : ∀ c ∈ gap, fold c ∉ keywords.filterMap (·.toList.head?)

section KeywordPieces

variable {keywords : List String}
  (hinitials : (keywords.filterMap (·.toList.head?)).all (!isBlank ·) = true)

include hinitials

theorem fold_not_mem_of_isBlank {c : Char} (hc : isBlank c = true) :
    fold c ∉ keywords.filterMap (·.toList.head?) := by
  intro hmem
  have hletter := List.all_eq_true.1 hinitials _ hmem
  exact fold_ne_of_isBlank hc (by simpa using hletter) rfl

theorem exists_keywordPiece {word : String} (hword : word ∈ keywords) {place middle stop : Place}
    (hmiddle : middle ∈ letters word place) (hstop : stop ∈ blanks1 middle) :
    ∃ piece gap, KeywordPiece keywords piece gap ∧ place.after = piece ++ gap ++ stop.after := by
  obtain ⟨piece, hpiece, hafter, -⟩ := exists_of_mem_letters hmiddle
  obtain ⟨c, gap, hc, hgap, hbehind⟩ := exists_of_mem_blanks1 hstop
  refine ⟨piece, c :: gap, ⟨?_, ?_, ?_⟩, ?_⟩
  · rw [hpiece]
    exact List.mem_map_of_mem hword
  · simpa using hc
  · intro d hd
    rcases List.mem_cons.1 hd with rfl | hd
    · exact fold_not_mem_of_isBlank hinitials hc
    · exact fold_not_mem_of_isBlank hinitials (hgap d hd)
  · rw [hafter, hbehind]
    simp

end KeywordPieces

theorem exists_of_mem_fromKeyword {place stop : Place} (h : stop ∈ fromKeyword place) :
    ∃ piece gap, KeywordPiece ["from"] piece gap ∧ place.after = piece ++ gap ++ stop.after := by
  rw [fromKeyword, mem_andThen] at h
  obtain ⟨middle, hmiddle, hstop⟩ := h
  rw [keyword, mem_andThen] at hmiddle
  obtain ⟨start, hstart, hletters⟩ := hmiddle
  obtain ⟨-, rfl⟩ := mem_wordEdge.1 hstart
  exact exists_keywordPiece (by decide) (by simp) hletters hstop

theorem exists_of_mem_singleTableKeyword {place stop : Place} (h : stop ∈ singleTableKeyword place) :
    ∃ piece gap, KeywordPiece ["join", "into", "update"] piece gap ∧
      place.after = piece ++ gap ++ stop.after := by
  have hinitials : (["join", "into", "update"].filterMap (·.toList.head?)).all (!isBlank ·)
      = true := by decide
  rw [singleTableKeyword_eq] at h
  by_cases hedge : place.atWordEdge = true
  · rw [if_pos hedge, List.mem_flatMap] at h
    obtain ⟨middle, hmiddle, hstop⟩ := h
    rw [List.mem_append, List.mem_append, List.mem_flatMap] at hmiddle
    rcases hmiddle with (⟨join, hjoin, hlateral⟩ | hinto) | hupdate
    · rw [Scanner.optional, List.mem_append, List.mem_singleton] at hlateral
      rcases hlateral with hlateral | rfl
      · -- The word `LATERAL` belongs to what follows the keyword.
        obtain ⟨gapEnd, hgapEnd, hletters⟩ := mem_andThen.1 hlateral
        obtain ⟨piece, gap, hpiece, hafter⟩ := exists_keywordPiece hinitials (by simp) hjoin hgapEnd
        obtain ⟨lateral, hword, hrest, -⟩ := exists_of_mem_letters hletters
        obtain ⟨c, gap', hc, hgap', hbehind⟩ := exists_of_mem_blanks1 hstop
        refine ⟨piece, gap ++ (lateral ++ c :: gap'), ⟨hpiece.isKeyword, ?_, ?_⟩, ?_⟩
        · have hblank := hpiece.blank
          cases gap with
          | nil => simp at hblank
          | cons d gap => simpa using hblank
        · intro d hd
          simp only [List.mem_append, List.mem_cons] at hd
          rcases hd with hd | hd | rfl | hd
          · exact hpiece.noInitial d hd
          · have hletter : fold d ∈ "lateral".toList := hword ▸ List.mem_map_of_mem hd
            have hnone : "lateral".toList.all (fun letter =>
                !(["join", "into", "update"].filterMap (·.toList.head?)).contains letter) = true := by
              decide
            simpa using List.all_eq_true.1 hnone _ hletter
          · exact fold_not_mem_of_isBlank hinitials hc
          · exact fold_not_mem_of_isBlank hinitials (hgap' d hd)
        · rw [hafter, hrest, hbehind]
          simp
      · exact exists_keywordPiece hinitials (by simp) hjoin hstop
    · exact exists_keywordPiece hinitials (by simp) hinto hstop
    · exact exists_keywordPiece hinitials (by simp) hupdate hstop
  · rw [if_neg hedge] at h
    exact absurd h List.not_mem_nil

/-- No keyword begins inside another one: it would contain the blank behind the other, or lie in
it. -/
theorem ne_append_of_inside {rest gap behind word more inside keyword : List Char}
    (hrest : rest.map fold <:+ inside) (hblank : gap.head?.any isBlank = true)
    (hletters : keyword.all (!isBlank ·) = true) (hword : keyword = word.map fold)
    (hinside : ¬keyword <:+: inside) : rest ++ (gap ++ behind) ≠ word ++ more := by
  intro heq
  rcases List.append_eq_append_iff.1 heq with ⟨left, rfl, hleft⟩ | ⟨left, rfl, -⟩
  · cases left with
    | nil =>
        rw [List.append_nil] at hword
        exact hinside (hword ▸ hrest.isInfix)
    | cons d left =>
        have hd : isBlank d = true := by
          obtain ⟨e, hhead, he⟩ := (Option.any_eq_true _ _).1 hblank
          obtain ⟨gap, rfl⟩ := List.head?_eq_some_iff.1 hhead
          obtain ⟨rfl, -⟩ := List.cons.inj hleft
          exact he
        have hmem : fold d ∈ keyword := by
          rw [hword]
          exact List.mem_map_of_mem (by simp)
        rw [fold_of_isBlank hd] at hmem
        have hletter := List.all_eq_true.1 hletters d hmem
        simp [hd] at hletter
  · refine hinside (List.IsInfix.trans ?_ hrest.isInfix)
    rw [hword, List.map_append]
    exact (List.prefix_append _ _).isInfix

/-- Pieces that begin with keywords lie apart if no keyword stands inside another one. -/
theorem apart_of_keywords {scan : Scanner} {keywords : List String}
    (hscan : ∀ place stop, stop ∈ scan place →
      ∃ word gap, KeywordPiece keywords word gap ∧ place.after = word ++ gap ++ stop.after)
    (hletters : ∀ keyword ∈ keywords, keyword.toList.all (!isBlank ·) = true)
    (hne : ∀ keyword ∈ keywords, keyword.toList ≠ [])
    (hinside : ∀ first ∈ keywords, ∀ second ∈ keywords, ¬second.toList <:+: first.toList.tail) :
    scan.Apart := by
  intro before after stop hstop
  obtain ⟨word, gap, hpiece, hafter⟩ := hscan _ _ (List.mem_of_mem_head? hstop)
  obtain ⟨first, hfirst, hword⟩ := List.mem_map.1 hpiece.isKeyword
  cases word with
  | nil => exact absurd hword (hne first hfirst)
  | cons c word =>
      refine ⟨c, word ++ gap, by simpa using hafter, ?_⟩
      intro inner hinner hsuffix lead
      rw [List.eq_nil_iff_forall_not_mem]
      intro stop' hstop'
      obtain ⟨word', gap', hpiece', hafter'⟩ := hscan _ _ hstop'
      obtain ⟨second, hsecond, hword'⟩ := List.mem_map.1 hpiece'.isKeyword
      obtain ⟨front, hfront⟩ := hsuffix
      rcases List.append_eq_append_iff.1 hfront with ⟨rest, rfl, rfl⟩ | ⟨rest, rfl, hgap⟩
      · have htail : rest.map fold <:+ first.toList.tail := by
          rw [hword, List.map_cons, List.tail_cons, List.map_append]
          exact List.suffix_append _ _
        simp only [List.append_assoc] at hafter'
        exact ne_append_of_inside htail hpiece.blank (hletters second hsecond) hword'
          (hinside first hfirst second hsecond) hafter'
      · -- In the text behind it no keyword begins.
        cases inner with
        | nil => exact hinner rfl
        | cons d inner =>
            cases word' with
            | nil => exact absurd hword' (hne second hsecond)
            | cons e word' =>
                obtain ⟨rfl, -⟩ := List.cons.inj hafter'
                refine hpiece.noInitial d (by simp [hgap]) (List.mem_filterMap.2 ⟨second, hsecond, ?_⟩)
                rw [hword', List.map_cons, List.head?_cons]

theorem apart_fromKeyword : fromKeyword.Apart := by
  refine apart_of_keywords (fun _ _ => exists_of_mem_fromKeyword) ?_ ?_ ?_
  · decide
  · decide
  · decide

theorem apart_singleTableKeyword : singleTableKeyword.Apart := by
  refine apart_of_keywords (fun _ _ => exists_of_mem_singleTableKeyword) ?_ ?_ ?_
  · decide
  · decide
  · decide

/-! ## The tables of a text -/

/-- The table is named in a normalized text: it stands in a list after `FROM`, or by itself after
one of the other keywords, and the keyword is at a place that a table can follow. -/
inductive NamesTable (text : List Char) (table : String) : Prop
  | inList {before after rest : List Char} (htext : text = before ++ after)
      (hedge : (Place.mk before.reverse after).atWordEdge = true)
      (hposition : isTablePosition ⟨before.reverse, after⟩ = true)
      (hlead : lead "from" after = some rest) (htable : Listed rest table)
  | alone {before after rest : List Char} (htext : text = before ++ after)
      (hedge : (Place.mk before.reverse after).atWordEdge = true)
      (hposition : isTablePosition ⟨before.reverse, after⟩ = true)
      (hlead : tableLead after = some rest) (htable : table ∈ singleTable rest)

/-- What follows the occurrences of a keyword where tables can stand. -/
theorem exists_mem_occurrences_iff {scan : Scanner} {next : List Char → Option (List Char)}
    (hapart : scan.Apart)
    (hnext : ∀ place, (scan place).head?.map Place.after =
      if place.atWordEdge then next place.after else none)
    {text : List Char} {P : List Char → Prop} :
    (∃ found ∈ (occurrences scan text).filter (isTablePosition ·.start), P found.stop.after) ↔
      ∃ before after rest, text = before ++ after ∧
        (Place.mk before.reverse after).atWordEdge = true ∧
          isTablePosition ⟨before.reverse, after⟩ = true ∧ next after = some rest ∧ P rest := by
  constructor
  · rintro ⟨⟨start, stop⟩, hfound, hP⟩
    obtain ⟨hfound, hposition⟩ := List.mem_filter.1 hfound
    obtain ⟨before, after, rfl, hstart, hstop⟩ := (mem_occurrences_iff hapart).1 hfound
    obtain rfl : start = ⟨before.reverse, after⟩ := hstart
    have hafter := hnext ⟨before.reverse, after⟩
    rw [hstop, Option.map_some] at hafter
    by_cases hedge : (Place.mk before.reverse after).atWordEdge = true
    · rw [if_pos hedge] at hafter
      exact ⟨before, after, stop.after, rfl, hedge, hposition, hafter.symm, hP⟩
    · rw [if_neg hedge] at hafter
      exact absurd hafter (by simp)
  · rintro ⟨before, after, rest, rfl, hedge, hposition, hrest, hP⟩
    have hafter := hnext ⟨before.reverse, after⟩
    -- pieces lie apart, so each place where one begins is an occurrence of its own
    rw [if_pos hedge, hrest, Option.map_eq_some_iff] at hafter
    obtain ⟨stop, hstop, rfl⟩ := hafter
    refine ⟨⟨⟨before.reverse, after⟩, stop⟩, List.mem_filter.2 ⟨?_, hposition⟩, hP⟩
    exact (mem_occurrences_iff hapart).2 ⟨before, after, rfl, rfl, hstop⟩

/-- **Scanning is exact.** The tables that are found in a normalized text are those that it
names. -/
theorem mem_scannedTables_iff {text : List Char} {table : String} :
    table ∈ scannedTables text ↔ NamesTable text table := by
  rw [scannedTables, List.mem_append, List.mem_flatMap, List.mem_flatMap]
  have hlist : ∀ found : Occurrence,
      table ∈ tableList found.stop.after.length found.stop.after ↔ Listed found.stop.after table :=
    fun found => mem_tableList_iff (Nat.le_refl _)
  simp only [hlist]
  rw [exists_mem_occurrences_iff (P := fun rest => Listed rest table) apart_fromKeyword
      head?_fromKeyword,
    exists_mem_occurrences_iff (P := fun rest => table ∈ singleTable rest) apart_singleTableKeyword
      head?_singleTableKeyword]
  constructor
  · rintro (⟨before, after, rest, htext, hedge, hposition, hlead, htable⟩ |
      ⟨before, after, rest, htext, hedge, hposition, hlead, htable⟩)
    · exact .inList htext hedge hposition hlead htable
    · exact .alone htext hedge hposition hlead htable
  · rintro (⟨htext, hedge, hposition, hlead, htable⟩ | ⟨htext, hedge, hposition, hlead, htable⟩)
    · exact Or.inl ⟨_, _, _, htext, hedge, hposition, hlead, htable⟩
    · exact Or.inr ⟨_, _, _, htext, hedge, hposition, hlead, htable⟩

end RepoPolicy.Sql
