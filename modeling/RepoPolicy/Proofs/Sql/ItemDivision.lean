import RepoPolicy.Proofs.Sql.ParenthesisDepth
import RepoPolicy.Proofs.Sql.QuotedKeywords

set_option autoImplicit false

/-! # Dividing a select list into its items

A comma separates two items of a select list if it stands outside double quotes and at level zero
(`Separates`). Quotes and levels are found by two separate counts, and both are at their beginning
again behind such a comma. So a list is divided piece by piece (`Divided`), `splitItems` finds just
this division, and the division of two lists with a comma between them is made up of theirs
(`items_are_divided_at_separators`). -/

namespace RepoPolicy.Sql

open RepoPolicy.Text

/-! ## Commas that separate -/

/-- The comma behind the front of a text separates two items: the double quotes before it are all
closed, and its level is zero. -/
def Separates (text front : List Char) : Prop :=
  ∃ back, text = front ++ ',' :: back ∧ isOutside front = true ∧
    (levels text)[front.length]? = some 0

theorem getElem?_levelsFrom (nesting : Nesting) (front : List Char) (c : Char) (back : List Char) :
    (levelsFrom nesting (front ++ c :: back))[front.length]?
      = some ((front.foldl Nesting.read nesting).levelOf c) := by
  induction front generalizing nesting with
  | nil => rfl
  | cons d front ih => exact ih (nesting.read d)

theorem separates_iff {text front : List Char} :
    Separates text front ↔
      ∃ back, text = front ++ ',' :: back ∧ Nesting.after front = .outermost := by
  refine exists_congr fun back => and_congr_right fun htext => ?_
  have hlevel : (levels text)[front.length]? = some ((Nesting.after front).levelOf ',') := by
    rw [htext]
    exact getElem?_levelsFrom .outermost front ',' back
  rw [hlevel, levelOf_of_ne (by decide), Option.some.injEq, after_eq_outermost_iff, and_comm]

theorem passes_outermost_iff {text : List Char} :
    Passes .outermost text ↔ ∀ front, ¬Separates text front := by
  constructor
  · intro hpasses front hseparates
    obtain ⟨back, htext, hnest⟩ := separates_iff.1 hseparates
    have hfold : front.foldl Nesting.read .outermost = .outermost := hnest
    have hfront := hpasses front back htext
    rw [hfold] at hfront
    exact hfront.elim (absurd · Bool.false_ne_true) (absurd rfl)
  · intro hnone front back htext
    have hnest : Nesting.after front ≠ .outermost :=
      fun hnest => hnone front (separates_iff.2 ⟨back, htext, hnest⟩)
    rw [Ne, after_eq_outermost_iff, isOutside_iff_quoted, not_and_or, Bool.not_eq_false] at hnest
    exact hnest.symm

/-- A text without a comma that separates, or what stands before the first such comma. -/
theorem passes_or_exists (nesting : Nesting) (text : List Char) :
    Passes nesting text ∨ ∃ front back, text = front ++ ',' :: back ∧ Passes nesting front ∧
      front.foldl Nesting.read nesting = .outermost := by
  induction text generalizing nesting with
  | nil => exact Or.inl (.of_not_mem (by simp))
  | cons c text ih =>
      by_cases hfirst : c = ',' ∧ nesting = .outermost
      · obtain ⟨rfl, rfl⟩ := hfirst
        exact Or.inr ⟨[], text, rfl, .of_not_mem (by simp), rfl⟩
      -- the first character separates nothing, so it may stand before what passes
      · have hcons : ∀ more, Passes (nesting.read c) more → Passes nesting (c :: more) := by
          intro more hmore front back hsplit
          cases front with
          | nil =>
              obtain ⟨hcomma, -⟩ := List.cons.inj hsplit
              obtain ⟨depth, quoted⟩ := nesting
              cases quoted with
              | true => exact Or.inl rfl
              | false =>
                  refine Or.inr fun hdepth => hfirst ⟨hcomma, ?_⟩
                  obtain rfl : depth = 0 := hdepth
                  rfl
          | cons d front =>
              obtain ⟨rfl, hsame⟩ := List.cons.inj hsplit
              exact hmore front back hsame
        rcases ih (nesting.read c) with hpasses | ⟨front, back, rfl, hpasses, hnest⟩
        · exact Or.inl (hcons text hpasses)
        · exact Or.inr ⟨c :: front, back, rfl, hcons front hpasses, hnest⟩

/-! ## Divisions -/

inductive Divided : List Char → List (List Char) → Prop
  | last {text : List Char} (hpasses : Passes .outermost text) : Divided text [text]
  | comma {front back : List Char} {pieces : List (List Char)} (hpasses : Passes .outermost front)
      (hnest : Nesting.after front = .outermost) (hback : Divided back pieces) :
      Divided (front ++ ',' :: back) (front :: pieces)

theorem exists_divided (text : List Char) : ∃ pieces, Divided text pieces := by
  rcases passes_or_exists .outermost text with hpasses | ⟨front, back, htext, hpasses, hnest⟩
  · exact ⟨[text], .last hpasses⟩
  · obtain ⟨pieces, hback⟩ := exists_divided back
    rw [htext]
    exact ⟨front :: pieces, .comma hpasses hnest hback⟩
termination_by text.length
decreasing_by
  rw [htext, List.length_append, List.length_cons]
  omega

theorem Divided.splitFrom_eq {text : List Char} {pieces : List (List Char)}
    (h : Divided text pieces) : splitFrom .outermost [] text = pieces := by
  induction h with
  | @last text hpasses =>
      have hsplit := splitFrom_append hpasses [] []
      simpa [splitFrom] using hsplit
  | @comma front back pieces hpasses hnest _ ih =>
      have hfold : front.foldl Nesting.read .outermost = .outermost := hnest
      have hcomma : splitFrom .outermost (front.reverse ++ []) (',' :: back)
          = (front.reverse ++ []).reverse :: splitFrom .outermost [] back := rfl
      rw [splitFrom_append hpasses, hfold, hcomma, ih, List.append_nil, List.reverse_reverse]

theorem divided_splitFrom (text : List Char) : Divided text (splitFrom .outermost [] text) := by
  obtain ⟨pieces, h⟩ := exists_divided text
  rwa [h.splitFrom_eq]

theorem Divided.ne_nil {text : List Char} {pieces : List (List Char)} (h : Divided text pieces) :
    pieces ≠ [] := by
  cases h <;> exact List.cons_ne_nil _ _

theorem Divided.intercalate_eq {text : List Char} {pieces : List (List Char)}
    (h : Divided text pieces) : [','].intercalate pieces = text := by
  induction h with
  | last _ => exact List.intercalate_singleton
  | comma _ _ hback ih =>
      rw [List.intercalate_cons_of_ne_nil hback.ne_nil, ih]
      simp

theorem Divided.passes {text piece : List Char} {pieces : List (List Char)}
    (h : Divided text pieces) (hpiece : piece ∈ pieces) : Passes .outermost piece := by
  induction h with
  | last hpasses =>
      obtain rfl := List.mem_singleton.1 hpiece
      exact hpasses
  | comma hpasses _ _ ih =>
      rcases List.mem_cons.1 hpiece with rfl | hpiece
      · exact hpasses
      · exact ih hpiece

theorem after_append_comma {front : List Char} (hnest : Nesting.after front = .outermost)
    (more : List Char) : Nesting.after (front ++ ',' :: more) = Nesting.after more := by
  have hfold : front.foldl Nesting.read .outermost = .outermost := hnest
  rw [Nesting.after, List.foldl_append, hfold]
  rfl

/-- A comma that separates stands behind the first piece or in what follows it. -/
theorem separates_append_comma_iff {front back start : List Char}
    (hpasses : Passes .outermost front) (hnest : Nesting.after front = .outermost) :
    Separates (front ++ ',' :: back) start ↔
      start = front ∨ ∃ more, start = front ++ ',' :: more ∧ Separates back more := by
  rw [separates_iff]
  constructor
  · rintro ⟨rest, htext, hstart⟩
    -- the comma stands behind the front or in it, where none separates
    rcases List.append_eq_append_iff.1 htext with ⟨more, rfl, hmore⟩ | ⟨more, rfl, hmore⟩
    · cases more with
      | nil => exact Or.inl (List.append_nil _)
      | cons c more =>
          obtain ⟨rfl, rfl⟩ := List.cons.inj hmore
          rw [after_append_comma hnest] at hstart
          exact Or.inr ⟨more, rfl, separates_iff.2 ⟨rest, rfl, hstart⟩⟩
    · cases more with
      | nil => exact Or.inl (List.append_nil _).symm
      | cons c more =>
          obtain ⟨rfl, -⟩ := List.cons.inj hmore
          exact absurd (separates_iff.2 ⟨more, rfl, hstart⟩) (passes_outermost_iff.1 hpasses start)
  · rintro (rfl | ⟨more, rfl, hmore⟩)
    · exact ⟨back, rfl, hnest⟩
    · obtain ⟨rest, rfl, hstart⟩ := separates_iff.1 hmore
      exact ⟨rest, by simp, (after_append_comma hnest more).trans hstart⟩

theorem intercalate_take_succ (first : List Char) {pieces : List (List Char)} (hsome : pieces ≠ [])
    {n : Nat} (hpos : 0 < n) :
    [','].intercalate ((first :: pieces).take (n + 1))
      = first ++ ',' :: [','].intercalate (pieces.take n) := by
  have hne : pieces.take n ≠ [] := by
    rw [Ne, List.take_eq_nil_iff, not_or]
    exact ⟨by omega, hsome⟩
  rw [List.take_succ_cons, List.intercalate_cons_of_ne_nil hne]
  simp

/-- The commas that separate are those between the pieces. -/
theorem Divided.separates_iff {text : List Char} {pieces : List (List Char)}
    (h : Divided text pieces) (start : List Char) :
    Separates text start ↔
      ∃ n, 0 < n ∧ n < pieces.length ∧ start = [','].intercalate (pieces.take n) := by
  induction h generalizing start with
  | last hpasses =>
      refine iff_of_false (passes_outermost_iff.1 hpasses start) ?_
      rintro ⟨n, hpos, hlt, -⟩
      rw [List.length_singleton] at hlt
      omega
  | @comma front back pieces hpasses hnest hback ih =>
      rw [separates_append_comma_iff hpasses hnest]
      -- the first comma stands behind one piece, the others behind one piece more than in the rest
      constructor
      · rintro (rfl | ⟨more, rfl, hmore⟩)
        · have hsome := List.length_pos_iff.2 hback.ne_nil
          exact ⟨1, by omega, by simpa using hsome, by simp⟩
        · obtain ⟨n, hpos, hlt, rfl⟩ := (ih more).1 hmore
          exact ⟨n + 1, by omega, by simpa using hlt,
            (intercalate_take_succ front hback.ne_nil hpos).symm⟩
      · rintro ⟨n, hpos, hlt, rfl⟩
        match n with
        | 1 => exact Or.inl (by simp)
        | n + 2 =>
            rw [List.length_cons] at hlt
            exact Or.inr ⟨[','].intercalate (pieces.take (n + 1)),
              intercalate_take_succ front hback.ne_nil (by omega),
              (ih _).2 ⟨n + 1, by omega, by omega, rfl⟩⟩

theorem Divided.append_comma {first second : List Char} {pieces others : List (List Char)}
    (hfirst : Divided first pieces) (hsecond : Divided second others)
    (hnest : Nesting.after first = .outermost) :
    Divided (first ++ ',' :: second) (pieces ++ others) := by
  induction hfirst with
  | last hpasses => exact .comma hpasses hnest hsecond
  | comma hpasses hfront _ ih =>
      rw [after_append_comma hfront] at hnest
      rw [List.append_assoc, List.cons_append]
      exact .comma hpasses hfront (ih hnest)

/-! ## Items -/

theorem exists_blanks_around (text : List Char) :
    ∃ lead trail, text = lead ++ (trim text ++ trail) ∧ ∀ c ∈ lead, isBlank c = true := by
  refine ⟨text.takeWhile isBlank, ((trimStart text).reverse.takeWhile isBlank).reverse, ?_, ?_⟩
  · have htail : trim text ++ ((trimStart text).reverse.takeWhile isBlank).reverse
        = trimStart text := by
      rw [trim, trimEnd, ← List.reverse_append, List.takeWhile_append_dropWhile,
        List.reverse_reverse]
    rw [htail, trimStart, List.takeWhile_append_dropWhile]
  · exact fun c hc => List.all_eq_true.1 List.all_takeWhile c hc

/-- Blanks open and close nothing, so no comma separates in what is left without them. -/
theorem Passes.trim {text : List Char} (h : Passes .outermost text) :
    Passes .outermost (trim text) := by
  obtain ⟨lead, trail, htext, hlead⟩ := exists_blanks_around text
  have hfold : lead.foldl Nesting.read .outermost = .outermost := by
    refine foldl_read_of_others (fun c hc hmem => ?_) .outermost
    have hblank := hlead c hc
    simp only [List.mem_cons, List.not_mem_nil, or_false] at hmem
    rcases hmem with rfl | rfl | rfl | rfl <;> exact absurd hblank (by decide)
  intro front back hsplit
  have hwhole := h (lead ++ front) (back ++ trail) (by rw [htext, hsplit]; simp)
  rwa [List.foldl_append, hfold] at hwhole

/-- **A select list is divided at the commas that separate.** Its items are the pieces between them
without the blanks around; with the commas the pieces make up the list, and no item holds a comma
that would separate in it. If all quotes and parentheses of a list are closed, a comma and another
list behind it add the items of that list. -/
theorem items_are_divided_at_separators (list : List Char) :
    (∃ pieces, splitItems list = pieces.map trim ∧ [','].intercalate pieces = list ∧
        ∀ front, Separates list front ↔
          ∃ n, 0 < n ∧ n < pieces.length ∧ front = [','].intercalate (pieces.take n)) ∧
      (∀ item ∈ splitItems list, ∀ front, ¬Separates item front) ∧
      ∀ other, isOutside list = true → (Nesting.after list).depth = 0 →
        splitItems (list ++ ',' :: other) = splitItems list ++ splitItems other := by
  have hdivided := divided_splitFrom list
  refine ⟨⟨_, rfl, hdivided.intercalate_eq, hdivided.separates_iff⟩, ?_, ?_⟩
  · intro item hitem
    obtain ⟨piece, hpiece, rfl⟩ := List.mem_map.1 hitem
    exact passes_outermost_iff.1 (hdivided.passes hpiece).trim
  · intro other hquotes hdepth
    have hboth := hdivided.append_comma (divided_splitFrom other)
      (after_eq_outermost_iff.2 ⟨hdepth, hquotes⟩)
    rw [splitItems, hboth.splitFrom_eq, List.map_append]
    rfl

/-- A list with commas in a call and in a quoted name, and another one with a parenthesis that
nothing opens and a quote that nothing closes. -/
theorem items_of_call_and_name :
    isOutside "f(a, (b)), \"c,(é\" , ".toList = true ∧
      (Nesting.after "f(a, (b)), \"c,(é\" , ".toList).depth = 0 ∧
      splitItems ("f(a, (b)), \"c,(é\" , ".toList ++ ',' :: "d), \"e,".toList)
        = splitItems "f(a, (b)), \"c,(é\" , ".toList ++ splitItems "d), \"e,".toList := by
  have hquotes : isOutside "f(a, (b)), \"c,(é\" , ".toList = true := by decide
  have hdepth : (Nesting.after "f(a, (b)), \"c,(é\" , ".toList).depth = 0 := by decide
  exact ⟨hquotes, hdepth, (items_are_divided_at_separators _).2.2 _ hquotes hdepth⟩

end RepoPolicy.Sql
