import RepoPolicy.Proofs.Sql.EnclosedText
import RepoPolicy.Proofs.Sql.ItemDivision

set_option autoImplicit false

/-! # The parenthesis around a keyword

Whether a table follows a keyword depends on the parenthesis around it, which is searched for
backwards from the keyword (`insideParenthesis`). The search counts all parentheses, those in quoted
names too, and finds the innermost one that is open in this sense (`insideParenthesis_eq_some_iff`).
The levels of the same text count those outside double quotes only. Both agree exactly if what
stands behind the innermost open parenthesis, or the whole text before the keyword if none is open,
leaves no parenthesis open or closed when those in quotes are counted too
(`enclosing_parenthesis_is_found_iff`). A name `"("` hides the `FROM` behind it
(`quoted_parenthesis_hides_from`). -/

namespace RepoPolicy.Sql

open RepoPolicy.Text

/-! ## Searching backwards -/

theorem insideParenthesis_cons_of_ne {c : Char} (hopen : c ≠ '(') (hclose : c ≠ ')') (depth : Nat)
    (between before : List Char) :
    insideParenthesis depth between (c :: before) = insideParenthesis depth (c :: between) before := by
  rw [insideParenthesis, if_neg (by simpa using hclose), if_neg (by simpa using hopen)]

/-- A text in which each parenthesis has its partner is passed over. -/
theorem Matched.insideParenthesis_eq {text : List Char} (h : Matched text) (depth : Nat)
    (between before : List Char) :
    insideParenthesis depth between (text.reverse ++ before)
      = insideParenthesis depth (text ++ between) before := by
  induction h generalizing depth between before with
  | nil => rfl
  | other hopen hclose _ ih =>
      rw [List.reverse_cons, List.append_assoc, List.singleton_append, ih,
        insideParenthesis_cons_of_ne hopen hclose]
      rfl
  | @pair inner rest _ _ ihinner ihrest =>
      -- read backwards, the closing parenthesis comes first and counts one up
      have hreverse : ('(' :: (inner ++ ')' :: rest)).reverse ++ before
          = rest.reverse ++ (')' :: (inner.reverse ++ '(' :: before)) := by simp
      have hclose : insideParenthesis depth (rest ++ between) (')' :: (inner.reverse ++ '(' :: before))
          = insideParenthesis (depth + 1) (')' :: (rest ++ between))
              (inner.reverse ++ '(' :: before) := rfl
      have hopen : insideParenthesis (depth + 1) (inner ++ ')' :: (rest ++ between)) ('(' :: before)
          = insideParenthesis depth ('(' :: (inner ++ ')' :: (rest ++ between))) before := rfl
      rw [hreverse, ihrest, hclose, ihinner, hopen]
      simp

/-- The search finds nothing if no more parentheses are open than it has passed closed ones. -/
theorem insideParenthesis_eq_none_iff_le {depth : Nat} {between before : List Char} :
    insideParenthesis depth between before = none ↔
      before.reverse.foldl openCount 0 ≤ depth := by
  induction before generalizing depth between with
  | nil => simp [insideParenthesis]
  | cons c before ih =>
      rw [insideParenthesis, List.reverse_cons, List.foldl_append, List.foldl_cons, List.foldl_nil]
      -- the last character changes the count as the search does, with closed ones counted up
      generalize hcount : before.reverse.foldl openCount 0 = count at ih
      by_cases hclose : c = ')'
      · subst hclose
        rw [if_pos (by decide), ih]
        show count ≤ depth + 1 ↔ count - 1 ≤ depth
        omega
      · rw [if_neg (by simpa using hclose)]
        by_cases hopen : c = '('
        · subst hopen
          rw [if_pos (by decide)]
          show (if depth = 0 then some between else _) = none ↔ count + 1 ≤ depth
          cases depth with
          | zero => simp
          | succ depth =>
              rw [if_neg (by omega), Nat.add_sub_cancel, ih]
              omega
        · rw [if_neg (by simpa using hopen), ih, openCount, if_neg hopen, if_neg hclose]

theorem standOpen_one_iff {text : List Char} :
    StandOpen 1 text ↔ ∃ outer inner, text = outer ++ '(' :: inner ∧ Matched inner := by
  constructor
  · intro h
    cases h with
    | succ _ hinner => exact ⟨_, _, rfl, hinner⟩
  · rintro ⟨outer, inner, rfl, hinner⟩
    exact .succ (.zero outer) hinner

/-- The search finds nothing exactly if no parenthesis is open, quoted ones counted. -/
theorem insideParenthesis_eq_none_iff {front rest : List Char} :
    insideParenthesis 0 rest front.reverse = none ↔ ¬StandOpen 1 front := by
  rw [insideParenthesis_eq_none_iff_le, List.reverse_reverse, ← Nat.not_lt]
  exact not_congr ⟨standOpen_of_le, StandOpen.le_foldl_openCount⟩

/-- The search finds the innermost parenthesis that is open, quoted ones counted. -/
theorem insideParenthesis_eq_some_iff {front rest inside : List Char} :
    insideParenthesis 0 rest front.reverse = some inside ↔
      ∃ outer inner, front = outer ++ '(' :: inner ∧ Matched inner ∧ inside = inner ++ rest := by
  have hfound : ∀ outer inner, Matched inner →
      insideParenthesis 0 rest (outer ++ '(' :: inner).reverse = some (inner ++ rest) := by
    intro outer inner hinner
    have hreverse : (outer ++ '(' :: inner).reverse = inner.reverse ++ '(' :: outer.reverse := by
      simp
    rw [hreverse, hinner.insideParenthesis_eq]
    rfl
  constructor
  · intro h
    -- a search that finds something passes an open parenthesis, of which the last one is found
    have hopen : StandOpen 1 front := by
      refine Classical.byContradiction fun hnone => ?_
      rw [insideParenthesis_eq_none_iff.2 hnone] at h
      exact Option.some_ne_none _ h.symm
    obtain ⟨outer, inner, rfl, hinner⟩ := standOpen_one_iff.1 hopen
    rw [hfound outer inner hinner] at h
    exact ⟨outer, inner, rfl, hinner, (Option.some.inj h).symm⟩
  · rintro ⟨outer, inner, rfl, hinner, rfl⟩
    exact hfound outer inner hinner

/-! ## Parentheses outside quotes -/

/-- The parenthesis behind `outer` is the innermost one that is open where `front` ends: it stands
outside double quotes, and each one behind it that does so too has its partner there. -/
structure OpensInnermost (front outer inner : List Char) : Prop where
  text : front = outer ++ '(' :: inner
  outside : isOutside outer = true
  matched : Matched (outsideQuotes inner)

/-- The search from the place between two parts of a text goes by its levels: it finds nothing
exactly at level zero, and what it finds is the parenthesis around the place. -/
structure FindsEnclosing (front rest : List Char) : Prop where
  none_iff : insideParenthesis 0 rest front.reverse = none ↔
    (levels (front ++ rest))[front.length]? = some 0
  some_encloses : ∀ inside, insideParenthesis 0 rest front.reverse = some inside →
    ∃ outer inner, OpensInnermost front outer inner ∧ inside = inner ++ rest

/-- No parenthesis is changed if those in quotes are counted too: behind the innermost one that is
open they all have their partners, and if none is open outside quotes then none is at all. -/
structure UnmovedByQuotes (front : List Char) : Prop where
  enclosed : StandOpen 1 (outsideQuotes front) →
    ∃ outer inner, OpensInnermost front outer inner ∧ Matched inner
  top : ¬StandOpen 1 (outsideQuotes front) → ¬StandOpen 1 front

theorem level_eq_zero_iff {front rest : List Char} {c : Char} (hclose : c ≠ ')') :
    (levels (front ++ c :: rest))[front.length]? = some 0 ↔
      ¬StandOpen 1 (outsideQuotes front) := by
  have hlevel : (levels (front ++ c :: rest))[front.length]?
      = some ((Nesting.after front).levelOf c) := getElem?_levelsFrom .outermost front c rest
  rw [hlevel, levelOf_of_ne hclose, Option.some.injEq, standOpen_iff]
  omega

/-! ## Quotes without parentheses -/

/-- Every parenthesis of the text stands outside double quotes. -/
def ParenthesesOutside (text : List Char) : Prop :=
  ∀ outer c inner, text = outer ++ c :: inner → c = '(' ∨ c = ')' → isOutside outer = true

theorem ParenthesesOutside.of_append {first second : List Char}
    (h : ParenthesesOutside (first ++ second)) : ParenthesesOutside first := by
  rintro outer c inner rfl hc
  exact h outer c (inner ++ second) (by simp) hc

theorem outsideFrom_of_ne {c : Char} (hc : c ≠ '"') (rest : List Char) :
    outsideFrom false (c :: rest) = c :: outsideFrom false rest := by
  rw [outsideFrom, if_neg hc, if_neg (by decide)]

theorem ParenthesesOutside.matched {text lead : List Char} (hmatched : Matched text)
    (h : ParenthesesOutside (lead ++ text)) : Matched (outsideFrom (!isOutside lead) text) := by
  induction hmatched generalizing lead with
  | nil => exact .nil
  | @other c rest hopen hclose _ ih =>
      have hrest : ParenthesesOutside ((lead ++ [c]) ++ rest) := by simpa using h
      have hmatched := ih hrest
      rw [outsideFrom]
      by_cases hc : c = '"'
      · rw [isOutside_append, hc] at hmatched
        rw [if_pos hc]
        revert hmatched
        cases isOutside lead <;> exact id
      · rw [isOutside_append_right (by simpa using Ne.symm hc)] at hmatched
        rw [if_neg hc]
        split
        · exact hmatched
        · rename_i hquoted
          rw [Bool.not_eq_true] at hquoted
          rw [hquoted] at hmatched ⊢
          exact .other hopen hclose hmatched
  | @pair inner rest _ _ ihinner ihrest =>
      -- both parentheses stand outside quotes, so the text between them closes its own
      have hlead : isOutside lead = true := h lead '(' _ rfl (Or.inl rfl)
      have hbefore : isOutside (lead ++ '(' :: inner) = true :=
        h (lead ++ '(' :: inner) ')' rest (by simp) (Or.inr rfl)
      have hopened : isOutside (lead ++ ['(']) = true := by
        rw [isOutside_append_right (by decide), hlead]
      have hclosed : isOutside (lead ++ '(' :: (inner ++ [')'])) = true := by
        rw [← List.cons_append, ← List.append_assoc, isOutside_append_right (by decide), hbefore]
      have hinside : isOutside inner = true := by
        rw [← List.singleton_append, ← List.append_assoc, isOutside_append, hopened] at hbefore
        simpa using hbefore
      have hfirst : Matched (outsideFrom (!isOutside (lead ++ ['('])) inner) :=
        ihinner (ParenthesesOutside.of_append (show
          ParenthesesOutside (((lead ++ ['(']) ++ inner) ++ ')' :: rest) by simpa using h))
      have hsecond : Matched (outsideFrom (!isOutside (lead ++ '(' :: (inner ++ [')']))) rest) :=
        ihrest (by simpa using h)
      rw [hopened] at hfirst
      rw [hclosed] at hsecond
      rw [hlead, Bool.not_true, outsideFrom_of_ne (by decide), outsideFrom_append, hinside,
        show (false != !true) = false from rfl, outsideFrom_of_ne (by decide)]
      exact .pair hfirst hsecond

/-- Without parentheses in quotes it makes no difference for the count whether quotes are read. -/
theorem ParenthesesOutside.foldl_openCount (lead : List Char) {text : List Char}
    (h : ParenthesesOutside (lead ++ text)) (depth : Nat) :
    (outsideFrom (!isOutside lead) text).foldl openCount depth = text.foldl openCount depth := by
  induction text generalizing lead depth with
  | nil => rfl
  | cons c rest ih =>
      have hrest : ParenthesesOutside ((lead ++ [c]) ++ rest) := by simpa using h
      rw [outsideFrom, List.foldl_cons, ← ih (lead ++ [c]) hrest]
      by_cases hc : c = '"'
      · rw [if_pos hc, isOutside_append, hc]
        cases isOutside lead <;> rfl
      · rw [if_neg hc, isOutside_append_right (by simpa using Ne.symm hc)]
        -- inside quotes no parenthesis stands, so the character counts nothing either way
        cases hlead : isOutside lead with
        | true => rfl
        | false =>
            have hopen : c ≠ '(' := by
              rintro rfl
              simpa [hlead] using h lead '(' rest rfl (Or.inl rfl)
            have hclose : c ≠ ')' := by
              rintro rfl
              simpa [hlead] using h lead ')' rest rfl (Or.inr rfl)
            rw [openCount, if_neg hopen, if_neg hclose]
            rfl

theorem ParenthesesOutside.standOpen_iff {n : Nat} {front : List Char} (h : ParenthesesOutside front) :
    StandOpen n (outsideQuotes front) ↔ StandOpen n front := by
  have hcount : (outsideQuotes front).foldl openCount 0 = front.foldl openCount 0 :=
    ParenthesesOutside.foldl_openCount [] h 0
  constructor
  · intro hopen
    exact standOpen_of_le (hcount ▸ hopen.le_foldl_openCount)
  · intro hopen
    exact standOpen_of_le (hcount ▸ hopen.le_foldl_openCount)

theorem ParenthesesOutside.unmovedByQuotes {front : List Char} (h : ParenthesesOutside front) :
    UnmovedByQuotes front where
  enclosed hopen := by
    obtain ⟨outer, inner, rfl, hinner⟩ := standOpen_one_iff.1 (h.standOpen_iff.1 hopen)
    have houter : isOutside outer = true := h outer '(' inner rfl (Or.inl rfl)
    have hmatched : Matched (outsideFrom (!isOutside (outer ++ ['('])) inner) :=
      ParenthesesOutside.matched hinner (by simpa using h)
    rw [isOutside_append_right (by decide), houter] at hmatched
    exact ⟨outer, inner, ⟨rfl, houter, hmatched⟩, hinner⟩
  top := mt h.standOpen_iff.2

/-! ## When the search goes by the levels -/

theorem UnmovedByQuotes.standOpen_iff {front : List Char} (h : UnmovedByQuotes front) :
    StandOpen 1 front ↔ StandOpen 1 (outsideQuotes front) := by
  constructor
  · exact fun hopen => Classical.byContradiction fun hnone => h.top hnone hopen
  · intro hopen
    obtain ⟨outer, inner, hencloses, hinner⟩ := h.enclosed hopen
    exact standOpen_one_iff.2 ⟨outer, inner, hencloses.text, hinner⟩

theorem findsEnclosing_iff {c : Char} (hclose : c ≠ ')') (front rest : List Char) :
    FindsEnclosing front (c :: rest) ↔ UnmovedByQuotes front := by
  constructor
  · intro ⟨hnone, hsome⟩
    rw [insideParenthesis_eq_none_iff, level_eq_zero_iff hclose, not_iff_not] at hnone
    refine ⟨fun hopen => ?_, mt hnone.1⟩
    obtain ⟨outer, inner, htext, hinner⟩ := standOpen_one_iff.1 (hnone.2 hopen)
    obtain ⟨outer', inner', hencloses, hsame⟩ :=
      hsome _ (insideParenthesis_eq_some_iff.2 ⟨outer, inner, htext, hinner, rfl⟩)
    -- both end with the same rest, so the parenthesis that is found is the enclosing one
    obtain rfl := List.append_cancel_right hsame
    exact ⟨outer', inner, hencloses, hinner⟩
  · intro h
    refine ⟨?_, fun inside hinside => ?_⟩
    · rw [insideParenthesis_eq_none_iff, level_eq_zero_iff hclose, h.standOpen_iff]
    · obtain ⟨outer, inner, htext, hinner, -⟩ := insideParenthesis_eq_some_iff.1 hinside
      obtain ⟨outer', inner', hencloses, hinner'⟩ :=
        h.enclosed (h.standOpen_iff.1 (standOpen_one_iff.2 ⟨outer, inner, htext, hinner⟩))
      have hfound : insideParenthesis 0 (c :: rest) front.reverse = some (inner' ++ c :: rest) :=
        insideParenthesis_eq_some_iff.2 ⟨outer', inner', hencloses.text, hinner', rfl⟩
      exact ⟨outer', inner', hencloses, Option.some.inj (hinside.symm.trans hfound)⟩

/-- **When the parenthesis around a place is found.** In front of a character that closes none, the
search backwards finds nothing exactly if no parenthesis is open, and else the innermost one, where
those in quotes count. The level there is zero exactly if none is open outside quotes. So the search
goes by the levels exactly if the parentheses in quotes change nothing, and it does if there are
none. -/
theorem enclosing_parenthesis_is_found_iff {c : Char} (hclose : c ≠ ')') (front rest : List Char) :
    (insideParenthesis 0 (c :: rest) front.reverse = none ↔ ¬StandOpen 1 front) ∧
      (∀ inside, insideParenthesis 0 (c :: rest) front.reverse = some inside ↔
        ∃ outer inner, front = outer ++ '(' :: inner ∧ Matched inner ∧
          inside = inner ++ c :: rest) ∧
      ((levels (front ++ c :: rest))[front.length]? = some 0 ↔
        ¬StandOpen 1 (outsideQuotes front)) ∧
      (FindsEnclosing front (c :: rest) ↔ UnmovedByQuotes front) ∧
      (ParenthesesOutside front → FindsEnclosing front (c :: rest)) :=
  ⟨insideParenthesis_eq_none_iff, fun _ => insideParenthesis_eq_some_iff, level_eq_zero_iff hclose,
    findsEnclosing_iff hclose front rest,
    fun h => (findsEnclosing_iff hclose front rest).2 h.unmovedByQuotes⟩

/-- A name with a pair of parentheses in it changes nothing for what follows it in a call. -/
theorem call_is_found_behind_quoted_pair :
    'x' ≠ ')' ∧ FindsEnclosing "SELECT f(\"a()\", ".toList ('x' :: ") FROM t".toList) := by
  have hx : 'x' ≠ ')' := by decide
  have hunmoved : UnmovedByQuotes "SELECT f(\"a()\", ".toList := by
    have hinner : Matched "\"a()\", ".toList :=
      .other (by decide) (by decide) <| .other (by decide) (by decide) <| .pair .nil <|
        .other (by decide) (by decide) <| .other (by decide) (by decide) <|
          .other (by decide) (by decide) .nil
    have houtside : Matched (outsideQuotes "\"a()\", ".toList) :=
      .other (by decide) (by decide) <| .other (by decide) (by decide) .nil
    exact ⟨fun _ => ⟨"SELECT f".toList, "\"a()\", ".toList, ⟨rfl, by decide, houtside⟩, hinner⟩,
      fun hnone => absurd (standOpen_iff.2 (by decide)) hnone⟩
  exact ⟨hx, (enclosing_parenthesis_is_found_iff hx _ _).2.2.2.1.2 hunmoved⟩

/-- Behind the name `"("` a keyword counts as inside of a parenthesis, though its level is zero, and
the table behind it is not found. -/
theorem quoted_parenthesis_hides_from :
    openQuote "SELECT \"(\" FROM t" = none ∧
      normalForm "SELECT \"(\" FROM t".toList
        = "SELECT \"(\" ".toList ++ 'F' :: "ROM t".toList ∧
      isOutside "SELECT \"(\" ".toList = true ∧
      (levels ("SELECT \"(\" ".toList ++ 'F' :: "ROM t".toList))["SELECT \"(\" ".toList.length]?
        = some 0 ∧
      insideParenthesis 0 ('F' :: "ROM t".toList) "SELECT \"(\" ".toList.reverse
        = some "\" FROM t".toList ∧
      scanReferences "SELECT \"(\" FROM t" 64 = .ok ⟨[], []⟩ := by
  decide +kernel

end RepoPolicy.Sql
