import Mathlib.Data.List.Induction
import Mathlib.Order.MinMax
import RepoPolicy.Sql.KeywordScan

set_option autoImplicit false

/-! # The limit on nested parentheses

A search by keywords fails on a text in which more parentheses are open at once than its limit
allows. How many are open is said without counting: `StandOpen` takes the front of a text apart at
the parentheses that have no partner in it. The program counts (`standOpen_iff`) and looks at the
levels of the characters, and both parentheses of a pair are at the level of what is around them. So
what it finds is how many are open in front of a character that closes none
(`lt_deepestLevel_iff_holdsWithin`), and an innermost pair with nothing inside is overlooked
(`empty_call_passes_the_limit`). `depth_limit_is_exact_iff` says when the limit is exact. -/

namespace RepoPolicy.Sql

/-! ## Open parentheses -/

/-- What stands outside double quotes in a text that begins inside of them or not. -/
def outsideFrom : Bool → List Char → List Char
  | _, [] => []
  | quoted, c :: rest =>
    if c = '"' then outsideFrom (!quoted) rest
    else if quoted then outsideFrom quoted rest
    else c :: outsideFrom quoted rest

def outsideQuotes (text : List Char) : List Char := outsideFrom false text

/-- Each parenthesis of the text has its partner in it. -/
inductive Matched : List Char → Prop
  | nil : Matched []
  | other {c : Char} {rest : List Char} (hopen : c ≠ '(') (hclose : c ≠ ')')
      (hrest : Matched rest) : Matched (c :: rest)
  | pair {inner rest : List Char} (hinner : Matched inner) (hrest : Matched rest) :
      Matched ('(' :: (inner ++ ')' :: rest))

/-- At least `n` parentheses are open at the end of a text: between them, and behind the last one,
all others have their partners. A closing parenthesis without a partner changes nothing. -/
inductive StandOpen : Nat → List Char → Prop
  | zero (text : List Char) : StandOpen 0 text
  | succ {n : Nat} {front inner : List Char} (hfront : StandOpen n front)
      (hinner : Matched inner) : StandOpen (n + 1) (front ++ '(' :: inner)

/-- At least `n` parentheses are open at once somewhere in a text. -/
def OpenAtOnce (n : Nat) (text : List Char) : Prop :=
  ∃ front rest, text = front ++ rest ∧ StandOpen n (outsideQuotes front)

/-- At least `n` parentheses are open in front of some character that closes none of them. -/
def HoldsWithin (n : Nat) (text : List Char) : Prop :=
  ∃ front c rest, text = front ++ c :: rest ∧ c ≠ ')' ∧ StandOpen n (outsideQuotes front)

theorem Matched.append {first second : List Char} (hfirst : Matched first)
    (hsecond : Matched second) : Matched (first ++ second) := by
  induction hfirst with
  | nil => exact hsecond
  | other hopen hclose _ ih => exact .other hopen hclose ih
  | pair hinner _ _ ih =>
      rw [List.cons_append, List.append_assoc, List.cons_append]
      exact .pair hinner ih

theorem StandOpen.append {n : Nat} {text more : List Char} (h : StandOpen n text)
    (hmore : Matched more) : StandOpen n (text ++ more) := by
  cases h with
  | zero => exact .zero _
  | succ hfront hinner =>
      rw [List.append_assoc, List.cons_append]
      exact .succ hfront (hinner.append hmore)

/-! ## Counting open parentheses -/

/-- How many parentheses are open after one more character outside quotes. -/
def openCount (depth : Nat) (c : Char) : Nat :=
  if c = '(' then depth + 1 else if c = ')' then depth - 1 else depth

theorem depth_foldl_read (text : List Char) (depth : Nat) (quoted : Bool) :
    (text.foldl Nesting.read ⟨depth, quoted⟩).depth
      = (outsideFrom quoted text).foldl openCount depth := by
  induction text generalizing depth quoted with
  | nil => rfl
  | cons c rest ih =>
      rw [List.foldl_cons, outsideFrom]
      -- a quote opens or closes, what is in quotes counts nothing, and the rest counts as it is
      by_cases hquote : c = '"'
      · simp [Nesting.read, hquote, ih]
      · cases quoted with
        | true => simp [Nesting.read, hquote, ih]
        | false =>
            have hread : Nesting.read ⟨depth, false⟩ c = ⟨openCount depth c, false⟩ := by
              by_cases hopen : c = '('
              · simp [Nesting.read, openCount, hopen]
              · by_cases hclose : c = ')' <;> simp [Nesting.read, openCount, hquote, hopen, hclose]
            rw [hread, ih, if_neg hquote]
            rfl

theorem Matched.foldl_openCount {text : List Char} (h : Matched text) (depth : Nat) :
    text.foldl openCount depth = depth := by
  induction h generalizing depth with
  | nil => rfl
  | other hopen hclose _ ih => simp [openCount, hopen, hclose, ih]
  | pair _ _ ihinner ihrest => simp [openCount, ihinner, ihrest]

theorem StandOpen.le_foldl_openCount {n : Nat} {text : List Char} (h : StandOpen n text) :
    n ≤ text.foldl openCount 0 := by
  induction h with
  | zero text => exact Nat.zero_le _
  | succ _ hinner ih =>
      rw [List.foldl_append, List.foldl_cons, hinner.foldl_openCount]
      simpa [openCount] using ih

theorem standOpen_of_le {n : Nat} {text : List Char} (h : n ≤ text.foldl openCount 0) :
    StandOpen n text := by
  induction text using List.reverseRecOn generalizing n with
  | nil =>
      obtain rfl : n = 0 := by simpa using h
      exact .zero []
  | append_singleton text c ih =>
      rw [List.foldl_append, List.foldl_cons, List.foldl_nil, openCount] at h
      by_cases hopen : c = '('
      · rw [if_pos hopen] at h
        subst hopen
        cases n with
        | zero => exact .zero _
        | succ n => exact .succ (ih (by omega)) .nil
      · rw [if_neg hopen] at h
        by_cases hclose : c = ')'
        · rw [if_pos hclose] at h
          subst hclose
          cases n with
          | zero => exact .zero _
          | succ n =>
              -- the parenthesis that is closed stands behind the ones that stay open
              have hmore : StandOpen (n + 1 + 1) text := ih (by omega)
              cases hmore with
              | succ hfront hinner =>
                  rw [List.append_assoc]
                  exact hfront.append (.pair hinner .nil)
        · rw [if_neg hclose] at h
          exact (ih h).append (.other hopen hclose .nil)

theorem standOpen_iff {n : Nat} {text : List Char} :
    StandOpen n (outsideQuotes text) ↔ n ≤ (Nesting.after text).depth := by
  rw [Nesting.after, Nesting.outermost, depth_foldl_read]
  exact ⟨StandOpen.le_foldl_openCount, standOpen_of_le⟩

/-! ## Levels -/

theorem lt_foldl_max_iff {levels : List Nat} {limit first : Nat} :
    limit < levels.foldl max first ↔ limit < first ∨ ∃ level ∈ levels, limit < level := by
  induction levels generalizing first with
  | nil => simp
  | cons level rest ih =>
      rw [List.foldl_cons, ih, lt_max_iff]
      simp only [List.mem_cons, exists_eq_or_imp, or_assoc]

/-- The levels of a text are those of its characters, each in the state in which it is read. -/
theorem mem_levelsFrom_iff {level : Nat} {nesting : Nesting} {text : List Char} :
    level ∈ levelsFrom nesting text ↔
      ∃ front c rest, text = front ++ c :: rest ∧
        level = (front.foldl Nesting.read nesting).levelOf c := by
  induction text generalizing nesting with
  | nil => simp [levelsFrom]
  | cons first text ih =>
      rw [levelsFrom, List.mem_cons, ih]
      constructor
      · rintro (rfl | ⟨front, c, rest, rfl, rfl⟩)
        · exact ⟨[], first, text, rfl, rfl⟩
        · exact ⟨first :: front, c, rest, rfl, rfl⟩
      · rintro ⟨front, c, rest, htext, rfl⟩
        cases front with
        | nil =>
            obtain ⟨rfl, -⟩ := List.cons.inj htext
            exact Or.inl rfl
        | cons head front =>
            obtain ⟨rfl, rfl⟩ := List.cons.inj htext
            exact Or.inr ⟨front, c, rest, rfl, rfl⟩

theorem lt_deepestLevel_iff {limit : Nat} {text : List Char} :
    limit < deepestLevel text ↔
      ∃ front c rest, text = front ++ c :: rest ∧ limit < (Nesting.after front).levelOf c := by
  rw [deepestLevel, lt_foldl_max_iff, levels]
  simp only [Nat.not_lt_zero, false_or, mem_levelsFrom_iff]
  constructor
  · rintro ⟨_, ⟨front, c, rest, htext, rfl⟩, hlevel⟩
    exact ⟨front, c, rest, htext, hlevel⟩
  · rintro ⟨front, c, rest, htext, hlevel⟩
    exact ⟨_, ⟨front, c, rest, htext, rfl⟩, hlevel⟩

theorem levelOf_of_ne {c : Char} (h : c ≠ ')') (nesting : Nesting) :
    nesting.levelOf c = nesting.depth := by
  simp [Nesting.levelOf, h]

theorem levelOf_of_quoted {nesting : Nesting} (h : nesting.quoted = true) (c : Char) :
    nesting.levelOf c = nesting.depth := by
  simp [Nesting.levelOf, h]

theorem levelOf_close {nesting : Nesting} (h : nesting.quoted = false) :
    nesting.levelOf ')' = nesting.depth - 1 := by
  simp [Nesting.levelOf, h]

theorem read_close {nesting : Nesting} (h : nesting.quoted = false) :
    nesting.read ')' = ⟨nesting.depth - 1, false⟩ := by
  simp [Nesting.read, h]

theorem after_append_singleton (text : List Char) (c : Char) :
    Nesting.after (text ++ [c]) = (Nesting.after text).read c := by
  rw [Nesting.after, List.foldl_append]
  rfl

theorem holdsWithin_iff {n : Nat} {text : List Char} :
    HoldsWithin n text ↔
      ∃ front c rest, text = front ++ c :: rest ∧ c ≠ ')' ∧ n ≤ (Nesting.after front).depth := by
  simp only [HoldsWithin, standOpen_iff]

theorem HoldsWithin.append {n : Nat} {text : List Char} (h : HoldsWithin n text)
    (more : List Char) : HoldsWithin n (text ++ more) := by
  obtain ⟨front, c, rest, rfl, hclose, hopen⟩ := h
  exact ⟨front, c, rest ++ more, by simp, hclose, hopen⟩

/-- Reading a character opens one parenthesis at most, and none if a quote is open behind it. -/
theorem depth_read_le (nesting : Nesting) (c : Char) :
    (nesting.read c).depth ≤ nesting.depth + 1 ∧
      ((nesting.read c).quoted = true → (nesting.read c).depth = nesting.depth) := by
  unfold Nesting.read
  by_cases hquote : c = '"'
  · simp [hquote]
  · cases hquoted : nesting.quoted with
    | true => simp [hquote]
    | false =>
        by_cases hopen : c = '('
        · simp [hopen]
        · by_cases hclose : c = ')'
          · have hless : nesting.depth - 1 ≤ nesting.depth + 1 := by omega
            simpa [hclose] using hless
          · simp [hquote, hopen, hclose]

/-- In a quote, or with one more parenthesis open, a character that closes nothing has been passed
at the same depth: the one that opens the quote, or the parenthesis. -/
theorem holdsWithin_of_le_depth {n : Nat} {front : List Char}
    (hdeep : n ≤ (Nesting.after front).depth)
    (hmore : (Nesting.after front).quoted = true ∨ n < (Nesting.after front).depth) :
    HoldsWithin n front := by
  induction front using List.reverseRecOn with
  | nil => simp [Nesting.after, Nesting.outermost] at hmore
  | append_singleton front c ih =>
      rw [after_append_singleton] at hdeep hmore
      by_cases hfront : n ≤ (Nesting.after front).depth
      · by_cases hclose : c = ')'
        · -- a closing parenthesis ends no quote, and what is open behind it was open before it
          refine (ih hfront ?_).append [c]
          cases hquoted : (Nesting.after front).quoted with
          | true => exact Or.inl rfl
          | false =>
              rw [hclose, read_close hquoted] at hmore
              rcases hmore with hmore | hmore
              · exact absurd hmore Bool.false_ne_true
              · exact Or.inr (Nat.lt_of_lt_of_le hmore (Nat.sub_le _ 1))
        · exact holdsWithin_iff.2 ⟨front, c, [], rfl, hclose, hfront⟩
      · obtain ⟨hstep, hquoted⟩ := depth_read_le (Nesting.after front) c
        rcases hmore with hmore | hmore
        · rw [hquoted hmore] at hdeep
          exact absurd hdeep hfront
        · omega

/-- The deepest level is that of a character that closes no parenthesis. -/
theorem lt_deepestLevel_iff_holdsWithin {limit : Nat} {text : List Char} :
    limit < deepestLevel text ↔ HoldsWithin (limit + 1) text := by
  rw [lt_deepestLevel_iff]
  constructor
  · rintro ⟨front, c, rest, rfl, hdeep⟩
    by_cases hclose : c = ')'
    · refine HoldsWithin.append ?_ (c :: rest)
      -- the level of a closing parenthesis is that of what it closes, which holds a character
      -- before it
      cases hquoted : (Nesting.after front).quoted with
      | true =>
          rw [levelOf_of_quoted hquoted] at hdeep
          exact holdsWithin_of_le_depth hdeep (Or.inl hquoted)
      | false =>
          rw [hclose, levelOf_close hquoted] at hdeep
          exact holdsWithin_of_le_depth (by omega) (Or.inr (by omega))
    · rw [levelOf_of_ne hclose] at hdeep
      exact holdsWithin_iff.2 ⟨front, c, rest, rfl, hclose, hdeep⟩
  · intro h
    obtain ⟨front, c, rest, htext, hclose, hdeep⟩ := holdsWithin_iff.1 h
    exact ⟨front, c, rest, htext, by rwa [levelOf_of_ne hclose]⟩

theorem HoldsWithin.openAtOnce {n : Nat} {text : List Char} (h : HoldsWithin n text) :
    OpenAtOnce n text := by
  obtain ⟨front, c, rest, htext, -, hopen⟩ := h
  exact ⟨front, c :: rest, htext, hopen⟩

/-- The innermost of the open parentheses stands itself within the others. -/
theorem OpenAtOnce.holdsWithin {n : Nat} {text : List Char} (h : OpenAtOnce (n + 1) text) :
    HoldsWithin n text := by
  obtain ⟨front, rest, rfl, hopen⟩ := h
  have hdepth := standOpen_iff.1 hopen
  exact (holdsWithin_of_le_depth (by omega) (Or.inr hdepth)).append rest

/-! ## The limit -/

/-- Finding the tables of a text by keywords fails because its parentheses are nested too deeply. -/
def FailsOnDepth (sql : String) (limit : Nat) : Prop :=
  ∃ deepest, scanReferences sql limit = .error (.parenthesesTooDeep deepest limit)

theorem failsOnDepth_iff {sql : String} {limit : Nat} (hsome : normalize sql ≠ "")
    (hclosed : openQuote sql = none) :
    FailsOnDepth sql limit ↔ HoldsWithin (limit + 1) (normalForm sql.toList) := by
  rw [← lt_deepestLevel_iff_holdsWithin, FailsOnDepth, scanReferences, toList_normalize, hclosed]
  simp only [String.isEmpty_iff, hsome, if_false]
  by_cases hdeep : limit < deepestLevel (normalForm sql.toList)
  · simp [hdeep]
  · simp [hdeep]

/-- **When the limit on parentheses is exact.** The limit is exceeded exactly if something stands
within more parentheses than it allows. So it is never exceeded while no more than that are open at
once, and always while two more are; with one more it is exactly if one of the deepest pairs is not
empty, and this is when the limit is exact. -/
theorem depth_limit_is_exact_iff {sql : String} (hsome : normalize sql ≠ "")
    (hclosed : openQuote sql = none) (limit : Nat) :
    (FailsOnDepth sql limit ↔ HoldsWithin (limit + 1) (normalForm sql.toList)) ∧
      (FailsOnDepth sql limit → OpenAtOnce (limit + 1) (normalForm sql.toList)) ∧
      (OpenAtOnce (limit + 2) (normalForm sql.toList) → FailsOnDepth sql limit) ∧
      ((FailsOnDepth sql limit ↔ OpenAtOnce (limit + 1) (normalForm sql.toList)) ↔
        (OpenAtOnce (limit + 1) (normalForm sql.toList) →
          HoldsWithin (limit + 1) (normalForm sql.toList))) := by
  have hfails : FailsOnDepth sql limit ↔ HoldsWithin (limit + 1) (normalForm sql.toList) :=
    failsOnDepth_iff hsome hclosed
  have hopen : FailsOnDepth sql limit → OpenAtOnce (limit + 1) (normalForm sql.toList) :=
    fun h => (hfails.1 h).openAtOnce
  refine ⟨hfails, hopen, fun h => hfails.2 h.holdsWithin, ?_⟩
  constructor
  · intro hexact h
    exact hfails.1 (hexact.2 h)
  · intro hholds
    exact ⟨hopen, fun h => hfails.2 (hholds h)⟩

/-- The limit is exact for a call inside of two others, beside a name with parentheses in it. -/
theorem depth_limit_is_exact_on_calls :
    normalize "SELECT f(g(\"a)(\", h(1))) -- (\nFROM t" ≠ "" ∧
      openQuote "SELECT f(g(\"a)(\", h(1))) -- (\nFROM t" = none ∧
      (FailsOnDepth "SELECT f(g(\"a)(\", h(1))) -- (\nFROM t" 2 ↔
        OpenAtOnce 3 (normalForm "SELECT f(g(\"a)(\", h(1))) -- (\nFROM t".toList)) := by
  have hsome : normalize "SELECT f(g(\"a)(\", h(1))) -- (\nFROM t" ≠ "" := by decide +kernel
  have hclosed : openQuote "SELECT f(g(\"a)(\", h(1))) -- (\nFROM t" = none := by decide +kernel
  have hholds : HoldsWithin 3 (normalForm "SELECT f(g(\"a)(\", h(1))) -- (\nFROM t".toList) :=
    holdsWithin_iff.2 ⟨"SELECT f(g(\"a)(\", h(".toList, '1', "))) FROM t".toList, by decide +kernel,
      by decide, by decide⟩
  exact ⟨hsome, hclosed, (depth_limit_is_exact_iff hsome hclosed 2).2.2.2.2 fun _ => hholds⟩

/-- A call without arguments stands within the parentheses around it only, and two that are open at
once pass the limit of one. -/
theorem empty_call_passes_the_limit :
    normalize "SELECT coalesce(now(), x) FROM t" ≠ "" ∧
      openQuote "SELECT coalesce(now(), x) FROM t" = none ∧
      OpenAtOnce 2 (normalForm "SELECT coalesce(now(), x) FROM t".toList) ∧
      scanReferences "SELECT coalesce(now(), x) FROM t" 1 = .ok ⟨["t"], []⟩ := by
  refine ⟨by decide +kernel, by decide +kernel, ?_, by decide +kernel⟩
  exact ⟨"SELECT coalesce(now(".toList, "), x) FROM t".toList, by decide +kernel,
    standOpen_iff.2 (by decide)⟩

end RepoPolicy.Sql
