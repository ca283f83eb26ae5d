import RepoPolicy.Pattern.Search

set_option autoImplicit false

/-! # What patterns describe

`Pattern.Describes` says which pieces of text a pattern stands for, one case for each way to put
patterns together. What lies around the piece counts as well, since a condition looks at it. The
search agrees with this: `ends` leads from each place to the ends of the pieces that the pattern
describes there (`mem_ends_iff`), and a text is matched exactly if some piece of it is described
(`isMatch_iff`).

Repetitions need an argument. `atMost` goes on from new places only and stops after a number of
rounds. No place is missed, since the places seen earlier have been left in all ways
(`mem_atMost_iff`), and the rounds suffice, since a piece that leads to a new place takes up a
character (`exists_steps_le`). -/

namespace RepoPolicy.Pattern

open RepoPolicy.Text

/-! ## Descriptions -/

/-- Pieces one after the other, of which each is as `described` says, with what lies before it and
after it. -/
def InRow (described : List Char → List Char → List Char → Prop) :
    List (List Char) → List Char → List Char → Prop
  | [], _, _ => True
  | piece :: pieces, before, after =>
    described before piece (pieces.flatten ++ after) ∧
      InRow described pieces (piece.reverse ++ before) after

/-- The pattern describes a piece of text between what lies before it, the nearest character first,
and what lies after it. -/
def Describes : Pattern → List Char → List Char → List Char → Prop
  | .empty, _, piece, _ => piece = []
  | .char set, _, piece, _ => ∃ c, set.contains c = true ∧ piece = [c]
  | .assert assertion, before, piece, after => assertion.holds ⟨before, after⟩ = true ∧ piece = []
  | .seq first second, before, piece, after =>
    ∃ left right, first.Describes before left (right ++ after) ∧
      second.Describes (left.reverse ++ before) right after ∧ piece = left ++ right
  | .either first second, before, piece, after =>
    first.Describes before piece after ∨ second.Describes before piece after
  | .times part least most, before, piece, after =>
    ∃ pieces : List (List Char), least ≤ pieces.length ∧
      (∀ bound ∈ most, pieces.length ≤ max least bound) ∧
      InRow part.Describes pieces before after ∧ piece = pieces.flatten

/-- A piece that the pattern describes lies between two places. -/
def Leads (pattern : Pattern) (place stop : Place) : Prop :=
  ∃ piece, place.after = piece ++ stop.after ∧ stop.before = piece.reverse ++ place.before ∧
    pattern.Describes place.before piece stop.after

variable {place stop : Place}

theorem leads_of_describes {pattern : Pattern} {before piece after : List Char}
    (h : pattern.Describes before piece after) :
    pattern.Leads ⟨before, piece ++ after⟩ ⟨piece.reverse ++ before, after⟩ :=
  ⟨piece, rfl, rfl, h⟩

theorem eq_of_no_piece (hafter : place.after = [] ++ stop.after)
    (hbefore : stop.before = [].reverse ++ place.before) : place = stop := by
  obtain ⟨before, after⟩ := place
  obtain ⟨before', after'⟩ := stop
  simp only [List.nil_append, List.reverse_nil] at hafter hbefore
  rw [hafter, hbefore]

theorem leads_empty_iff : Pattern.empty.Leads place stop ↔ place = stop := by
  constructor
  · rintro ⟨piece, hafter, hbefore, rfl⟩
    exact eq_of_no_piece hafter hbefore
  · rintro rfl
    exact ⟨[], rfl, rfl, rfl⟩

theorem leads_assert_iff {assertion : Assertion} :
    (Pattern.assert assertion).Leads place stop ↔ assertion.holds place = true ∧ place = stop := by
  constructor
  · rintro ⟨piece, hafter, hbefore, hholds, rfl⟩
    obtain rfl := eq_of_no_piece hafter hbefore
    exact ⟨hholds, rfl⟩
  · rintro ⟨hholds, rfl⟩
    exact ⟨[], rfl, rfl, hholds, rfl⟩

theorem leads_char_iff {set : CharSet} :
    (Pattern.char set).Leads place stop ↔ step? set place = some stop := by
  constructor
  · rintro ⟨piece, hafter, hbefore, c, hc, rfl⟩
    obtain ⟨before, after⟩ := place
    obtain ⟨before', after'⟩ := stop
    simp only [List.singleton_append, List.reverse_singleton] at hafter hbefore
    simp [step?, hafter, hbefore, hc]
  · intro h
    obtain ⟨before, after⟩ := place
    cases after with
    | nil => cases h
    | cons c rest =>
        obtain ⟨hc, rfl⟩ : set.contains c = true ∧ (⟨c :: before, rest⟩ : Place) = stop := by
          simpa [step?] using h
        exact ⟨[c], rfl, rfl, c, hc, rfl⟩

theorem leads_either_iff {first second : Pattern} :
    (Pattern.either first second).Leads place stop ↔
      first.Leads place stop ∨ second.Leads place stop := by
  constructor
  · rintro ⟨piece, hafter, hbefore, h | h⟩
    · exact Or.inl ⟨piece, hafter, hbefore, h⟩
    · exact Or.inr ⟨piece, hafter, hbefore, h⟩
  · rintro (⟨piece, hafter, hbefore, h⟩ | ⟨piece, hafter, hbefore, h⟩)
    · exact ⟨piece, hafter, hbefore, Or.inl h⟩
    · exact ⟨piece, hafter, hbefore, Or.inr h⟩

theorem leads_seq_iff {first second : Pattern} :
    (Pattern.seq first second).Leads place stop ↔
      ∃ middle, first.Leads place middle ∧ second.Leads middle stop := by
  constructor
  · rintro ⟨piece, hafter, hbefore, left, right, hleft, hright, rfl⟩
    refine ⟨⟨left.reverse ++ place.before, right ++ stop.after⟩, ⟨left, ?_, rfl, hleft⟩,
      ⟨right, rfl, ?_, hright⟩⟩
    · rw [hafter, List.append_assoc]
    · rw [hbefore, List.reverse_append, List.append_assoc]
  · rintro ⟨middle, ⟨left, hafter, hbefore, hleft⟩, ⟨right, hafter', hbefore', hright⟩⟩
    refine ⟨left ++ right, ?_, ?_, left, right, ?_, ?_, rfl⟩
    · rw [hafter, hafter', List.append_assoc]
    · rw [hbefore', hbefore, List.reverse_append, List.append_assoc]
    · rw [← hafter']
      exact hleft
    · rw [← hbefore]
      exact hright

/-! ## Steps -/

/-- So many steps of a relation lead from a place to another. -/
def Steps (step : Place → Place → Prop) : Nat → Place → Place → Prop
  | 0, place, stop => place = stop
  | n + 1, place, stop => ∃ middle, step place middle ∧ Steps step n middle stop

/-- As many steps as there are pieces in a row. -/
theorem steps_leads_iff {part : Pattern} {n : Nat} :
    Steps part.Leads n place stop ↔
      ∃ pieces : List (List Char), pieces.length = n ∧ place.after = pieces.flatten ++ stop.after ∧
        stop.before = pieces.flatten.reverse ++ place.before ∧
        InRow part.Describes pieces place.before stop.after := by
  induction n generalizing place with
  | zero =>
      constructor
      · rintro rfl
        exact ⟨[], rfl, rfl, rfl, trivial⟩
      · rintro ⟨pieces, hlength, hafter, hbefore, -⟩
        obtain rfl := List.length_eq_zero_iff.1 hlength
        exact eq_of_no_piece hafter hbefore
  | succ n ih =>
      constructor
      · rintro ⟨middle, ⟨piece, hafter, hbefore, hpiece⟩, hsteps⟩
        obtain ⟨pieces, rfl, hafter', hbefore', hrow⟩ := ih.1 hsteps
        refine ⟨piece :: pieces, rfl, ?_, ?_, ?_, ?_⟩
        · rw [hafter, hafter', List.flatten_cons, List.append_assoc]
        · rw [hbefore', hbefore, List.flatten_cons, List.reverse_append, List.append_assoc]
        · rw [← hafter']
          exact hpiece
        · rw [← hbefore]
          exact hrow
      · rintro ⟨pieces, hlength, hafter, hbefore, hrow⟩
        obtain ⟨piece, pieces, rfl⟩ := List.exists_cons_of_length_eq_add_one hlength
        -- between the pieces the place has the first one behind it
        refine ⟨⟨piece.reverse ++ place.before, pieces.flatten ++ stop.after⟩,
          ⟨piece, ?_, rfl, hrow.1⟩, ih.2 ⟨pieces, by simpa using hlength, rfl, ?_, hrow.2⟩⟩
        · rw [hafter, List.flatten_cons, List.append_assoc]
        · rw [hbefore, List.flatten_cons, List.reverse_append, List.append_assoc]

theorem leads_times_iff {part : Pattern} {least : Nat} {most : Option Nat} :
    (Pattern.times part least most).Leads place stop ↔
      ∃ n, least ≤ n ∧ (∀ bound ∈ most, n ≤ max least bound) ∧
        Steps part.Leads n place stop := by
  constructor
  · rintro ⟨piece, hafter, hbefore, pieces, hleast, hmost, hrow, rfl⟩
    exact ⟨pieces.length, hleast, hmost, steps_leads_iff.2 ⟨pieces, rfl, hafter, hbefore, hrow⟩⟩
  · rintro ⟨n, hleast, hmost, hsteps⟩
    obtain ⟨pieces, rfl, hafter, hbefore, hrow⟩ := steps_leads_iff.1 hsteps
    exact ⟨pieces.flatten, hafter, hbefore, pieces, hleast, hmost, hrow, rfl⟩

section Steps

variable {step : Place → Place → Prop}

theorem steps_add_iff {m n : Nat} :
    Steps step (m + n) place stop ↔
      ∃ middle, Steps step m place middle ∧ Steps step n middle stop := by
  induction m generalizing place with
  | zero =>
      rw [Nat.zero_add]
      constructor
      · exact fun h => ⟨place, rfl, h⟩
      · rintro ⟨middle, rfl, h⟩
        exact h
  | succ m ih =>
      rw [Nat.succ_add]
      constructor
      · rintro ⟨next, hnext, hsteps⟩
        obtain ⟨middle, hfirst, hsecond⟩ := ih.1 hsteps
        exact ⟨middle, ⟨next, hnext, hfirst⟩, hsecond⟩
      · rintro ⟨middle, ⟨next, hnext, hfirst⟩, hsecond⟩
        exact ⟨next, hnext, ih.2 ⟨middle, hfirst, hsecond⟩⟩

/-- A step stays where it is or leaves fewer characters to come. -/
def MovesOn (step : Place → Place → Prop) : Prop :=
  ∀ place stop, step place stop → place = stop ∨ stop.after.length < place.after.length

theorem movesOn_leads (pattern : Pattern) : MovesOn pattern.Leads := by
  rintro place stop ⟨piece, hafter, hbefore, -⟩
  cases piece with
  | nil => exact Or.inl (eq_of_no_piece hafter hbefore)
  | cons c piece =>
      refine Or.inr ?_
      rw [hafter, List.cons_append, List.length_cons, List.length_append]
      omega

/-- Steps that stay where they are can be left out, and then there are no more steps than characters
that they pass. -/
theorem exists_steps_le (hstep : MovesOn step) {n : Nat} (h : Steps step n place stop) :
    ∃ k, k + stop.after.length ≤ place.after.length ∧ Steps step k place stop := by
  induction n generalizing place with
  | zero =>
      obtain rfl : place = stop := h
      exact ⟨0, by omega, rfl⟩
  | succ n ih =>
      obtain ⟨middle, hfirst, hrest⟩ := h
      obtain ⟨k, hk, hsteps⟩ := ih hrest
      rcases hstep _ _ hfirst with rfl | hless
      · exact ⟨k, hk, hsteps⟩
      · exact ⟨k + 1, by omega, middle, hfirst, hsteps⟩

end Steps

/-! ## The search -/

theorem mem_join {places others : List Place} :
    place ∈ join places others ↔ place ∈ places ∨ place ∈ others := by
  rw [join, List.mem_append, List.mem_filter, Bool.not_eq_true', List.contains_eq_mem,
    decide_eq_false_iff_not]
  by_cases h : place ∈ places <;> simp [h]

theorem length_le_reach {places : List Place} (h : place ∈ places) :
    place.after.length ≤ reach places := by
  induction places with
  | nil => cases h
  | cons first places ih =>
      rcases List.mem_cons.1 h with rfl | h
      · exact Nat.le_max_left _ _
      · exact Nat.le_trans (ih h) (Nat.le_max_right _ _)

section Reached

variable {next : List Place → List Place} {step : Place → Place → Prop}
  (hnext : ∀ places stop, stop ∈ next places ↔ ∃ place ∈ places, step place stop)

include hnext

theorem mem_exactly_iff {n : Nat} {places : List Place} :
    stop ∈ exactly next n places ↔ ∃ place ∈ places, Steps step n place stop := by
  induction n generalizing places with
  | zero => simp [exactly, Steps]
  | succ n ih =>
      rw [exactly, ih]
      constructor
      · rintro ⟨middle, hmiddle, hsteps⟩
        obtain ⟨place, hplace, hstep⟩ := (hnext _ _).1 hmiddle
        exact ⟨place, hplace, middle, hstep, hsteps⟩
      · rintro ⟨place, hplace, middle, hstep, hsteps⟩
        exact ⟨middle, (hnext _ _).2 ⟨place, hplace, hstep⟩, hsteps⟩

omit hnext in
theorem mem_atMost_of_mem {n : Nat} {seen last : List Place} (h : place ∈ seen) :
    place ∈ atMost next n seen last := by
  induction n generalizing seen last with
  | zero => exact h
  | succ n ih =>
      rw [atMost]
      split
      · exact h
      · exact ih (List.mem_append_left _ h)

/-- What is found has been seen before or is reached from the last places. -/
theorem of_mem_atMost {n : Nat} {seen last : List Place} (h : stop ∈ atMost next n seen last) :
    stop ∈ seen ∨ ∃ place ∈ last, ∃ k ≤ n, Steps step k place stop := by
  induction n generalizing seen last with
  | zero => exact Or.inl h
  | succ n ih =>
      rw [atMost] at h
      split at h
      · exact Or.inl h
      · have hnew : ∀ {middle}, middle ∈ (next last).filter (fun place => !seen.contains place) →
            ∃ place ∈ last, step place middle :=
          fun hmiddle => (hnext _ _).1 (List.mem_filter.1 hmiddle).1
        -- what the later rounds find was seen before, is new in this round, or is reached from
        -- there
        rcases ih h with hseen | ⟨middle, hmiddle, k, hk, hsteps⟩
        · rcases List.mem_append.1 hseen with hseen | hmiddle
          · exact Or.inl hseen
          · obtain ⟨place, hplace, hstep⟩ := hnew hmiddle
            exact Or.inr ⟨place, hplace, 1, by omega, stop, hstep, rfl⟩
        · obtain ⟨place, hplace, hstep⟩ := hnew hmiddle
          exact Or.inr ⟨place, hplace, k + 1, by omega, middle, hstep, hsteps⟩

/-- Steps from places that have been seen, and are not among the last ones, lead to places that have
been seen. -/
def Closed (step : Place → Place → Prop) (seen last : List Place) : Prop :=
  ∀ place ∈ seen, place ∉ last → ∀ stop, step place stop → stop ∈ seen

/-- A round keeps this, since the last places have now been left in all ways. -/
theorem Closed.round {seen last : List Place} (h : Closed step seen last) :
    Closed step (seen ++ (next last).filter fun place => !seen.contains place)
      ((next last).filter fun place => !seen.contains place) := by
  intro place hplace hnot stop hstep
  rcases List.mem_append.1 hplace with hseen | hnew
  · by_cases hlast : place ∈ last
    · by_cases hstop : stop ∈ seen
      · exact List.mem_append_left _ hstop
      · refine List.mem_append_right _ (List.mem_filter.2 ⟨?_, by simpa using hstop⟩)
        exact (hnext _ _).2 ⟨place, hlast, hstep⟩
    · exact List.mem_append_left _ (h place hseen hlast stop hstep)
  · exact absurd hnew hnot

/-- Nothing is missed. The induction is on the rounds, and within a round on the steps, of which
those between places that have been seen take no round. -/
theorem mem_atMost_of_steps {n : Nat} {seen last : List Place} (hclosed : Closed step seen last) :
    ∀ {k : Nat} {place : Place}, place ∈ seen → k ≤ n → Steps step k place stop →
      stop ∈ atMost next n seen last := by
  induction n generalizing seen last with
  | zero =>
      intro k place hplace hk hsteps
      obtain rfl : k = 0 := by omega
      obtain rfl : place = stop := hsteps
      exact hplace
  | succ n ih =>
      intro k
      induction k with
      | zero =>
          rintro place hplace - rfl
          exact mem_atMost_of_mem hplace
      | succ k ihk =>
          rintro place hplace hk ⟨middle, hstep, hsteps⟩
          by_cases hseen : middle ∈ seen
          -- the step stays among the places that have been seen, and the round goes on
          · exact ihk hseen (by omega) hsteps
          -- the step leads to a new place, so it is made from one of the last places and takes a
          -- round
          · have hlast : place ∈ last := Decidable.byContradiction fun hnot =>
              hseen (hclosed place hplace hnot middle hstep)
            have hnew : middle ∈ (next last).filter fun place => !seen.contains place := by
              rw [List.mem_filter]
              exact ⟨(hnext _ _).2 ⟨place, hlast, hstep⟩, by simpa using hseen⟩
            rw [atMost]
            split
            · rename_i hnone
              rw [hnone] at hnew
              cases hnew
            · exact ih (hclosed.round hnext) (List.mem_append_right _ hnew) (by omega) hsteps

theorem mem_atMost_iff {n : Nat} {places : List Place} :
    stop ∈ atMost next n places places ↔ ∃ place ∈ places, ∃ k ≤ n, Steps step k place stop := by
  constructor
  · intro h
    rcases of_mem_atMost hnext h with hseen | hreached
    · exact ⟨stop, hseen, 0, by omega, rfl⟩
    · exact hreached
  · rintro ⟨place, hplace, k, hk, hsteps⟩
    exact mem_atMost_of_steps hnext (fun _ hseen hnot => absurd hseen hnot) hplace hk hsteps

end Reached

/-- The places where a number of pieces may end: as many as there must be, and then as many more as
there may be. -/
theorem ends_times (part : Pattern) (least : Nat) (most : Option Nat) (places : List Place) :
    (Pattern.times part least most).ends places
      = atMost part.ends
          (most.elim (reach (exactly part.ends least places) + 1) fun bound => bound - least)
          (exactly part.ends least places) (exactly part.ends least places) := by
  cases most <;> rfl

/-- **The search finds the ends of what the pattern describes.** -/
theorem mem_ends_iff {pattern : Pattern} {places : List Place} :
    stop ∈ pattern.ends places ↔ ∃ place ∈ places, pattern.Leads place stop := by
  induction pattern generalizing places stop with
  | empty => simp [ends, leads_empty_iff]
  | char set => simp [ends, leads_char_iff]
  | assert assertion =>
      simp only [ends, List.mem_filter, leads_assert_iff]
      constructor
      · rintro ⟨hmem, hholds⟩
        exact ⟨stop, hmem, hholds, rfl⟩
      · rintro ⟨place, hmem, hholds, rfl⟩
        exact ⟨hmem, hholds⟩
  | seq first second ihfirst ihsecond =>
      rw [ends, ihsecond]
      constructor
      · rintro ⟨middle, hmiddle, hsecond⟩
        obtain ⟨place, hplace, hfirst⟩ := ihfirst.1 hmiddle
        exact ⟨place, hplace, leads_seq_iff.2 ⟨middle, hfirst, hsecond⟩⟩
      · rintro ⟨place, hplace, hleads⟩
        obtain ⟨middle, hfirst, hsecond⟩ := leads_seq_iff.1 hleads
        exact ⟨middle, ihfirst.2 ⟨place, hplace, hfirst⟩, hsecond⟩
  | either first second ihfirst ihsecond =>
      rw [ends, mem_join, ihfirst, ihsecond, ← exists_or]
      exact exists_congr fun place => by rw [leads_either_iff, ← and_or_left]
  | times part least most ih =>
      have hnext : ∀ places stop,
          stop ∈ part.ends places ↔ ∃ place ∈ places, part.Leads place stop := fun _ _ => ih
      rw [ends_times, mem_atMost_iff hnext]
      constructor
      · rintro ⟨middle, hmiddle, k, hk, hmore⟩
        obtain ⟨place, hplace, hleast⟩ := (mem_exactly_iff hnext).1 hmiddle
        refine ⟨place, hplace, leads_times_iff.2 ⟨least + k, by omega, ?_,
          steps_add_iff.2 ⟨middle, hleast, hmore⟩⟩⟩
        rintro bound rfl
        rw [Option.elim_some] at hk
        omega
      · rintro ⟨place, hplace, hleads⟩
        obtain ⟨n, hleast, hmost, hsteps⟩ := leads_times_iff.1 hleads
        obtain ⟨more, rfl⟩ := Nat.exists_eq_add_of_le hleast
        obtain ⟨middle, hfirst, hmore⟩ := steps_add_iff.1 hsteps
        have hmiddle := (mem_exactly_iff hnext).2 ⟨place, hplace, hfirst⟩
        cases most with
        | some bound =>
            have hbound := hmost bound rfl
            exact ⟨middle, hmiddle, more, by rw [Option.elim_some]; omega, hmore⟩
        | none =>
            -- the rounds are one more than the characters that any place has before it
            obtain ⟨k, hk, hsteps⟩ := exists_steps_le (movesOn_leads part) hmore
            have hreach := length_le_reach hmiddle
            exact ⟨middle, hmiddle, k, by rw [Option.elim_none]; omega, hsteps⟩

/-! ## Matches -/

theorem mem_placesFrom {before text : List Char} :
    place ∈ placesFrom before text ↔
      ∃ passed, text = passed ++ place.after ∧ place.before = passed.reverse ++ before := by
  induction text generalizing before with
  | nil =>
      rw [placesFrom, List.mem_singleton]
      constructor
      · rintro rfl
        exact ⟨[], rfl, rfl⟩
      · rintro ⟨passed, htext, hbefore⟩
        obtain ⟨rfl, -⟩ := List.append_eq_nil_iff.1 htext.symm
        exact (@eq_of_no_piece ⟨before, []⟩ place htext hbefore).symm
  | cons c rest ih =>
      rw [placesFrom, List.mem_cons, ih]
      constructor
      · rintro (rfl | ⟨passed, rfl, hbefore⟩)
        · exact ⟨[], rfl, rfl⟩
        · exact ⟨c :: passed, rfl, by simp [hbefore]⟩
      · rintro ⟨passed, htext, hbefore⟩
        cases passed with
        | nil => exact Or.inl (@eq_of_no_piece ⟨before, c :: rest⟩ place htext hbefore).symm
        | cons d passed =>
            obtain ⟨rfl, hrest⟩ := List.cons.inj htext
            exact Or.inr ⟨passed, hrest, by simpa using hbefore⟩

/-- **A pattern matches a text exactly if it describes a piece of it.** -/
theorem isMatch_iff {pattern : Pattern} {text : String} :
    pattern.isMatch text = true ↔
      ∃ front piece back, text.toList = front ++ piece ++ back ∧
        pattern.Describes front.reverse piece back := by
  rw [isMatch, Bool.not_eq_true', List.isEmpty_eq_false_iff_exists_mem]
  constructor
  -- the place where the match starts divides the text, what it has passed is kept in reverse
  · rintro ⟨stop, hstop⟩
    obtain ⟨place, hplace, piece, hafter, -, hdescribes⟩ := mem_ends_iff.1 hstop
    obtain ⟨front, htext, hbefore⟩ := mem_placesFrom.1 hplace
    rw [List.append_nil] at hbefore
    refine ⟨front, piece, stop.after, ?_, ?_⟩
    · rw [htext, hafter, List.append_assoc]
    · rw [← hbefore]
      exact hdescribes
  · rintro ⟨front, piece, back, htext, hdescribes⟩
    refine ⟨_, mem_ends_iff.2 ⟨_, mem_placesFrom.2 ⟨front, ?_, ?_⟩, leads_of_describes hdescribes⟩⟩
    · rw [htext, List.append_assoc]
    · rw [List.append_nil]

/-! ## Sequences

What a sequence describes, by what it begins with. -/

section Sequences

variable {set : CharSet} {rest : Pattern} {before piece after : List Char}

theorem describes_empty_iff : Pattern.empty.Describes before piece after ↔ piece = [] := Iff.rfl

theorem describes_seq_assert_iff {assertion : Assertion} :
    (Pattern.seq (.assert assertion) rest).Describes before piece after ↔
      assertion.holds ⟨before, piece ++ after⟩ = true ∧ rest.Describes before piece after := by
  constructor
  · rintro ⟨_, tail, ⟨hholds, rfl⟩, hrest, rfl⟩
    exact ⟨hholds, hrest⟩
  · rintro ⟨hholds, hrest⟩
    exact ⟨[], piece, ⟨hholds, rfl⟩, hrest, rfl⟩

theorem describes_seq_char_iff :
    (Pattern.seq (.char set) rest).Describes before piece after ↔
      ∃ c tail, set.contains c = true ∧ rest.Describes (c :: before) tail after ∧
        piece = c :: tail := by
  constructor
  · rintro ⟨_, tail, ⟨c, hc, rfl⟩, hrest, rfl⟩
    exact ⟨c, tail, hc, hrest, rfl⟩
  · rintro ⟨c, tail, hc, hrest, rfl⟩
    exact ⟨[c], tail, ⟨c, hc, rfl⟩, hrest, rfl⟩

/-- The pattern describes the pieces of a kind, whatever lies around them. -/
def Stands (pattern : Pattern) (kind : List Char → Prop) : Prop :=
  ∀ before piece after, pattern.Describes before piece after ↔ kind piece

theorem stands_char (set : CharSet) :
    Stands (.char set) fun piece => ∃ c, set.contains c = true ∧ piece = [c] :=
  fun _ _ _ => Iff.rfl

theorem Stands.inRow_iff {part : Pattern} {kind : List Char → Prop} (h : part.Stands kind)
    {pieces : List (List Char)} :
    InRow part.Describes pieces before after ↔ ∀ piece ∈ pieces, kind piece := by
  induction pieces generalizing before with
  | nil => simp [InRow]
  | cons piece pieces ih => rw [InRow, h, ih, List.forall_mem_cons]

theorem Stands.describes_seq_times_iff {part : Pattern} {kind : List Char → Prop}
    (h : part.Stands kind) {least : Nat} :
    (Pattern.seq (.times part least none) rest).Describes before piece after ↔
      ∃ (pieces : List (List Char)) (tail : List Char), least ≤ pieces.length ∧
        (∀ piece ∈ pieces, kind piece) ∧
        rest.Describes (pieces.flatten.reverse ++ before) tail after ∧
        piece = pieces.flatten ++ tail := by
  constructor
  · rintro ⟨_, tail, ⟨pieces, hleast, -, hrow, rfl⟩, hrest, rfl⟩
    exact ⟨pieces, tail, hleast, h.inRow_iff.1 hrow, hrest, rfl⟩
  · rintro ⟨pieces, tail, hleast, hkind, hrest, rfl⟩
    exact ⟨_, tail, ⟨pieces, hleast, by simp, h.inRow_iff.2 hkind, rfl⟩, hrest, rfl⟩

theorem describes_seq_run_iff {least : Nat} :
    (Pattern.seq (.times (.char set) least none) rest).Describes before piece after ↔
      ∃ run tail, least ≤ run.length ∧ (∀ c ∈ run, set.contains c = true) ∧
        rest.Describes (run.reverse ++ before) tail after ∧ piece = run ++ tail := by
  rw [(stands_char set).describes_seq_times_iff]
  constructor
  · rintro ⟨pieces, tail, hleast, hkind, hrest, rfl⟩
    -- each piece is one character, so there are as many of them as characters
    have hlength : pieces.flatten.length = pieces.length := by
      rw [List.length_flatten, List.map_eq_replicate_iff.2, List.sum_replicate_nat, Nat.mul_one]
      intro piece hpiece
      obtain ⟨c, -, rfl⟩ := hkind piece hpiece
      rfl
    refine ⟨pieces.flatten, tail, by omega, ?_, hrest, rfl⟩
    intro c hc
    obtain ⟨piece, hpiece, hmem⟩ := List.mem_flatten.1 hc
    obtain ⟨d, hd, rfl⟩ := hkind piece hpiece
    rwa [List.mem_singleton.1 hmem]
  · rintro ⟨run, tail, hleast, hrun, hrest, rfl⟩
    have hflatten : (run.map fun c => [c]).flatten = run := by
      rw [← List.flatMap_def, List.flatMap_singleton']
    refine ⟨run.map fun c => [c], tail, by simpa using hleast, ?_, ?_, ?_⟩
    · intro piece hpiece
      obtain ⟨c, hc, rfl⟩ := List.mem_map.1 hpiece
      exact ⟨c, hrun c hc, rfl⟩
    · rwa [hflatten]
    · rw [hflatten]

end Sequences

end RepoPolicy.Pattern
