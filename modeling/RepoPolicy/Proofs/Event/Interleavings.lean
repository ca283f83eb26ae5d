import RepoPolicy.Event.Milestone

set_option autoImplicit false

/-! # Interleavings of runs

Several runs publish their events to one place, each in its own order. `Interleaving` says that a
history mixes some lists in this way. Whether a milestone may follow a history depends on the
milestones of its own run only (`breach?_congr`), and of an interleaving a run sees its own list
(`Interleaving.filter_eq`), so that a history of many runs is as good as each of them alone. -/

namespace RepoPolicy

/-! ## Interleavings -/

/-- The history takes the items of the lists one by one, each time the first item of any list. -/
inductive Interleaving {α : Type} : List (List α) → List α → Prop where
  /-- All lists are used up. -/
  | done {lists : List (List α)} (empty : ∀ list ∈ lists, list = []) : Interleaving lists []
  /-- The first item of the list at a position comes next. -/
  | next {lists : List (List α)} {history : List α} (position : Nat) (item : α) (rest : List α)
      (found : lists[position]? = some (item :: rest))
      (more : Interleaving (lists.set position rest) history) : Interleaving lists (item :: history)

section Interleavings

variable {α : Type} {lists : List (List α)} {history : List α}

theorem getElem?_set_cases {position i : Nat} {rest list : List α}
    (h : (lists.set position rest)[i]? = some list) :
    (i = position ∧ list = rest) ∨ (i ≠ position ∧ lists[i]? = some list) := by
  by_cases heq : i = position
  · subst heq
    rw [List.getElem?_set_self'] at h
    cases hget : lists[i]? with
    | none => simp [hget] at h
    | some old =>
        simp only [hget, Option.map_eq_map, Option.map_some, Function.const_apply,
          Option.some.injEq] at h
        exact .inl ⟨rfl, h.symm⟩
  · rw [List.getElem?_set_ne (Ne.symm heq)] at h
    exact .inr ⟨heq, h⟩

/-- Every item of the history comes from one of the lists. -/
theorem Interleaving.mem_lists (h : Interleaving lists history) :
    ∀ x ∈ history, ∃ list ∈ lists, x ∈ list := by
  induction h with
  | done _ => intro x hx; cases hx
  | next position item rest found _ ih =>
      intro x hx
      rcases List.mem_cons.1 hx with rfl | hx
      · exact ⟨x :: rest, List.mem_of_getElem? found, by simp⟩
      · obtain ⟨list, hlist, hmem⟩ := ih x hx
        obtain ⟨i, hi⟩ := List.mem_iff_getElem?.1 hlist
        rcases getElem?_set_cases hi with ⟨-, rfl⟩ | ⟨-, hold⟩
        · exact ⟨item :: list, List.mem_of_getElem? found, List.mem_cons_of_mem _ hmem⟩
        · exact ⟨list, List.mem_of_getElem? hold, hmem⟩

/-- **Each list keeps its order.** If a property tells the items of one list from those of all
others, the items of the history that have it are that list. -/
theorem Interleaving.filter_eq (own : α → Bool) (h : Interleaving lists history) :
    ∀ (i : Nat) (list : List α), lists[i]? = some list → (∀ x ∈ list, own x = true) →
      (∀ j other, lists[j]? = some other → j ≠ i → ∀ x ∈ other, own x = false) →
      history.filter own = list := by
  induction h with
  | done empty =>
      intro i list hlist _ _
      rw [empty list (List.mem_of_getElem? hlist)]
      rfl
  | @next lists history position item rest found _ ih =>
      intro i list hlist hown hothers
      -- The other lists only lose items, so the property still tells them apart.
      have hothers' : ∀ j other, (lists.set position rest)[j]? = some other → j ≠ i →
          ∀ x ∈ other, own x = false := by
        intro j other hother hne x hx
        rcases getElem?_set_cases hother with ⟨rfl, rfl⟩ | ⟨-, hold⟩
        · exact hothers j (item :: other) found hne x (List.mem_cons_of_mem _ hx)
        · exact hothers j other hold hne x hx
      by_cases hposition : i = position
      · subst hposition
        rw [found, Option.some.injEq] at hlist
        subst hlist
        have hget : (lists.set i rest)[i]? = some rest := by
          rw [List.getElem?_set_self', found]
          rfl
        rw [List.filter_cons_of_pos (hown item (by simp)),
          ih i rest hget (fun x hx => hown x (List.mem_cons_of_mem _ hx)) hothers']
      · have hitem : own item = false :=
          hothers position (item :: rest) found (Ne.symm hposition) item (by simp)
        have hget : (lists.set position rest)[i]? = some list := by
          rw [List.getElem?_set_ne (Ne.symm hposition)]
          exact hlist
        rw [List.filter_cons_of_neg (by simp [hitem])]
        exact ih i list hget hown hothers'

theorem Interleaving.append (first second : List α) :
    Interleaving [first, second] (first ++ second) := by
  induction first with
  | nil =>
      induction second with
      | nil => exact .done (by simp)
      | cons item rest ih => exact .next 1 item rest rfl ih
  | cons item rest ih => exact .next 0 item rest rfl ih

end Interleavings

/-! ## Sequences of milestones -/

/-- Whether a milestone breaches a history depends on what the history says about its own run. -/
theorem Milestone.breach?_congr {milestone : Milestone} {history other : List Milestone}
    (h : ∀ kind, (⟨milestone.runId, kind⟩ : Milestone) ∈ history ↔ ⟨milestone.runId, kind⟩ ∈ other) :
    milestone.breach? history = milestone.breach? other := by
  have hseen : ∀ kind, history.contains (⟨milestone.runId, kind⟩ : Milestone)
      = other.contains ⟨milestone.runId, kind⟩ := by
    intro kind
    rw [Bool.eq_iff_iff, List.contains_iff_mem, List.contains_iff_mem]
    exact h kind
  simp only [Milestone.breach?, hseen]

/-- A milestone breaches a history if and only if it breaches the part about its own run. -/
theorem Milestone.breach?_filter (milestone : Milestone) (history : List Milestone) :
    milestone.breach? (history.filter (·.runId == milestone.runId)) = milestone.breach? history := by
  apply Milestone.breach?_congr
  intro kind
  simp [List.mem_filter]

theorem breachesAfter_all_none_iff (milestones history : List Milestone) :
    (∀ found ∈ breachesAfter history milestones, found.2 = none) ↔
      ∀ earlier milestone later, milestones = earlier ++ milestone :: later →
        milestone.breach? (history ++ earlier) = none := by
  induction milestones generalizing history with
  | nil => simp [breachesAfter]
  | cons first rest ih =>
      rw [breachesAfter, List.forall_mem_cons, ih]
      constructor
      · rintro ⟨hfirst, hrest⟩ earlier milestone later heq
        cases earlier with
        | nil =>
            obtain ⟨rfl, -⟩ := List.cons.inj heq
            simpa using hfirst
        | cons x earlier =>
            obtain ⟨rfl, htail⟩ := List.cons.inj heq
            simpa using hrest earlier milestone later htail
      · intro h
        -- the milestones before one of the rest are the first one and those of the rest
        refine ⟨by simpa using h [] first rest rfl, ?_⟩
        intro earlier milestone later heq
        simpa using h (first :: earlier) milestone later (by rw [heq]; rfl)

/-- **A sequence is accepted exactly when no milestone breaches those before it.** -/
theorem checkSequence_isValid_iff (milestones : List Milestone) :
    (checkSequence milestones).isValid = true ↔
      ∀ earlier milestone later, milestones = earlier ++ milestone :: later →
        milestone.breach? earlier = none := by
  have hnone : (checkSequence milestones).isValid = true ↔
      ∀ found ∈ breachesAfter [] milestones, found.2 = none := by
    rw [checkSequence, SequenceReport.ofViolations, List.isEmpty_iff, breachTexts,
      List.filterMap_eq_nil_iff]
    simp only [Option.map_eq_none_iff]
  rw [hnone, breachesAfter_all_none_iff]
  simp only [List.nil_append]

/-! ## Milestones of events -/

theorem Milestone.runId_of_ofLifecycle? {event : LifecycleEvent} {milestone : Milestone}
    (h : Milestone.ofLifecycle? event = some milestone) : milestone.runId = event.runId := by
  cases event with
  | started start =>
      simp only [Milestone.ofLifecycle?, Option.some.injEq] at h
      rw [← h]
      rfl
  | batch batch => cases h
  | completed done =>
      simp only [Milestone.ofLifecycle?] at h
      split at h <;> (rw [Option.some.injEq] at h; rw [← h]; rfl)

theorem filter_filterMap_ofLifecycle? (run : RunId) (events : List LifecycleEvent) :
    (events.filterMap Milestone.ofLifecycle?).filter (·.runId == run)
      = (events.filter (·.runId == run)).filterMap Milestone.ofLifecycle? := by
  induction events with
  | nil => rfl
  | cons event rest ih =>
      cases hevent : Milestone.ofLifecycle? event with
      | none =>
          rw [List.filterMap_cons_none hevent, ih]
          by_cases hrun : event.runId = run
          · rw [List.filter_cons_of_pos (by simp [hrun]), List.filterMap_cons_none hevent]
          · rw [List.filter_cons_of_neg (by simp [hrun])]
      | some milestone =>
          -- a milestone belongs to the run of the event that it is of
          have hid := Milestone.runId_of_ofLifecycle? hevent
          rw [List.filterMap_cons_some hevent]
          by_cases hrun : event.runId = run
          · rw [List.filter_cons_of_pos (by simp [hid, hrun]),
              List.filter_cons_of_pos (by simp [hrun]), List.filterMap_cons_some hevent, ih]
          · rw [List.filter_cons_of_neg (by simp [hid, hrun]),
              List.filter_cons_of_neg (by simp [hrun]), ih]

end RepoPolicy
