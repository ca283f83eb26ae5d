import Mathlib.Data.List.DropRight
import Mathlib.Data.List.MinMax
import RepoPolicy.Check.ModulePath

set_option autoImplicit false

/-! # The longest prefix above a module

A prefix names a module, whatever dots stand at its end (`named`), and it is above that module and
all below it. Of the prefixes above a module `longestAbove` takes one that is longest as it is
written, dots at its end counted (`hasLargest_of_longestAbove`). It always takes one that names
most of the path of the module exactly if every prefix counts for the module that it names
(`takes_nearest_iff`). A prefix with a single dot at its end is still shorter than all prefixes
below it, so that only two dots or more can outweigh another prefix
(`eachCounts_of_single_dots`). -/

namespace RepoPolicy

/-! ## The module that a prefix names -/

/-- The module that a prefix names: the prefix without the dots at its end. -/
def named (above : String) : String := String.ofList (dropTrailingDots above.toList)

theorem toList_named (above : String) :
    (named above).toList = above.toList.rdropWhile (· == '.') := String.toList_ofList

theorem named_ne_append_dot (above front : String) : named above ≠ front ++ "." := by
  intro h
  have hlist : above.toList.rdropWhile (· == '.') = front.toList ++ ['.'] := by
    rw [← toList_named, h, String.toList_append]
    rfl
  have hlast := List.rdropWhile_last_not (· == '.') above.toList (by simp [hlist])
  simp [hlist] at hlast

/-- What stands behind the module that a prefix names are dots. -/
theorem exists_dots (above : String) :
    ∃ dots : List Char, (∀ c ∈ dots, c = '.') ∧ above = named above ++ String.ofList dots := by
  refine ⟨above.toList.rtakeWhile (· == '.'), ?_, ?_⟩
  · intro c hc
    simpa using List.mem_rtakeWhile_imp hc
  · rw [← String.toList_inj, String.toList_append, toList_named, String.toList_ofList,
      List.rdropWhile_append_rtakeWhile]

theorem size_named_le (above : String) : (named above).utf8ByteSize ≤ above.utf8ByteSize := by
  obtain ⟨dots, -, hdots⟩ := exists_dots above
  rw [congrArg String.utf8ByteSize hdots, String.utf8ByteSize_append]
  exact Nat.le_add_right _ _

/-- A prefix that does not end in two dots has at most one beyond the module that it names. -/
theorem size_le_of_single_dot {above : String} (h : ¬['.', '.'] <:+ above.toList) :
    above.utf8ByteSize ≤ (named above).utf8ByteSize + 1 := by
  obtain ⟨dots, hall, hdots⟩ := exists_dots above
  rw [congrArg String.utf8ByteSize hdots, String.utf8ByteSize_append]
  refine Nat.add_le_add_left ?_ _
  match dots with
  | [] => decide
  | [c] =>
      obtain rfl := hall c (by simp)
      decide
  | c :: d :: more =>
      refine absurd ?_ h
      have hends : ['.', '.'] <:+ c :: d :: more := by
        rw [List.eq_replicate_of_mem hall]
        exact ⟨List.replicate more.length '.', List.replicate_append_replicate (m := 2)⟩
      rw [hdots, String.toList_append, String.toList_ofList]
      exact hends.trans (List.suffix_append _ _)

/-! ## Modules below a prefix -/

/-- A module lies below a prefix if it is the one that the prefix names, or if a dot follows that
name in its path. -/
theorem liesBelow_iff {module above : String} :
    liesBelow module above = true ↔
      module = named above ∨ ∃ rest, module = named above ++ "." ++ rest := by
  rw [liesBelow, Bool.or_eq_true, Bool.and_eq_true, List.isPrefixOf_iff_prefix, beq_iff_eq,
    beq_iff_eq]
  refine or_congr ?_ ?_
  · rw [← String.toList_inj, named, String.toList_ofList]
  · constructor
    · rintro ⟨⟨behind, hbehind⟩, hdot⟩
      rw [← hbehind, List.drop_left, List.head?_eq_some_iff] at hdot
      obtain ⟨rest, rfl⟩ := hdot
      refine ⟨String.ofList rest, ?_⟩
      rw [← String.toList_inj, ← hbehind]
      simp [named]
    · rintro ⟨rest, rfl⟩
      simp [named]

theorem liesBelow_named (above : String) : liesBelow (named above) above = true :=
  liesBelow_iff.2 (Or.inl rfl)

theorem liesBelow_trans {module above higher : String} (h : liesBelow module above = true)
    (habove : liesBelow (named above) higher = true) : liesBelow module higher = true := by
  rw [liesBelow_iff] at h habove ⊢
  rcases habove with hsame | ⟨between, hbetween⟩
  · rwa [← hsame]
  · refine Or.inr ?_
    rcases h with rfl | ⟨rest, rfl⟩
    · exact ⟨between, hbetween⟩
    · exact ⟨between ++ "." ++ rest, by simp only [hbetween, String.append_assoc]⟩

/-- A prefix above the module that another one names is shorter by two characters at least, unless
it names the same module. -/
theorem size_of_liesBelow_named {above higher : String}
    (h : liesBelow (named above) higher = true) :
    named higher = named above ∨
      (named higher).utf8ByteSize + 2 ≤ (named above).utf8ByteSize := by
  rcases liesBelow_iff.1 h with hsame | ⟨between, hbetween⟩
  · exact Or.inl hsame.symm
  · refine Or.inr ?_
    have hsome : between.utf8ByteSize ≠ 0 := by
      intro hzero
      rw [String.utf8ByteSize_eq_zero_iff.1 hzero, String.append_empty] at hbetween
      exact named_ne_append_dot _ _ hbetween
    have hdot : ".".utf8ByteSize = 1 := rfl
    rw [hbetween, String.utf8ByteSize_append, String.utf8ByteSize_append, hdot]
    omega

theorem exists_behind_of_liesBelow {module above : String} (h : liesBelow module above = true) :
    ∃ behind, module.toList = (named above).toList ++ behind ∧ ∀ c ∈ behind.head?, c = '.' := by
  rcases liesBelow_iff.1 h with rfl | ⟨rest, rfl⟩
  · exact ⟨[], by simp, by simp⟩
  · exact ⟨'.' :: rest.toList, by simp, by simp⟩

/-- Of two prefixes above a module, the one that is not longer is above what the other names. -/
theorem liesBelow_named_of_size_le {module above higher : String}
    (h : liesBelow module above = true) (hhigher : liesBelow module higher = true)
    (hle : (named higher).utf8ByteSize ≤ (named above).utf8ByteSize) :
    liesBelow (named above) higher = true := by
  obtain ⟨behind, hbehind, -⟩ := exists_behind_of_liesBelow h
  obtain ⟨more, hmore, hdot⟩ := exists_behind_of_liesBelow hhigher
  rw [liesBelow_iff]
  rcases List.append_eq_append_iff.1 (hbehind.symm.trans hmore) with
    ⟨between, hbetween, -⟩ | ⟨between, hbetween, rfl⟩
  · -- the name that is not longer begins with the other one, so it is the same
    have hname : named higher = named above ++ String.ofList between := by
      rw [← String.toList_inj, hbetween, String.toList_append, String.toList_ofList]
    rw [hname, String.utf8ByteSize_append] at hle
    have hsize : (String.ofList between).utf8ByteSize = 0 := by omega
    rw [hname, String.utf8ByteSize_eq_zero_iff.1 hsize, String.append_empty]
    exact Or.inl rfl
  · cases between with
    | nil =>
        refine Or.inl ?_
        rw [← String.toList_inj, hbetween, List.append_nil]
    | cons c rest =>
        obtain rfl : c = '.' := hdot c (by simp)
        refine Or.inr ⟨String.ofList rest, ?_⟩
        rw [← String.toList_inj, hbetween]
        simp

/-! ## The longest prefix -/

section Longest

variable {α : Type} {items : List (α × String)} {module : String}

/-- What is chosen is the best so far or one of the items to come, and none of them is longer. -/
theorem foldl_chooseLonger_some (items : List (α × String)) (best : α × String) :
    ∃ chosen, items.foldl chooseLonger (some best) = some chosen ∧ chosen ∈ best :: items ∧
      ∀ other ∈ best :: items, other.2.utf8ByteSize ≤ chosen.2.utf8ByteSize := by
  induction items generalizing best with
  | nil => exact ⟨best, rfl, by simp, by simp⟩
  | cons next items ih =>
      by_cases hshorter : next.2.utf8ByteSize < best.2.utf8ByteSize
      -- the next item is shorter and dropped; it is no longer than the best one, nor than what is
      -- chosen
      · obtain ⟨chosen, hchosen, hmem, hlongest⟩ := ih best
        have hstep : chooseLonger (some best) next = some best := if_pos hshorter
        refine ⟨chosen, by rw [List.foldl_cons, hstep, hchosen], ?_, ?_⟩
        · rcases List.mem_cons.1 hmem with rfl | hmem
          · exact List.mem_cons_self
          · exact List.mem_cons_of_mem _ (List.mem_cons_of_mem _ hmem)
        · have hbest := hlongest best List.mem_cons_self
          intro other hother
          rcases List.mem_cons.1 hother with rfl | hother
          · exact hbest
          rcases List.mem_cons.1 hother with rfl | hother
          · omega
          · exact hlongest other (List.mem_cons_of_mem _ hother)
      -- the next item is at least as long and takes the place of the best one
      · obtain ⟨chosen, hchosen, hmem, hlongest⟩ := ih next
        have hstep : chooseLonger (some best) next = some next := if_neg hshorter
        refine ⟨chosen, by rw [List.foldl_cons, hstep, hchosen], List.mem_cons_of_mem _ hmem, ?_⟩
        have hnext := hlongest next List.mem_cons_self
        intro other hother
        rcases List.mem_cons.1 hother with rfl | hother
        · omega
        · exact hlongest other hother

/-- There is no longest prefix exactly if none is above the module. -/
theorem longestAbove_eq_none_iff :
    longestAbove items module = none ↔ ∀ entry ∈ items, liesBelow module entry.2 = false := by
  rw [longestAbove, Option.map_eq_none_iff]
  cases hfilter : items.filter (fun entry => liesBelow module entry.2) with
  | nil => simpa using hfilter
  | cons first others =>
      obtain ⟨chosen, hchosen, -, -⟩ := foldl_chooseLonger_some others first
      have hfirst : first ∈ items.filter (fun entry => liesBelow module entry.2) := by
        simp [hfilter]
      rw [List.mem_filter] at hfirst
      have hsome : (first :: others).foldl chooseLonger none = some chosen := hchosen
      rw [hsome]
      simp only [reduceCtorEq, false_iff, not_forall]
      exact ⟨first, hfirst.1, by simp [hfirst.2]⟩

theorem exists_longestAbove_named {entry : α × String} (hentry : entry ∈ items) :
    ∃ item, longestAbove items (named entry.2) = some item := by
  rw [← Option.ne_none_iff_exists', ne_eq, longestAbove_eq_none_iff]
  intro hnone
  simpa [liesBelow_named] using hnone entry hentry

/-- The item has a prefix above the module, and no prefix above it has a larger size. -/
def HasLargest (size : String → Nat) (items : List (α × String)) (module : String) (item : α) :
    Prop :=
  ∃ above, (item, above) ∈ items ∧ liesBelow module above = true ∧
    ∀ entry ∈ items, liesBelow module entry.2 = true → size entry.2 ≤ size above

/-- The item that is taken has the longest of the prefixes above the module, as they are written. -/
theorem hasLargest_of_longestAbove {item : α} (h : longestAbove items module = some item) :
    HasLargest String.utf8ByteSize items module item := by
  obtain ⟨⟨item', above⟩, hfold, rfl⟩ := Option.map_eq_some_iff.1 h
  cases hfilter : items.filter (fun entry => liesBelow module entry.2) with
  | nil => simp [hfilter] at hfold
  | cons first others =>
      obtain ⟨chosen, hchosen, hmem, hlongest⟩ := foldl_chooseLonger_some others first
      have hsame : chosen = (item', above) := by
        have hsome : (first :: others).foldl chooseLonger none = some chosen := hchosen
        rw [hfilter, hsome] at hfold
        exact Option.some.inj hfold
      subst hsame
      rw [← hfilter] at hmem hlongest
      obtain ⟨hitem, hbelow⟩ := List.mem_filter.1 hmem
      exact ⟨above, hitem, hbelow, fun entry hentry hentryBelow =>
        hlongest entry (List.mem_filter.2 ⟨hentry, hentryBelow⟩)⟩

/-- What is taken depends only on which prefixes are above the module. -/
theorem longestAbove_congr {other : String}
    (h : ∀ entry ∈ items, liesBelow module entry.2 = liesBelow other entry.2) :
    longestAbove items module = longestAbove items other := by
  rw [longestAbove, longestAbove, List.filter_congr h]

/-! ## The nearest module that is named -/

def namedSize (above : String) : Nat := (named above).utf8ByteSize

/-- Each prefix counts for the module that it names: the item chosen there has a prefix for it. -/
def EachCounts (choose : String → Option α) (items : List (α × String)) : Prop :=
  ∀ entry ∈ items, ∃ item above, choose (named entry.2) = some item ∧
    (item, above) ∈ items ∧ named above = named entry.2

/-- At the module that a prefix names, the nearest prefixes are those that name it. -/
theorem named_eq_of_hasLargest {entry : α × String} {item : α} (hentry : entry ∈ items)
    (h : HasLargest namedSize items (named entry.2) item) :
    ∃ above, (item, above) ∈ items ∧ named above = named entry.2 := by
  obtain ⟨above, hitem, hbelow, hlongest⟩ := h
  have hle : (named entry.2).utf8ByteSize ≤ (named above).utf8ByteSize :=
    hlongest entry hentry (liesBelow_named _)
  refine ⟨above, hitem, ?_⟩
  rcases size_of_liesBelow_named hbelow with hsame | hshorter
  · exact hsame
  · omega

/-- Every module with a prefix above it has a nearest prefix, and the prefixes above the module are
those above what the nearest one names. -/
theorem exists_nearest {entry : α × String} (hentry : entry ∈ items)
    (hbelow : liesBelow module entry.2 = true) :
    ∃ nearest ∈ items,
      (∀ other ∈ items, liesBelow module other.2 = true → namedSize other.2 ≤ namedSize nearest.2) ∧
      ∀ other ∈ items, liesBelow module other.2 = liesBelow (named nearest.2) other.2 := by
  -- the nearest prefix is one with the longest name among those above the module
  have hmem : entry ∈ items.filter (fun entry => liesBelow module entry.2) :=
    List.mem_filter.2 ⟨hentry, hbelow⟩
  obtain ⟨nearest, hnearest⟩ := Option.ne_none_iff_exists'.1
    (mt List.argmax_eq_none.1 (List.ne_nil_of_mem hmem) :
      (items.filter fun entry => liesBelow module entry.2).argmax
        (fun entry => namedSize entry.2) ≠ none)
  obtain ⟨hitem, habove⟩ := List.mem_filter.1 (List.argmax_mem hnearest)
  have hlongest : ∀ other ∈ items, liesBelow module other.2 = true →
      namedSize other.2 ≤ namedSize nearest.2 := by
    intro other hother hotherBelow
    exact List.le_of_mem_argmax (f := fun entry : α × String => namedSize entry.2)
      (List.mem_filter.2 ⟨hother, hotherBelow⟩) hnearest
  refine ⟨nearest, hitem, hlongest, ?_⟩
  intro other hother
  rw [Bool.eq_iff_iff]
  -- what is above the module is not longer than the nearest prefix, so it is above that
  exact ⟨fun h => liesBelow_named_of_size_le habove h (hlongest other hother h),
    liesBelow_trans habove⟩

/-- For every module an item with a nearest prefix is taken exactly if each prefix counts for the
module that it names. -/
theorem takes_nearest_iff :
    (∀ module item, longestAbove items module = some item →
        HasLargest namedSize items module item) ↔
      EachCounts (longestAbove items) items := by
  constructor
  · intro h entry hentry
    obtain ⟨item, hitem⟩ := exists_longestAbove_named hentry
    obtain ⟨above, habove, hsame⟩ := named_eq_of_hasLargest hentry (h _ _ hitem)
    exact ⟨item, above, hitem, habove, hsame⟩
  · intro h module item hitem
    obtain ⟨written, hwritten, hbelow, -⟩ := hasLargest_of_longestAbove hitem
    obtain ⟨nearest, hnearest, hlongest, hsame⟩ := exists_nearest hwritten hbelow
    obtain ⟨item', above, hitem', hmem, hnamed⟩ := h nearest hnearest
    -- at the module and at what its nearest prefix names, the same item is taken
    rw [longestAbove_congr hsame, hitem', Option.some.injEq] at hitem
    subst hitem
    refine ⟨above, hmem, ?_, ?_⟩
    · rw [hsame _ hmem, ← hnamed]
      exact liesBelow_named above
    · rw [namedSize, hnamed]
      exact hlongest

/-- Prefixes with no more than one dot at their end all count. -/
theorem eachCounts_of_single_dots (h : ∀ entry ∈ items, ¬['.', '.'] <:+ entry.2.toList) :
    EachCounts (longestAbove items) items := by
  intro entry hentry
  obtain ⟨item, hitem⟩ := exists_longestAbove_named hentry
  obtain ⟨above, hmem, hbelow, hlongest⟩ := hasLargest_of_longestAbove hitem
  refine ⟨item, above, hitem, hmem, ?_⟩
  rcases size_of_liesBelow_named hbelow with hsame | hshorter
  · exact hsame
  · have hentryLe := hlongest entry hentry (liesBelow_named _)
    have habove : above.utf8ByteSize ≤ (named above).utf8ByteSize + 1 :=
      size_le_of_single_dot (h _ hmem)
    have hnamed := size_named_le entry.2
    omega

/-- How the items are chosen to which modules belong: none exactly if no prefix is above the module,
and else one with the longest prefix as it is written. That it is always one with a prefix that
names most of the path means that each prefix counts for the module that it names, and this is so if
no prefix ends in two dots. -/
structure ChoosesByLength (choose : String → Option α) (items : List (α × String)) : Prop where
  none_iff : ∀ module, choose module = none ↔ ∀ entry ∈ items, liesBelow module entry.2 = false
  written : ∀ module item, choose module = some item →
    HasLargest String.utf8ByteSize items module item
  named_iff : (∀ module item, choose module = some item → HasLargest namedSize items module item) ↔
    EachCounts choose items
  named_of_single_dots : (∀ entry ∈ items, ¬['.', '.'] <:+ entry.2.toList) →
    ∀ module item, choose module = some item → HasLargest namedSize items module item

theorem choosesByLength_longestAbove (items : List (α × String)) :
    ChoosesByLength (longestAbove items) items where
  none_iff _ := longestAbove_eq_none_iff
  written _ _ := hasLargest_of_longestAbove
  named_iff := takes_nearest_iff
  named_of_single_dots h := takes_nearest_iff.2 (eachCounts_of_single_dots h)

end Longest

end RepoPolicy
