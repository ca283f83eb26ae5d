import RepoPolicy.Text.Blank
import RepoPolicy.Text.LetterCase

set_option autoImplicit false

/-! # Texts that differ in the case of basic letters

`lowercase` maps the letters of all alphabets, and it looks at the letters around a `Σ`. It does not
see the case of the letters `A` to `Z` (`lowercase_map_toLower`), not even as the neighbours of a
`Σ`, and neither does what cuts the ends off a text (`trim_map_toLower`, `strip_map_toLower`). Names
that differ in nothing else have the `SameLetters`, and lists are `Alike` if each name of one is
related to a name of the other. -/

namespace RepoPolicy.Text

/-! ## Single characters -/

/-- What is the same for each capital letter and its small one does not see the case of letters. -/
theorem apply_toLower {α : Type} {f : Char → α}
    (h : ∀ n < 26, f (Char.ofNat (n + 97)) = f (Char.ofNat (n + 65))) (c : Char) :
    f c.toLower = f c := by
  by_cases hrange : c.val ≥ 'A'.val ∧ c.val ≤ 'Z'.val
  · obtain ⟨n, hn, rfl⟩ : ∃ n < 26, c = Char.ofNat (n + 65) := by
      have hfirst : 65 ≤ c.toNat := UInt32.le_iff_toNat_le.1 hrange.1
      have hlast : c.toNat ≤ 90 := UInt32.le_iff_toNat_le.1 hrange.2
      refine ⟨c.toNat - 65, by omega, ?_⟩
      rw [Nat.sub_add_cancel hfirst, Char.ofNat_toNat]
    have hsmall : ∀ n < 26, (Char.ofNat (n + 65)).toLower = Char.ofNat (n + 97) := by decide
    rw [hsmall n hn, h n hn]
  · have hsame : c.toLower = c := dif_neg hrange
    rw [hsame]

theorem isBlank_toLower (c : Char) : isBlank c.toLower = isBlank c := apply_toLower (by decide) c

theorem isCased_toLower (c : Char) : isCased c.toLower = isCased c := apply_toLower (by decide) c

theorem isCaseIgnorable_toLower (c : Char) : isCaseIgnorable c.toLower = isCaseIgnorable c :=
  apply_toLower (by decide) c

theorem lowerChar_toLower (c : Char) : lowerChar c.toLower = lowerChar c :=
  apply_toLower (by decide) c

theorem isSigma_toLower (c : Char) : (c.toLower.toNat == 0x3A3) = (c.toNat == 0x3A3) :=
  apply_toLower (f := fun c => c.toNat == 0x3A3) (by decide) c

/-! ## Ends of a text -/

section Ends

variable {p : Char → Bool} (h : ∀ c, p c.toLower = p c)
include h

theorem dropWhile_map_toLower (text : List Char) :
    (text.map Char.toLower).dropWhile p = (text.dropWhile p).map Char.toLower := by
  have hp : p ∘ Char.toLower = p := funext h
  rw [List.dropWhile_map, hp]

theorem takeWhile_map_toLower (text : List Char) :
    (text.map Char.toLower).takeWhile p = (text.takeWhile p).map Char.toLower := by
  have hp : p ∘ Char.toLower = p := funext h
  rw [List.takeWhile_map, hp]

theorem strip_map_toLower (text : List Char) :
    strip p (text.map Char.toLower) = (strip p text).map Char.toLower := by
  rw [strip, strip, dropWhile_map_toLower h, ← List.map_reverse, dropWhile_map_toLower h,
    List.map_reverse]

end Ends

theorem trim_map_toLower (text : List Char) :
    trim (text.map Char.toLower) = (trim text).map Char.toLower := by
  rw [trim, trim, trimEnd, trimEnd, trimStart, trimStart, dropWhile_map_toLower isBlank_toLower,
    ← List.map_reverse, dropWhile_map_toLower isBlank_toLower, List.map_reverse]

/-! ## Lower case -/

theorem meetsCased_map_toLower (text : List Char) :
    meetsCased (text.map Char.toLower) = meetsCased text := by
  rw [meetsCased, meetsCased, dropWhile_map_toLower isCaseIgnorable_toLower]
  cases text.dropWhile isCaseIgnorable with
  | nil => rfl
  | cons c rest => exact isCased_toLower c

theorem lowerFrom_map_toLower (before text : List Char) :
    lowerFrom (before.map Char.toLower) (text.map Char.toLower) = lowerFrom before text := by
  induction text generalizing before with
  | nil => rfl
  | cons c rest ih =>
      rw [List.map_cons, lowerFrom, lowerFrom, isSigma_toLower, lowerChar_toLower,
        meetsCased_map_toLower, meetsCased_map_toLower, ← List.map_cons, ih]

theorem lowercase_map_toLower (text : List Char) :
    lowercase (String.ofList (text.map Char.toLower)) = lowercase (String.ofList text) := by
  rw [lowercase, lowercase, String.toList_ofList, String.toList_ofList]
  exact congrArg String.ofList (lowerFrom_map_toLower [] text)

/-! ## Names -/

/-- The names are the same up to the case of basic letters. -/
def SameLetters (name other : String) : Prop :=
  name.toList.map Char.toLower = other.toList.map Char.toLower

instance : DecidableRel SameLetters := fun _ _ => inferInstanceAs (Decidable (_ = _))

/-- Each name of either list is related to one of the other: up to the relation, the lists hold the
same names, in any order and any number. -/
def Alike (related : String → String → Prop) (names others : List String) : Prop :=
  (∀ name ∈ names, ∃ other ∈ others, related name other) ∧
    ∀ other ∈ others, ∃ name ∈ names, related name other

instance {related : String → String → Prop} [DecidableRel related] (names others : List String) :
    Decidable (Alike related names others) :=
  inferInstanceAs (Decidable (_ ∧ _))

namespace Alike

variable {related : String → String → Prop} {names others : List String}

/-- What is the same for related names takes the same values on both lists. -/
theorem mem_map_iff (h : Alike related names others) {α : Type} {f : String → α}
    (hf : ∀ name other, related name other → f name = f other) (value : α) :
    value ∈ names.map f ↔ value ∈ others.map f := by
  constructor
  · intro hvalue
    obtain ⟨name, hname, rfl⟩ := List.mem_map.1 hvalue
    obtain ⟨other, hother, hrelated⟩ := h.1 name hname
    rw [hf name other hrelated]
    exact List.mem_map_of_mem hother
  · intro hvalue
    obtain ⟨other, hother, rfl⟩ := List.mem_map.1 hvalue
    obtain ⟨name, hname, hrelated⟩ := h.2 other hother
    rw [← hf name other hrelated]
    exact List.mem_map_of_mem hname

theorem isEmpty_eq (h : Alike related names others) : names.isEmpty = others.isEmpty := by
  cases names with
  | nil =>
      cases others with
      | nil => rfl
      | cons other more =>
          obtain ⟨name, hname, -⟩ := h.2 other List.mem_cons_self
          cases hname
  | cons name more =>
      obtain ⟨other, hother, -⟩ := h.1 name List.mem_cons_self
      rw [List.isEmpty_cons, List.isEmpty_eq_false_iff.2 (List.ne_nil_of_mem hother)]

end Alike

end RepoPolicy.Text
