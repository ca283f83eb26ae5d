import Mathlib.Data.List.Basic

set_option autoImplicit false

/-! # Segments of dotted names

The segments of a name are what stands between its dots. There is at least one, and a segment may be
empty. A name is the beginning of another one segment by segment exactly if the other is the name
itself or goes on with a dot (`segments_prefix_iff`). -/

namespace RepoPolicy

/-- The parts of a name between its dots. -/
def segments (name : String) : List (List Char) := name.toList.splitOn '.'

theorem segments_ne_nil (name : String) : segments name ≠ [] := List.splitOn_ne_nil '.' name.toList

theorem intercalate_segments (name : String) : ['.'].intercalate (segments name) = name.toList :=
  List.intercalate_splitOn '.'

theorem segments_inj {name other : String} (h : segments name = segments other) : name = other := by
  rw [← String.toList_inj, ← intercalate_segments name, h, intercalate_segments]

theorem intercalate_append_dot {front back : List (List Char)} (hfront : front ≠ [])
    (hback : back ≠ []) :
    ['.'].intercalate (front ++ back) = ['.'].intercalate front ++ '.' :: ['.'].intercalate back := by
  induction front with
  | nil => exact absurd rfl hfront
  | cons segment front ih =>
      rw [List.cons_append, List.intercalate_cons_of_ne_nil (List.append_ne_nil_of_right_ne_nil _ hback)]
      cases front with
      | nil => simp
      | cons second front =>
          rw [ih (List.cons_ne_nil _ _), List.intercalate_cons_of_ne_nil (List.cons_ne_nil _ _)]
          simp

theorem segments_append_dot (front back : String) :
    segments (front ++ "." ++ back) = segments front ++ segments back := by
  have htext : (front ++ "." ++ back).toList = front.toList ++ '.' :: back.toList := by
    simp [String.toList_append]
  rw [segments, htext]
  exact List.splitOn_append_cons_self _ _

theorem segments_prefix_iff {front name : String} :
    segments front <+: segments name ↔ name = front ∨ ∃ back, name = front ++ "." ++ back := by
  constructor
  · rintro ⟨others, hothers⟩
    cases others with
    | nil => exact Or.inl (segments_inj (by rw [← hothers, List.append_nil]))
    | cons segment others =>
        refine Or.inr ⟨String.ofList (['.'].intercalate (segment :: others)), ?_⟩
        rw [← String.toList_inj, ← intercalate_segments name, ← hothers,
          intercalate_append_dot (segments_ne_nil front) (List.cons_ne_nil _ _),
          intercalate_segments]
        simp [String.toList_append]
  · rintro (rfl | ⟨back, rfl⟩)
    · exact List.prefix_refl _
    · rw [segments_append_dot]
      exact List.prefix_append _ _

end RepoPolicy
