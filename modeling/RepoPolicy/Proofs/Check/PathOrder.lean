import Mathlib.Order.Preorder.Chain
import RepoPolicy.Proofs.Check.ModulePaths
import RepoPolicy.Proofs.Text.Segments

set_option autoImplicit false

/-! # The order of module paths

A module lies below a prefix exactly if its path begins with the segments of the prefix, the dots at
whose end do not count (`liesBelow_iff_segments`). Prefixes without dots at their end are ordered in
this way, and those above one module form a chain: so of several such prefixes the longest is one
that all others are above (`liesBelow_orders_prefixes`). -/

namespace RepoPolicy

/-- A path that does not end with a dot. -/
def Undotted (path : String) : Prop := ¬['.'] <:+ path.toList

instance (path : String) : Decidable (Undotted path) := inferInstanceAs (Decidable (¬_))

theorem Undotted.named_eq {path : String} (h : Undotted path) : named path = path := by
  rw [← String.toList_inj, toList_named, List.rdropWhile_eq_self_iff]
  intro hne hdot
  refine h ⟨path.toList.dropLast, ?_⟩
  rw [← beq_iff_eq.1 hdot, List.dropLast_append_getLast hne]

theorem liesBelow_iff_segments {module above : String} :
    liesBelow module above = true ↔ segments (named above) <+: segments module := by
  rw [segments_prefix_iff, liesBelow_iff]

theorem Undotted.liesBelow_iff {module above : String} (h : Undotted above) :
    liesBelow module above = true ↔ segments above <+: segments module := by
  rw [liesBelow_iff_segments, h.named_eq]

/-- **Lying below a prefix goes by segments.** What counts of a prefix is what stands before the
dots at its end. On prefixes without such dots, being above is a partial order, and the prefixes
above one module are a chain of it. -/
theorem liesBelow_orders_prefixes (module above : String) :
    (liesBelow module above = true ↔
        segments (String.ofList (above.toList.rdropWhile (· == '.'))) <+: segments module) ∧
      IsPartialOrder {path : String // Undotted path} (fun higher lower =>
        liesBelow lower.1 higher.1 = true) ∧
      IsChain (fun higher lower => liesBelow lower higher = true)
        {path : String | Undotted path ∧ liesBelow module path = true} := by
  refine ⟨?_, ?_, ?_⟩
  · rw [← toList_named, String.ofList_toList]
    exact liesBelow_iff_segments
  · exact
      { refl := fun path => path.2.liesBelow_iff.2 (List.prefix_refl _)
        trans := fun first second third hfirst hsecond => by
          rw [first.2.liesBelow_iff] at hfirst ⊢
          rw [second.2.liesBelow_iff] at hsecond
          exact hfirst.trans hsecond
        antisymm := fun first second hfirst hsecond => by
          rw [first.2.liesBelow_iff] at hfirst
          rw [second.2.liesBelow_iff] at hsecond
          exact Subtype.ext (segments_inj (hfirst.sublist.antisymm hsecond.sublist)) }
  · rintro first ⟨hfirst, hfirstAbove⟩ second ⟨hsecond, hsecondAbove⟩ -
    have hcomparable := List.prefix_or_prefix_of_prefix (hfirst.liesBelow_iff.1 hfirstAbove)
      (hsecond.liesBelow_iff.1 hsecondAbove)
    exact hcomparable.imp hfirst.liesBelow_iff.2 hsecond.liesBelow_iff.2

end RepoPolicy
