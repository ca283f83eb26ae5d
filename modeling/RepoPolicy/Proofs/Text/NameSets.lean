import Mathlib.Data.String.Basic
import RepoPolicy.Text.NameSet

set_option autoImplicit false

/-! # Members and order of sets of names

A set of names has the members of the list that it is made from, in increasing order
(`pairwise_ofList`). A list in increasing order is determined by its members, so two lists with the
same members make the same set (`ofList_congr`). -/

namespace RepoPolicy.Text.NameSet

/-! ## Members -/

theorem mem_ofList {name : String} {names : List String} : name ∈ ofList names ↔ name ∈ names := by
  induction names with
  | nil => exact Iff.rfl
  | cons first rest ih =>
      rw [ofList, List.foldr_cons, ← ofList, mem_insert, ih, List.mem_cons]

theorem mem_diff {name : String} {names others : NameSet} :
    name ∈ diff names others ↔ name ∈ names ∧ name ∉ others := by
  simp [diff, List.mem_filter]

theorem diff_eq_nil_iff {names others : NameSet} :
    diff names others = [] ↔ ∀ name ∈ names, name ∈ others := by
  simp [diff, List.filter_eq_nil_iff]

/-! ## Order -/

theorem pairwise_ofList (names : List String) : (ofList names).Pairwise (· < ·) := by
  induction names with
  | nil => exact List.Pairwise.nil
  | cons first rest ih => exact pairwise_insert ih

theorem pairwise_diff {names : NameSet} (h : names.Pairwise (· < ·)) (others : NameSet) :
    (diff names others).Pairwise (· < ·) :=
  h.filter _

/-- Names in increasing order are determined by their set. -/
theorem eq_of_same_members {names others : NameSet} (hnames : names.Pairwise (· < ·))
    (hothers : others.Pairwise (· < ·)) (h : ∀ name, name ∈ names ↔ name ∈ others) :
    names = others := by
  have hperm : names.Perm others :=
    (List.perm_ext_iff_of_nodup (hnames.imp ne_of_lt) (hothers.imp ne_of_lt)).2 h
  exact hperm.eq_of_pairwise (fun a b _ _ hab hba => absurd hab hba.asymm) hnames hothers

theorem ofList_congr {names others : List String} (h : ∀ name, name ∈ names ↔ name ∈ others) :
    ofList names = ofList others := by
  apply eq_of_same_members (pairwise_ofList names) (pairwise_ofList others)
  intro name
  rw [mem_ofList, mem_ofList, h]

end RepoPolicy.Text.NameSet
