set_option autoImplicit false

/-! # Sets of names

A set of names is kept as its list of members in increasing order, compared by code points, with
no name twice. Putting a name where it belongs keeps the order (`pairwise_insert`). -/

namespace RepoPolicy.Text

/-- Names in increasing order, none of them twice. -/
abbrev NameSet := List String

namespace NameSet

def insert (name : String) : NameSet → NameSet
  | [] => [name]
  | first :: rest =>
    if name < first then name :: first :: rest
    else if name = first then first :: rest
    else first :: insert name rest

theorem mem_insert {name other : String} {names : NameSet} :
    other ∈ insert name names ↔ other = name ∨ other ∈ names := by
  induction names with
  | nil => simp [insert]
  | cons first rest ih =>
      rw [insert]
      by_cases hlt : name < first
      · simp [hlt]
      · by_cases heq : name = first
        · simp [heq]
        · rw [if_neg hlt, if_neg heq, List.mem_cons, ih, List.mem_cons, or_left_comm]

theorem pairwise_insert {name : String} {names : NameSet} (h : names.Pairwise (· < ·)) :
    (insert name names).Pairwise (· < ·) := by
  induction names with
  | nil => simp [insert]
  | cons first rest ih =>
      obtain ⟨hfirst, hrest⟩ := List.pairwise_cons.1 h
      rw [insert]
      by_cases hlt : name < first
      · rw [if_pos hlt, List.pairwise_cons]
        refine ⟨?_, h⟩
        intro other hother
        rcases List.mem_cons.1 hother with rfl | hmem
        · exact hlt
        · exact String.lt_trans hlt (hfirst other hmem)
      · by_cases heq : name = first
        · rw [if_neg hlt, if_pos heq]
          exact h
        · rw [if_neg hlt, if_neg heq, List.pairwise_cons]
          refine ⟨?_, ih hrest⟩
          intro other hother
          -- a name behind the first one is the new one, which is greater, or an old one
          rcases mem_insert.1 hother with rfl | hmem
          · exact Std.lt_of_le_of_ne (String.not_lt.1 hlt) (Ne.symm heq)
          · exact hfirst other hmem

def ofList (names : List String) : NameSet := names.foldr insert []

def diff (names others : NameSet) : NameSet := names.filter fun name => !others.contains name

end NameSet

end RepoPolicy.Text
