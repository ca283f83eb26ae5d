import Mathlib.Data.String.Basic
import RepoPolicy.Proofs.Document.Decoding

set_option autoImplicit false

/-! # Mappings from names

The entries of a mapping that was decoded are in increasing order of their names
(`ordered_of_mapping`), and a mapping in this order is read as it is written (`mapping_map`).
Putting in an entry keeps the order, and all entries with other names (`filter_insert`). -/

namespace RepoPolicy.Document.Decoder

variable {α : Type}

/-- The names increase, so that no two entries have the same name. -/
def Ordered (entries : List (String × α)) : Prop := entries.Pairwise (·.1 < ·.1)

namespace mapping

variable {entries : List (String × α)} {entry : String × α}

theorem mem_insert {other : String × α} (h : other ∈ insert entries entry) :
    other = entry ∨ other ∈ entries := by
  induction entries with
  | nil => exact .inl (List.mem_singleton.1 h)
  | cons first rest ih =>
      rw [insert] at h
      split at h
      · exact List.mem_cons.1 h
      · split at h
        · exact (List.mem_cons.1 h).imp_right (List.mem_cons_of_mem first)
        · rcases List.mem_cons.1 h with rfl | hmem
          · exact .inr List.mem_cons_self
          · exact (ih hmem).imp_right (List.mem_cons_of_mem first)

theorem ordered_insert (h : Ordered entries) : Ordered (insert entries entry) := by
  induction entries with
  | nil => exact List.pairwise_singleton _ entry
  | cons first rest ih =>
      obtain ⟨hfirst, hrest⟩ := List.pairwise_cons.1 h
      rw [insert]
      split
      · rename_i hlt
        -- the entry goes in front of the first one
        refine List.pairwise_cons.2 ⟨?_, h⟩
        intro other hother
        rcases List.mem_cons.1 hother with rfl | hmem
        · exact hlt
        · exact hlt.trans (hfirst other hmem)
      · rename_i hnlt
        split
        · rename_i heq
          exact List.pairwise_cons.2 ⟨fun other hother => heq ▸ hfirst other hother, hrest⟩
        · rename_i hne
          -- the entry goes in further back, where what is put in is behind the first one
          refine List.pairwise_cons.2 ⟨?_, ih hrest⟩
          intro other hother
          rcases mem_insert hother with rfl | hmem
          · exact lt_of_le_of_ne (not_lt.1 hnlt) (Ne.symm hne)
          · exact hfirst other hmem

/-- An entry behind all others is put at the end. -/
theorem insert_last (h : ∀ other ∈ entries, other.1 < entry.1) :
    insert entries entry = entries ++ [entry] := by
  induction entries with
  | nil => rfl
  | cons first rest ih =>
      have hfirst : first.1 < entry.1 := h first List.mem_cons_self
      rw [insert, if_neg hfirst.asymm, if_neg hfirst.ne', List.cons_append,
        ih fun other hother => h other (List.mem_cons_of_mem first hother)]

/-- The entries with other names stay as they are. -/
theorem filter_insert (entries : List (String × α)) (entry : String × α) :
    (insert entries entry).filter (·.1 != entry.1) = entries.filter (·.1 != entry.1) := by
  induction entries with
  | nil => simp [insert]
  | cons first rest ih =>
      rw [insert]
      split
      · simp
      · split
        · rename_i heq
          simp [heq]
        · rw [List.filter_cons, List.filter_cons, ih]

theorem ordered_foldl_insert {others : List (String × α)} (h : Ordered entries) :
    Ordered (others.foldl insert entries) := by
  induction others generalizing entries with
  | nil => exact h
  | cons entry others ih => exact ih (ordered_insert h)

theorem foldl_insert_of_ordered {others : List (String × α)} (h : Ordered (entries ++ others)) :
    others.foldl insert entries = entries ++ others := by
  induction others generalizing entries with
  | nil => simp
  | cons entry others ih =>
      have hlast : insert entries entry = entries ++ [entry] :=
        insert_last fun other hother =>
          (List.pairwise_append.1 h).2.2 other hother entry List.mem_cons_self
      rw [List.foldl_cons, hlast, ih (by simpa using h), List.append_assoc,
        List.singleton_append]

end mapping

theorem ordered_of_mapping {item : Decoder α} {value : Value} {entries : List (String × α)}
    (h : mapping item value = some entries) : Ordered entries := by
  simp only [mapping, Option.bind_eq_bind, Option.bind_eq_some_iff, Option.pure_def,
    Option.some.injEq] at h
  obtain ⟨fields, -, written, -, rfl⟩ := h
  exact mapping.ordered_foldl_insert List.Pairwise.nil

/-- A mapping is read if each of its values is. -/
theorem mapping_map {item : Decoder α} {encode : α → Value} {entries : List (String × α)}
    (hordered : Ordered entries) (h : ∀ entry ∈ entries, item (encode entry.2) = some entry.2) :
    mapping item (.record (entries.map fun entry => (entry.1, encode entry.2)))
      = some entries := by
  have hread : ∀ entry ∈ entries,
      (do return (entry.1, ← item (encode entry.2)) : Option (String × α)) = some entry := by
    intro entry hentry
    simp [h entry hentry]
  rw [mapping, fields, Option.bind_eq_bind, Option.bind_some, mapM_map hread]
  exact congrArg some (mapping.foldl_insert_of_ordered hordered)

end RepoPolicy.Document.Decoder
