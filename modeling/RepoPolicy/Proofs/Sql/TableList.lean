import RepoPolicy.Sql.KeywordScan

set_option autoImplicit false

/-! # Lists of tables

Everything that is read at the front of a text makes the text shorter, so the fuel of `tableList`
never runs out, and its tables are the items of the list (`mem_tableList_iff`). -/

namespace RepoPolicy.Sql

open RepoPolicy.Text

/-! ## Reading moves forward -/

theorem length_trimStart_le (text : List Char) : (trimStart text).length ≤ text.length :=
  (List.dropWhile_suffix _).length_le

theorem continuesWord_of_startsWord {c : Char} (h : startsWord c = true) : continuesWord c = true := by
  rw [startsWord, Bool.or_eq_true] at h
  rw [continuesWord, Char.isAlphanum]
  rcases h with h | h <;> simp [h]

theorem length_of_readWord {text word rest : List Char} (h : readWord text = some (word, rest)) :
    rest.length < text.length := by
  cases text with
  | nil => simp [readWord] at h
  | cons c text =>
      rw [readWord] at h
      by_cases hc : startsWord c = true
      · rw [if_pos hc, Option.some.injEq, Prod.mk.injEq,
          List.dropWhile_cons_of_pos (continuesWord_of_startsWord hc)] at h
        obtain ⟨-, rfl⟩ := h
        exact Nat.lt_succ_of_le (List.dropWhile_suffix _).length_le
      · rw [if_neg hc] at h
        exact absurd h (by simp)

theorem length_of_readUntil {close : Char} {text inside rest : List Char}
    (h : readUntil close text = some (inside, rest)) : rest.length < text.length := by
  rw [readUntil] at h
  have hle := (List.dropWhile_suffix (l := text) (· != close)).length_le
  cases hdrop : text.dropWhile (· != close) with
  | nil => simp [hdrop] at h
  | cons c more =>
      rw [hdrop, List.length_cons] at hle
      simp only [hdrop, Option.some.injEq, Prod.mk.injEq] at h
      obtain ⟨-, rfl⟩ := h
      exact hle

theorem length_of_readPart {text part rest : List Char} (h : readPart text = some (part, rest)) :
    rest.length < text.length := by
  cases text with
  | nil => simp [readPart] at h
  | cons c text =>
      simp only [readPart] at h
      split at h
      · exact Nat.lt_succ_of_lt (length_of_readUntil h)
      · split at h
        · exact Nat.lt_succ_of_lt (length_of_readUntil h)
        · split at h
          · exact Nat.lt_succ_of_lt (length_of_readUntil h)
          · exact length_of_readWord h

theorem length_of_readParts {fuel : Nat} {text rest : List Char} {parts : List (List Char)}
    (h : readParts fuel text = some (parts, rest)) : rest.length < text.length := by
  induction fuel generalizing text parts with
  | zero => simp [readParts] at h
  | succ fuel ih =>
      rw [readParts, Option.bind_eq_bind, Option.bind_eq_some_iff] at h
      obtain ⟨⟨part, more⟩, hpart, h⟩ := h
      have hshorter := length_of_readPart hpart
      simp only at h
      split at h
      · rename_i tail
        rw [Option.bind_eq_bind, Option.bind_eq_some_iff] at h
        obtain ⟨⟨parts', rest'⟩, hparts, h⟩ := h
        obtain ⟨-, rfl⟩ := Prod.mk.inj (Option.some.inj h)
        have := ih hparts
        rw [List.length_cons] at hshorter
        omega
      · obtain ⟨-, rfl⟩ := Prod.mk.inj (Option.some.inj h)
        exact hshorter

theorem length_of_readName {text rest : List Char} {name : String}
    (h : readName text = some (name, rest)) : rest.length < text.length := by
  rw [readName, Option.bind_eq_bind, Option.bind_eq_some_iff] at h
  obtain ⟨⟨parts, rest'⟩, hparts, h⟩ := h
  obtain ⟨-, rfl⟩ := Prod.mk.inj (Option.some.inj h)
  exact length_of_readParts hparts

theorem length_skipWord_le (word : String) (text : List Char) :
    (skipWord word text).length ≤ text.length := by
  rw [skipWord]
  cases h : readWord text with
  | none => exact Nat.le_refl _
  | some found =>
      obtain ⟨found, rest⟩ := found
      have hrest := length_of_readWord h
      have htrim := length_trimStart_le rest
      simp only
      split
      · omega
      · exact Nat.le_refl _

theorem length_skipAlias_le (text : List Char) : (skipAlias text).length ≤ text.length := by
  rw [skipAlias]
  cases h : readWord text with
  | none => exact Nat.le_refl _
  | some found =>
      obtain ⟨word, rest⟩ := found
      have hrest := length_of_readWord h
      have htrim := length_trimStart_le rest
      simp only
      split
      · cases hname : readName (trimStart rest) with
        | none =>
            simp only
            omega
        | some named =>
            obtain ⟨name, more⟩ := named
            have hmore := length_of_readName hname
            have htrim' := length_trimStart_le more
            simp only
            omega
      · split
        · exact Nat.le_refl _
        · omega

theorem length_of_afterClosing {depth : Nat} {text rest : List Char}
    (h : afterClosing depth text = some rest) : rest.length < text.length := by
  induction text generalizing depth with
  | nil => simp [afterClosing] at h
  | cons c text ih =>
      rw [afterClosing] at h
      split at h
      · exact Nat.lt_succ_of_lt (ih h)
      · split at h
        · split at h
          · obtain rfl := Option.some.inj h
            exact Nat.lt_succ_self _
          · exact Nat.lt_succ_of_lt (ih h)
        · exact Nat.lt_succ_of_lt (ih h)

/-! ## Lists of tables -/

/-- What follows the comma behind an item of a list and its alias. -/
def afterComma (text : List Char) : Option (List Char) :=
  match skipAlias text with
  | ',' :: rest => some (trimStart rest)
  | _ => none

theorem length_of_afterComma {text rest : List Char} (h : afterComma text = some rest) :
    rest.length < text.length := by
  rw [afterComma] at h
  have halias := length_skipAlias_le text
  split at h
  · rename_i more heq
    obtain rfl := Option.some.inj h
    have htrim := length_trimStart_le more
    rw [heq, List.length_cons] at halias
    omega
  · exact absurd h (by simp)

/-- The first item of a list: the table it names, unless it is a call or a word that names none,
and the items behind its comma. -/
def readItem (text : List Char) : Option (List String × Option (List Char)) := do
  let (name, rest) ← readName (skipWord "only" text)
  match trimStart rest with
  | '(' :: arguments => do
    let behind ← afterClosing 1 arguments
    return ([], afterComma (trimStart behind))
  | rest => return (asTable name, afterComma rest)

theorem length_of_readItem {text next : List Char} {tables : List String}
    (h : readItem text = some (tables, some next)) : next.length < text.length := by
  rw [readItem, Option.bind_eq_bind, Option.bind_eq_some_iff] at h
  obtain ⟨⟨name, rest⟩, hname, h⟩ := h
  have hskip := length_skipWord_le "only" text
  have hrest := length_of_readName hname
  have htrim := length_trimStart_le rest
  simp only at h
  split at h
  · rename_i arguments hcall
    rw [Option.bind_eq_bind, Option.bind_eq_some_iff] at h
    obtain ⟨behind, hclosing, h⟩ := h
    have hbehind := length_of_afterClosing hclosing
    have hnext := length_of_afterComma (Prod.mk.inj (Option.some.inj h)).2
    have htrim' := length_trimStart_le behind
    rw [hcall, List.length_cons] at htrim
    omega
  · have hnext := length_of_afterComma (Prod.mk.inj (Option.some.inj h)).2
    omega

theorem readItem_of_call {text rest arguments : List Char} {name : String}
    (hname : readName (skipWord "only" text) = some (name, rest))
    (hcall : trimStart rest = '(' :: arguments) :
    readItem text = (afterClosing 1 arguments).map fun behind =>
      ([], afterComma (trimStart behind)) := by
  rw [readItem, hname, Option.bind_eq_bind, Option.bind_some]
  simp only [hcall]
  cases afterClosing 1 arguments with
  | none => rfl
  | some behind => rfl

theorem readItem_of_name {text rest : List Char} {name : String}
    (hname : readName (skipWord "only" text) = some (name, rest))
    (hcall : ∀ arguments, trimStart rest ≠ '(' :: arguments) :
    readItem text = some (asTable name, afterComma (trimStart rest)) := by
  rw [readItem, hname, Option.bind_eq_bind, Option.bind_some]
  dsimp only
  split
  · rename_i arguments heq
    exact absurd heq (hcall arguments)
  · rfl

theorem tableList_succ (fuel : Nat) (text : List Char) :
    tableList (fuel + 1) text = (readItem text).elim [] fun (tables, next) =>
      tables ++ next.elim [] (tableList fuel) := by
  -- both kinds of items go on alike behind a comma
  have hnext : ∀ (tables : List String) (text : List Char),
      (match skipAlias text with
        | ',' :: rest => tables ++ tableList fuel (trimStart rest)
        | _ => tables) = tables ++ (afterComma text).elim [] (tableList fuel) := by
    intro tables text
    rw [afterComma]
    split <;> simp
  rw [tableList]
  cases hname : readName (skipWord "only" text) with
  | none =>
      rw [readItem, hname]
      rfl
  | some named =>
      obtain ⟨name, rest⟩ := named
      simp only
      split
      · rename_i arguments hcall
        rw [readItem_of_call hname hcall]
        cases afterClosing 1 arguments with
        | none => rfl
        | some behind => exact hnext [] (trimStart behind)
      · rename_i hcall
        rw [readItem_of_name hname hcall]
        exact hnext (asTable name) (trimStart rest)

inductive Listed : List Char → String → Prop
  | here {text : List Char} {tables : List String} {next : Option (List Char)} {table : String}
      (hitem : readItem text = some (tables, next)) (htable : table ∈ tables) :
      Listed text table
  | later {text next : List Char} {tables : List String} {table : String}
      (hitem : readItem text = some (tables, some next)) (hnext : Listed next table) :
      Listed text table

/-- With fuel for its whole text, a list has the tables that are its items. -/
theorem mem_tableList_iff {fuel : Nat} {text : List Char} {table : String}
    (hfuel : text.length ≤ fuel) : table ∈ tableList fuel text ↔ Listed text table := by
  -- An item shortens the text by at least one character and costs one unit of fuel.
  induction fuel generalizing text with
  | zero =>
      obtain rfl := List.length_eq_zero_iff.1 (Nat.le_zero.1 hfuel)
      have hnone : readItem [] = none := rfl
      constructor
      · intro h
        exact absurd h List.not_mem_nil
      · intro h
        cases h with
        | here hitem _ => simp [hnone] at hitem
        | later hitem _ => simp [hnone] at hitem
  | succ fuel ih =>
      rw [tableList_succ]
      cases hitem : readItem text with
      | none =>
          constructor
          · intro h
            exact absurd h List.not_mem_nil
          · intro h
            cases h with
            | here hitem' _ => simp [hitem] at hitem'
            | later hitem' _ => simp [hitem] at hitem'
      | some item =>
          obtain ⟨tables, next⟩ := item
          rw [Option.elim_some, List.mem_append]
          constructor
          · rintro (htable | hmore)
            · exact .here hitem htable
            · cases next with
              | none => exact absurd hmore List.not_mem_nil
              | some next =>
                  have hshorter := length_of_readItem hitem
                  exact .later hitem ((ih (by omega)).1 hmore)
          · intro h
            cases h with
            | here hitem' htable =>
                obtain ⟨rfl, rfl⟩ := Prod.mk.inj (Option.some.inj (hitem.symm.trans hitem'))
                exact Or.inl htable
            | later hitem' hnext =>
                obtain ⟨rfl, rfl⟩ := Prod.mk.inj (Option.some.inj (hitem.symm.trans hitem'))
                have hshorter := length_of_readItem hitem
                exact Or.inr ((ih (by omega)).2 hnext)

end RepoPolicy.Sql
