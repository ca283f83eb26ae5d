import RepoPolicy.Document.Decode

set_option autoImplicit false

/-! # What decoders read

A list is decoded item by item (`list_map`), and a number is below its bound (`natBelow_lt`). A field
is found under its name, also in a record without the fields that are absent (`find_filterMap`), and
the value of a field was decoded (`of_required_eq_some`) unless it is the default
(`of_withDefault_eq_some`). -/

namespace RepoPolicy.Document

namespace Decoder

theorem natBelow_lt {bound n : Nat} {value : Value} (h : natBelow bound value = some n) :
    n < bound := by
  cases value with
  | nat m =>
      simp only [natBelow, Option.ite_none_right_eq_some, Option.some.injEq] at h
      omega
  | plain text =>
      simp only [natBelow, Option.bind_eq_bind, Option.bind_eq_some_iff,
        Option.ite_none_right_eq_some, Option.some.injEq] at h
      obtain ⟨m, -, hm, rfl⟩ := h
      exact hm
  | _ => simp [natBelow] at h

theorem nat_of_lt {n : Nat} (h : n < wordSize) : nat (.nat n) = some n := if_pos h

/-- What is written item by item is read so too. -/
theorem mapM_map {α β : Type} {read : β → Option α} {write : α → β} {xs : List α}
    (h : ∀ x ∈ xs, read (write x) = some x) : (xs.map write).mapM read = some xs := by
  induction xs with
  | nil => rfl
  | cons x xs ih =>
      rw [List.map_cons, List.mapM_cons, h x (by simp), ih (fun y hy => h y (by simp [hy]))]
      rfl

/-- A list is read if each of its items is. -/
theorem list_map {α : Type} {item : Decoder α} {encode : α → Value} {xs : List α}
    (h : ∀ x ∈ xs, item (encode x) = some x) : list item (.list (xs.map encode)) = some xs :=
  mapM_map h

end Decoder

namespace Fields

/-! ## Finding a field -/

section Find

variable {name other : String} {value : Value} {fields : Fields}

theorem filter_of_absent (h : ∀ field ∈ fields, field.1 ≠ name) :
    fields.filter (·.1 == name) = [] := by
  rw [List.filter_eq_nil_iff]
  intro field hfield
  simpa using h field hfield

@[simp]
theorem find_nil : Fields.find [] name = some none := rfl

theorem find_of_absent (h : ∀ field ∈ fields, field.1 ≠ name) : fields.find name = some none := by
  rw [find, filter_of_absent h]

@[simp]
theorem find_cons_of_ne (h : other ≠ name) :
    Fields.find ((other, value) :: fields) name = fields.find name := by
  rw [find, find, List.filter_cons_of_neg (by simpa using h)]

@[simp]
theorem find_cons_self (h : ∀ field ∈ fields, field.1 ≠ name) :
    Fields.find ((name, value) :: fields) name = some (some value) := by
  rw [find, List.filter_cons_of_pos (by simp), filter_of_absent h]

/-- Of values that may be absent, a record has those that are there. -/
theorem find_filterMap {κ : Type} {names : κ → String} (hnames : Function.Injective names)
    (values : κ → Option Value) {keys : List κ} (hkeys : keys.Nodup) {key : κ} (h : key ∈ keys) :
    Fields.find (keys.filterMap fun key => (values key).map fun v => (names key, v)) (names key)
      = some (values key) := by
  induction keys with
  | nil => cases h
  | cons first rest ih =>
      obtain ⟨hfirst, hrest⟩ := List.nodup_cons.1 hkeys
      -- no later key has the name of the first one
      have hother : ∀ field ∈ rest.filterMap fun key => (values key).map fun v => (names key, v),
          field.1 ≠ names first := by
        intro field hfield heq
        obtain ⟨other, hmem, hvalue⟩ := List.mem_filterMap.1 hfield
        obtain ⟨v, -, rfl⟩ := Option.map_eq_some_iff.1 hvalue
        exact hfirst (hnames heq ▸ hmem)
      rw [List.filterMap_cons]
      rcases List.mem_cons.1 h with rfl | hmem
      · cases hvalue : values key with
        | none => exact find_of_absent hother
        | some v => exact find_cons_self hother
      · have hne : names first ≠ names key := fun heq => hfirst (hnames heq ▸ hmem)
        cases values first with
        | none => exact ih hrest hmem
        | some v => exact (find_cons_of_ne hne).trans (ih hrest hmem)

end Find

section Read

variable {α : Type} {name : String} {value : Value} {fields : Fields} {item : Decoder α}

theorem withDefault_of_find (h : fields.find name = some (some value)) (default : α) :
    fields.withDefault name default item = item value := by
  rw [withDefault, h]
  rfl

/-- A value that may be absent is read if it is not written like one that is. -/
theorem optional_of_find {encode : α → Value} {x : Option α}
    (hfind : fields.find name = some (x.map encode))
    (hpresent : ∀ y, Decoder.isAbsent (encode y) = false)
    (hread : ∀ y ∈ x, item (encode y) = some y) : fields.optional name item = some x := by
  rw [optional, withDefault, hfind]
  cases x with
  | none => rfl
  | some y =>
      show Decoder.optional item (encode y) = some (some y)
      rw [Decoder.optional, hpresent y, hread y rfl]
      rfl

end Read

/-! ## What a field was read from -/

theorem of_required_eq_some {α : Type} {fields : Fields} {name : String} {item : Decoder α} {x : α}
    (h : fields.required name item = some x) : ∃ value, item value = some x := by
  simp only [required, Option.bind_eq_bind, Option.bind_eq_some_iff] at h
  obtain ⟨found, -, hfound⟩ := h
  cases found with
  | none => cases hfound
  | some value => exact ⟨value, hfound⟩

theorem of_withDefault_eq_some {α : Type} {fields : Fields} {name : String} {default x : α}
    {item : Decoder α} (h : fields.withDefault name default item = some x) :
    x = default ∨ ∃ value, item value = some x := by
  simp only [withDefault, Option.bind_eq_bind, Option.bind_eq_some_iff] at h
  obtain ⟨found, -, hfound⟩ := h
  cases found with
  | none => exact .inl (Option.some.inj hfound).symm
  | some value => exact .inr ⟨value, hfound⟩

theorem nat_lt_of_withDefault {fields : Fields} {name : String} {default n : Nat}
    (hdefault : default < wordSize) (h : fields.withDefault name default Decoder.nat = some n) :
    n < wordSize := by
  rcases of_withDefault_eq_some h with rfl | ⟨value, hvalue⟩
  · exact hdefault
  · exact Decoder.natBelow_lt hvalue

theorem of_optional_eq_some {α : Type} {fields : Fields} {name : String} {item : Decoder α}
    {x : Option α} (h : fields.optional name item = some x) :
    ∀ y ∈ x, ∃ value, item value = some y := by
  rintro y rfl
  rcases of_withDefault_eq_some h with hnone | ⟨value, hvalue⟩
  · cases hnone
  · rw [Decoder.optional] at hvalue
    split at hvalue
    · cases hvalue
    · obtain ⟨z, hz, hsome⟩ := Option.map_eq_some_iff.1 hvalue
      exact ⟨value, hz.trans hsome⟩

end Fields

end RepoPolicy.Document
