import RepoPolicy.Proofs.Text.Checked
import RepoPolicy.Proofs.Text.Occurrences

set_option autoImplicit false

/-! # Offsets in a text

A text is stored as the bytes of its UTF-8 encoding, and a place of it is named by an offset, the
number of bytes before the place. The text can be cut there if the offset is the width of one of its
fronts, that is, if an end of the text begins at the offset (`BeginsAt`). A byte below 128 is a
character by itself (`of_mem_utf8EncodeChar`), so looking for such bytes is looking for characters
(`locate_bytes_cons`). -/

namespace RepoPolicy.Text

/-! ## Widths -/

/-- The number of bytes that a text takes. -/
def width : List Char → Nat
  | [] => 0
  | c :: text => c.utf8Size + width text

@[simp] theorem width_nil : width [] = 0 := rfl

@[simp] theorem width_cons (c : Char) (text : List Char) :
    width (c :: text) = c.utf8Size + width text := rfl

@[simp] theorem width_append (first second : List Char) :
    width (first ++ second) = width first + width second := by
  induction first with
  | nil => exact (Nat.zero_add _).symm
  | cons c first ih => rw [List.cons_append, width_cons, ih, width_cons, Nat.add_assoc]

theorem utf8Size_of_toNat_lt {c : Char} (h : c.toNat < 128) : c.utf8Size = 1 := by
  rw [Char.utf8Size_eq_one_iff, UInt32.le_iff_toNat_le]
  exact Nat.le_of_lt_succ h

/-! ## Cutting at an offset -/

/-- The parts of a text before and behind an offset, which may not lie inside a character or beyond
the end. -/
def cut : List Char → Nat → Checked (List Char × List Char)
  | text, 0 => .ok ([], text)
  | [], _ + 1 => .error .cut
  | c :: text, offset + 1 =>
    if c.utf8Size ≤ offset + 1 then do
      let (front, back) ← cut text (offset + 1 - c.utf8Size)
      return (c :: front, back)
    else .error .cut

def cutBefore (text : List Char) (offset : Nat) : Checked (List Char) := do
  return (← cut text offset).1

def cutBehind (text : List Char) (offset : Nat) : Checked (List Char) := do
  return (← cut text offset).2

def cutBetween (text : List Char) (first last : Nat) : Checked (List Char) := do
  cutBehind (← cutBefore text last) first

theorem cut_append (front back : List Char) :
    cut (front ++ back) (width front) = .ok (front, back) := by
  induction front with
  | nil => cases back <;> rfl
  | cons c front ih =>
      have hpos := c.utf8Size_pos
      obtain ⟨offset, hoffset⟩ : ∃ offset, width (c :: front) = offset + 1 :=
        Nat.exists_eq_succ_of_ne_zero (by rw [width_cons]; omega)
      rw [hoffset, List.cons_append, cut, if_pos (by rw [← hoffset, width_cons]; omega), ← hoffset,
        width_cons, Nat.add_sub_cancel_left, ih]
      rfl

theorem cutBefore_append (front back : List Char) :
    cutBefore (front ++ back) (width front) = .ok front := by
  rw [cutBefore, cut_append]
  rfl

theorem cutBehind_append (front back : List Char) :
    cutBehind (front ++ back) (width front) = .ok back := by
  rw [cutBehind, cut_append]
  rfl

/-! ## What begins at an offset -/

/-- The end `rest` of a text begins at an offset. -/
def BeginsAt (text rest : List Char) (offset : Nat) : Prop :=
  ∃ front, text = front ++ rest ∧ width front = offset

namespace BeginsAt

variable {text rest middle : List Char} {offset : Nat}

theorem cutBehind_eq (h : BeginsAt text rest offset) : cutBehind text offset = .ok rest := by
  obtain ⟨front, rfl, rfl⟩ := h
  exact cutBehind_append front rest

theorem add_width (h : BeginsAt text rest offset) : offset + width rest = width text := by
  obtain ⟨front, rfl, rfl⟩ := h
  exact (width_append front rest).symm

/-- The text goes on behind its middle. -/
theorem behind (middle : List Char) (h : BeginsAt text (middle ++ rest) offset) :
    BeginsAt text rest (offset + width middle) := by
  obtain ⟨front, rfl, rfl⟩ := h
  exact ⟨front ++ middle, by rw [List.append_assoc], width_append front middle⟩

theorem tail {c : Char} (h : BeginsAt text (c :: rest) offset) (hc : c.toNat < 128) :
    BeginsAt text rest (offset + 1) := by
  have hbehind := h.behind [c]
  rwa [width_cons, utf8Size_of_toNat_lt hc] at hbehind

theorem cutBetween_eq (h : BeginsAt text (middle ++ rest) offset) :
    cutBetween text offset (offset + width middle) = .ok middle := by
  obtain ⟨front, rfl, rfl⟩ := h
  rw [cutBetween, ← List.append_assoc, ← width_append, cutBefore_append, ok_bind, cutBehind_append]

theorem suffix (h : BeginsAt text rest offset) : rest <:+ text := by
  obtain ⟨front, rfl, -⟩ := h
  exact List.suffix_append front rest

/-- Of two ends of a text, the shorter one begins further on. -/
theorem lt_iff {shorter : List Char} {last : Nat} (h : BeginsAt text rest offset)
    (hlast : BeginsAt text shorter last) : offset < last ↔ shorter.length < rest.length := by
  have hwhole := h.add_width
  have hrest := hlast.add_width
  -- both are ends of one text, so one of them is an end of the other
  rcases List.suffix_or_suffix_of_suffix h.suffix hlast.suffix with ⟨passed, rfl⟩ | ⟨passed, rfl⟩
  · rw [width_append] at hrest
    rw [List.length_append]
    omega
  · rw [width_append] at hwhole
    cases passed with
    | nil =>
        rw [width_nil] at hwhole
        rw [List.nil_append]
        omega
    | cons c passed =>
        have hpos := c.utf8Size_pos
        rw [width_cons] at hwhole
        rw [List.length_append, List.length_cons]
        omega

end BeginsAt

def Place.offset (text : List Char) (place : Place) : Nat := width text - width place.after

theorem Place.beginsAt {text : List Char} {place : Place} (h : place.after <:+ text) :
    BeginsAt text place.after (place.offset text) := by
  obtain ⟨front, rfl⟩ := h
  exact ⟨front, rfl, by rw [Place.offset, width_append, Nat.add_sub_cancel_right]⟩

/-! ## Bytes -/

def bytes (text : List Char) : List UInt8 := text.flatMap String.utf8EncodeChar

theorem bytes_append (first second : List Char) :
    bytes (first ++ second) = bytes first ++ bytes second := List.flatMap_append

theorem length_bytes (text : List Char) : (bytes text).length = width text := by
  induction text with
  | nil => rfl
  | cons c text ih =>
      rw [bytes, List.flatMap_cons, List.length_append, String.length_utf8EncodeChar, width_cons,
        ← ih]
      rfl

/-- A byte below 128 is a character by itself. -/
theorem of_mem_utf8EncodeChar {c : Char} {byte : UInt8} (h : byte ∈ String.utf8EncodeChar c)
    (hbyte : byte.toNat < 128) : c.toNat = byte.toNat := by
  have hcode : c.val.toNat = c.toNat := rfl
  simp only [String.utf8EncodeChar, hcode] at h
  split at h
  · obtain rfl := List.mem_singleton.1 h
    rw [UInt8.toNat_ofNat']
    omega
  · exfalso
    split at h
    · simp only [List.mem_cons, List.not_mem_nil, or_false] at h
      rcases h with rfl | rfl <;> rw [UInt8.toNat_ofNat'] at hbyte <;> omega
    · split at h
      · simp only [List.mem_cons, List.not_mem_nil, or_false] at h
        rcases h with rfl | rfl | rfl <;> rw [UInt8.toNat_ofNat'] at hbyte <;> omega
      · simp only [List.mem_cons, List.not_mem_nil, or_false] at h
        rcases h with rfl | rfl | rfl | rfl <;> rw [UInt8.toNat_ofNat'] at hbyte <;> omega

/-- The byte of a basic character is part of no other character. -/
theorem ne_toUInt8_of_mem {c d : Char} (hd : d.toNat < 128) (hne : c ≠ d) {byte : UInt8}
    (h : byte ∈ String.utf8EncodeChar c) : byte ≠ d.toUInt8 := by
  rintro rfl
  have hcode : d.toUInt8.toNat = d.toNat := by
    have hmod : d.toUInt8.toNat = d.toNat % 256 := rfl
    rw [hmod, Nat.mod_eq_of_lt (Nat.lt_trans hd (by decide))]
  exact hne (Char.toNat_inj.1 ((of_mem_utf8EncodeChar h (hcode ▸ hd)).trans hcode))

/-- The bytes, from an offset on, that are one of the wanted characters, with their offsets. -/
def locate (wanted : List Char) (bytes : List UInt8) (offset : Nat) : List (UInt8 × Nat) :=
  (bytes.zipIdx offset).filter fun found => wanted.any (·.toUInt8 == found.1)

section Locate

variable {wanted : List Char} {c : Char}

theorem locate_append (first second : List UInt8) (offset : Nat) :
    locate wanted (first ++ second) offset
      = locate wanted first offset ++ locate wanted second (offset + first.length) := by
  rw [locate, List.zipIdx_append, List.filter_append]
  rfl

theorem locate_of_mem (hc : c.toNat < 128) (h : c ∈ wanted) (offset : Nat) :
    locate wanted (String.utf8EncodeChar c) offset = [(c.toUInt8, offset)] := by
  have hencode : String.utf8EncodeChar c = [c.toUInt8] := if_pos (Nat.le_of_lt_succ hc)
  have hany : wanted.any (·.toUInt8 == c.toUInt8) = true :=
    List.any_eq_true.2 ⟨c, h, beq_self_eq_true _⟩
  rw [hencode]
  exact List.filter_cons_of_pos hany

theorem locate_of_not_mem (hwanted : ∀ d ∈ wanted, d.toNat < 128) (h : c ∉ wanted) (offset : Nat) :
    locate wanted (String.utf8EncodeChar c) offset = [] := by
  refine List.filter_eq_nil_iff.2 fun found hfound => ?_
  have hbyte : found.1 ∈ String.utf8EncodeChar c := List.fst_mem_of_mem_zipIdx hfound
  rw [List.any_eq_true]
  rintro ⟨d, hd, hsame⟩
  have hne : c ≠ d := fun hc => h (hc ▸ hd)
  exact ne_toUInt8_of_mem (hwanted d hd) hne hbyte (beq_iff_eq.1 hsame).symm

/-- The characters that are looked for in the bytes of a text are found at their offsets. -/
theorem locate_bytes_cons (hwanted : ∀ d ∈ wanted, d.toNat < 128) (text : List Char) (offset : Nat) :
    locate wanted (bytes (c :: text)) offset
      = (if c ∈ wanted then [(c.toUInt8, offset)] else [])
        ++ locate wanted (bytes text) (offset + c.utf8Size) := by
  have hbytes : bytes (c :: text) = String.utf8EncodeChar c ++ bytes text := List.flatMap_cons
  rw [hbytes, locate_append, String.length_utf8EncodeChar]
  split
  · rw [locate_of_mem (hwanted c ‹_›) ‹_›]
  · rw [locate_of_not_mem hwanted ‹_›]

end Locate

end RepoPolicy.Text
