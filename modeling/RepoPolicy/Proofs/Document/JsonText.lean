import Mathlib.Data.List.DropRight
import RepoPolicy.Document.Json.Reader
import RepoPolicy.Document.Json.Writer

set_option autoImplicit false

/-! # What is written as JSON can be read

`parse` gives back every value that `pretty` and `write` write (`parse_pretty`, `parse_write`), if
JSON can express it: `Expressible depth v` says that the natural numbers in `v` are words, that
there are no scalars of other formats, and that lists and records are nested at most `depth` deep.
The two writers are layouts of the same tokens, with blanks in between or without (`Layout`).

Every reader is followed along the text of its writer, with whatever stands behind that text still
there. Only numbers care about what follows: `EndsNumber` excludes the characters that would make
them longer. -/

namespace RepoPolicy.Document.Json

/-! ## Blanks -/

theorem skipBlanks_cons_of_not_isSeparator {c : Char} {text : List Char}
    (h : isSeparator c = false) : skipBlanks (c :: text) = c :: text :=
  List.dropWhile_cons_of_neg (by simp [h])

theorem skipBlanks_append {blanks : List Char} (h : ∀ c ∈ blanks, isSeparator c = true)
    (text : List Char) : skipBlanks (blanks ++ text) = skipBlanks text :=
  List.dropWhile_append_of_pos h

theorem skipBlanks_idem (text : List Char) : skipBlanks (skipBlanks text) = skipBlanks text :=
  List.dropWhile_idempotent _ _

/-! ## Strings -/

theorem hexValue?_hexDigit {n : Nat} (h : n < 16) : hexValue? (hexDigit n) = some n := by
  have hall : ∀ m < 16, hexValue? (hexDigit m) = some m := by decide
  exact hall n h

/-- The four digits of a control character. -/
theorem unicodeEscape_control {c : Char} (h : c.toNat < 32) (rest : List Char) :
    unicodeEscape ('0' :: '0' :: hexDigit (c.toNat / 16) :: hexDigit (c.toNat % 16) :: rest)
      = some (c, rest) := by
  have hzero : hexValue? '0' = some 0 := rfl
  have hhigh : hexValue? (hexDigit (c.toNat / 16)) = some (c.toNat / 16) :=
    hexValue?_hexDigit (by omega)
  have hlow : hexValue? (hexDigit (c.toNat % 16)) = some (c.toNat % 16) :=
    hexValue?_hexDigit (by omega)
  have hunit : ((0 * 16 + 0) * 16 + c.toNat / 16) * 16 + c.toNat % 16 = c.toNat := by omega
  simp only [unicodeEscape, hex4, hzero, hhigh, hlow, Option.bind_eq_bind, Option.bind_some,
    Option.pure_def, hunit]
  rw [if_neg (by omega), if_neg (by omega), Char.ofNat_toNat]

/-- Between quotes a character is written as an escape that stands for it, or as itself. -/
theorem escapeChar_cases (c : Char) :
    (∃ text, escapeChar c = '\\' :: text ∧ ∀ rest, escape (text ++ rest) = some (c, rest)) ∨
      escapeChar c = [c] ∧ c ≠ '"' ∧ c ≠ '\\' ∧ ¬ c.toNat < 32 := by
  by_cases hshort : c ∈ ['"', '\\', Char.ofNat 8, Char.ofNat 12, '\n', '\r', '\t']
  -- the characters with an escape of their own
  · left
    simp only [List.mem_cons, List.not_mem_nil, or_false] at hshort
    rcases hshort with rfl | rfl | rfl | rfl | rfl | rfl | rfl
    all_goals exact ⟨_, rfl, fun rest => rfl⟩
  · simp only [List.mem_cons, List.not_mem_nil, or_false, not_or] at hshort
    obtain ⟨hquote, hbackslash, hb, hf, hn, hr, ht⟩ := hshort
    -- other control characters are written by their numbers, and all that is left as it is
    by_cases hcontrol : c.toNat < 32
    · left
      refine ⟨['u', '0', '0', hexDigit (c.toNat / 16), hexDigit (c.toNat % 16)], ?_, ?_⟩
      · simp [escapeChar, hquote, hbackslash, hb, hf, hn, hr, ht, hcontrol]
      · exact fun rest => unicodeEscape_control hcontrol rest
    · right
      refine ⟨?_, hquote, hbackslash, hcontrol⟩
      simp [escapeChar, hquote, hbackslash, hb, hf, hn, hr, ht, hcontrol]

/-- A character is read from the way it stands between quotes. -/
theorem stringTail_escapeChar (c : Char) {fuel : Nat} {rest rest' : List Char} {cs : List Char}
    (h : stringTail fuel rest = some (cs, rest')) :
    stringTail (fuel + 1) (escapeChar c ++ rest) = some (c :: cs, rest') := by
  obtain ⟨text, hescape, hread⟩ | ⟨hself, hquote, hbackslash, hcontrol⟩ := escapeChar_cases c
  · simp [hescape, stringTail, hread, h]
  · simp [hself, stringTail, hquote, hbackslash, hcontrol, h]

theorem escapeChar_ne_nil (c : Char) : escapeChar c ≠ [] := by
  obtain ⟨text, hescape, -⟩ | ⟨hself, -⟩ := escapeChar_cases c
  · simp [hescape]
  · simp [hself]

/-- A quoted text is read up to its closing quote. -/
theorem stringTail_quoteTail (rest : List Char) :
    ∀ (cs : List Char) (fuel : Nat), (quoteTail cs rest).length < fuel + 1 →
      stringTail (fuel + 1) (quoteTail cs rest) = some (cs, rest) := by
  intro cs
  induction cs with
  | nil =>
      intro fuel _
      simp [quoteTail, stringTail]
  | cons c cs ih =>
      intro fuel hfuel
      have hpositive := List.length_pos_of_ne_nil (escapeChar_ne_nil c)
      rw [quoteTail, List.length_append] at hfuel
      obtain ⟨less, rfl⟩ : ∃ less, fuel = less + 1 := ⟨fuel - 1, by omega⟩
      exact stringTail_escapeChar c (ih less (by omega))

theorem stringBody_quoteTail (text : String) (rest : List Char) :
    stringBody (quoteTail text.toList rest) = some (text, rest) := by
  rw [stringBody, stringTail_quoteTail rest text.toList _ (by omega)]
  simp

/-! ## Numbers -/

/-- A text that no number in front of it goes on with. -/
def EndsNumber (rest : List Char) : Prop :=
  ∀ c ∈ rest.head?, c.isDigit = false ∧ c ≠ '.' ∧ c ≠ 'e' ∧ c ≠ 'E'

theorem endsNumber_nil : EndsNumber [] := by
  intro c hc
  cases hc

theorem endsNumber_cons {c : Char} {rest : List Char}
    (h : c.isDigit = false ∧ c ≠ '.' ∧ c ≠ 'e' ∧ c ≠ 'E') : EndsNumber (c :: rest) := by
  intro d hd
  obtain rfl : c = d := by simpa using hd
  exact h

theorem endsNumber_append {blanks rest : List Char} (h : ∀ c ∈ blanks, isSeparator c = true)
    (hrest : EndsNumber rest) : EndsNumber (blanks ++ rest) := by
  cases blanks with
  | nil => exact hrest
  | cons c blanks =>
      have hc := h c List.mem_cons_self
      simp only [isSeparator, Bool.or_eq_true, beq_iff_eq] at hc
      refine endsNumber_cons ?_
      rcases hc with ((rfl | rfl) | rfl) | rfl <;> decide

theorem decimalValue_toDigits (n : Nat) : decimalValue (Nat.toDigits 10 n) = n := by
  have hfold : decimalValue (Nat.toDigits 10 n) = Nat.ofDigitChars 10 (Nat.toDigits 10 n) 0 := by
    rw [decimalValue, Nat.ofDigitChars_eq_foldl]
    congr
    funext value digit
    rw [Nat.mul_comm]
    rfl
  rw [hfold, Nat.ofDigitChars_ten_toDigits]

theorem exists_cons_toDigits (n : Nat) :
    ∃ d digits, Nat.toDigits 10 n = d :: digits ∧ d.isDigit = true := by
  obtain ⟨d, digits, h⟩ := List.exists_cons_of_ne_nil (Nat.toDigits_ne_nil (n := n) (b := 10))
  refine ⟨d, digits, h, ?_⟩
  exact Nat.isDigit_of_mem_toDigits (b := 10) (n := n) (by omega) (by omega) (by simp [h])

theorem ne_of_isDigit {c d : Char} (hd : d.isDigit = true) (hc : c.isDigit = false) : d ≠ c := by
  rintro rfl
  rw [hc] at hd
  cases hd

theorem not_isSeparator_of_isDigit {d : Char} (hd : d.isDigit = true) : isSeparator d = false := by
  simp only [isSeparator, Bool.or_eq_false_iff, beq_eq_false_iff_ne]
  exact ⟨⟨⟨ne_of_isDigit hd (by decide), ne_of_isDigit hd (by decide)⟩,
    ne_of_isDigit hd (by decide)⟩, ne_of_isDigit hd (by decide)⟩

/-- Digits that begin with a zero are a single one. -/
theorem eq_zero_of_toDigits {n : Nat} {digits : List Char}
    (h : Nat.toDigits 10 n = '0' :: digits) : n = 0 := by
  induction n using Nat.strongRecOn generalizing digits with
  | ind n ih =>
      by_cases hsmall : n < 10
      · have hall : ∀ m < 10, Nat.digitChar m = '0' → m = 0 := by decide
        rw [Nat.toDigits_of_lt_base hsmall, List.cons.injEq] at h
        exact hall n hsmall h.1
      · rw [Nat.toDigits_of_base_le (by omega) (by omega)] at h
        obtain ⟨d, ds, hds, -⟩ := exists_cons_toDigits (n / 10)
        rw [hds, List.cons_append, List.cons.injEq] at h
        obtain ⟨rfl, -⟩ := h
        have := ih (n / 10) (by omega) hds
        omega

theorem takeDigits_append {digits rest : List Char} (hdigits : ∀ c ∈ digits, c.isDigit = true)
    (hrest : EndsNumber rest) : takeDigits (digits ++ rest) = (digits, rest) := by
  have htake : rest.takeWhile Char.isDigit = [] ∧ rest.dropWhile Char.isDigit = rest := by
    cases rest with
    | nil => exact ⟨rfl, rfl⟩
    | cons c rest => simp [(hrest c rfl).1]
  rw [takeDigits, List.takeWhile_append_of_pos hdigits, List.dropWhile_append_of_pos hdigits,
    htake.1, htake.2, List.append_nil]

theorem integerPart_toDigits {n : Nat} {rest : List Char} (hrest : EndsNumber rest) :
    integerPart (Nat.toDigits 10 n ++ rest) = some (Nat.toDigits 10 n, rest) := by
  by_cases hzero : n = 0
  · subst hzero
    rfl
  · have hdigits : ∀ c ∈ Nat.toDigits 10 n, c.isDigit = true :=
      fun c hc => Nat.isDigit_of_mem_toDigits (by omega) (by omega) hc
    have htake := takeDigits_append hdigits hrest
    obtain ⟨d, ds, hds, -⟩ := exists_cons_toDigits n
    have hd : d ≠ '0' := by
      rintro rfl
      exact hzero (eq_zero_of_toDigits hds)
    rw [hds, List.cons_append] at htake ⊢
    rw [integerPart]
    · simp [htake]
    · simpa using hd

theorem fractionPart_of_endsNumber {rest : List Char} (hrest : EndsNumber rest) :
    fractionPart rest = some ([], rest) := by
  cases rest with
  | nil => rfl
  | cons c rest =>
      have hpoint := (hrest c rfl).2.1
      rw [fractionPart]
      simpa using hpoint

theorem exponentPart_of_endsNumber {rest : List Char} (hrest : EndsNumber rest) :
    exponentPart rest = some (none, rest) := by
  cases rest with
  | nil => rfl
  | cons c rest =>
      obtain ⟨-, -, he, hE⟩ := hrest c rfl
      simp [exponentPart, he, hE]

/-- A number is read from its digits. -/
theorem number_toDigits {n : Nat} {rest : List Char} (hn : n < wordSize) (hrest : EndsNumber rest) :
    number (Nat.toDigits 10 n ++ rest) = some (.nat n, rest) := by
  have hsign : ∀ tail, Nat.toDigits 10 n ++ rest ≠ '-' :: tail := by
    intro tail heq
    obtain ⟨d, ds, hds, hdigit⟩ := exists_cons_toDigits n
    rw [hds, List.cons_append, List.cons.injEq] at heq
    exact ne_of_isDigit hdigit (by decide) heq.1
  rw [number]
  · simp [integerPart_toDigits hrest, fractionPart_of_endsNumber hrest,
      exponentPart_of_endsNumber hrest, decimalValue_toDigits, hn]
  · exact hsign

/-! ## Layouts -/

/-- A way to write values: blanks may stand in front of items and closing brackets, and behind
colons. -/
structure Layout where
  /-- What stands in front of an item, or a closing bracket, at a level. -/
  gap : Nat → List Char
  /-- What stands behind a colon. -/
  space : List Char
  /-- The text of a value at a level, and then the rest. -/
  onto : Nat → Value → List Char → List Char
  /-- The items after the first one of a list at a level, and the closing bracket. -/
  items : Nat → List Value → List Char → List Char
  /-- The fields after the first one of a record at a level, and the closing brace. -/
  fields : Nat → List (String × Value) → List Char → List Char
  blank_gap : ∀ level, ∀ c ∈ gap level, isSeparator c = true
  blank_space : ∀ c ∈ space, isSeparator c = true
  onto_null : ∀ level rest, onto level .null rest = scalarOnto .null rest
  onto_bool : ∀ level b rest, onto level (.bool b) rest = scalarOnto (.bool b) rest
  onto_nat : ∀ level n rest, onto level (.nat n) rest = Nat.toDigits 10 n ++ rest
  onto_string : ∀ level text rest,
    onto level (.string text) rest = '"' :: quoteTail text.toList rest
  onto_list_nil : ∀ level rest, onto level (.list []) rest = '[' :: ']' :: rest
  onto_list_cons : ∀ level v vs rest,
    onto level (.list (v :: vs)) rest
      = '[' :: (gap (level + 1) ++ onto (level + 1) v (items level vs rest))
  items_nil : ∀ level rest, items level [] rest = gap level ++ ']' :: rest
  items_cons : ∀ level v vs rest,
    items level (v :: vs) rest
      = ',' :: (gap (level + 1) ++ onto (level + 1) v (items level vs rest))
  onto_record_nil : ∀ level rest, onto level (.record []) rest = '\x7b' :: '\x7d' :: rest
  onto_record_cons : ∀ level name v others rest,
    onto level (.record ((name, v) :: others)) rest
      = '\x7b' :: (gap (level + 1) ++ quoteOnto name
          (':' :: (space ++ onto (level + 1) v (fields level others rest))))
  fields_nil : ∀ level rest, fields level [] rest = gap level ++ '\x7d' :: rest
  fields_cons : ∀ level name v others rest,
    fields level ((name, v) :: others) rest
      = ',' :: (gap (level + 1) ++ quoteOnto name
          (':' :: (space ++ onto (level + 1) v (fields level others rest))))

def compact : Layout where
  gap _ := []
  space := []
  onto _ := writeOnto
  items _ := writeItems
  fields _ := writeFields
  blank_gap := by simp
  blank_space := by simp
  onto_null _ _ := rfl
  onto_bool _ _ _ := rfl
  onto_nat _ _ _ := rfl
  onto_string _ _ _ := rfl
  onto_list_nil _ _ := rfl
  onto_list_cons _ _ _ _ := rfl
  items_nil _ _ := rfl
  items_cons _ _ _ _ := rfl
  onto_record_nil _ _ := rfl
  onto_record_cons _ _ _ _ _ := rfl
  fields_nil _ _ := rfl
  fields_cons _ _ _ _ _ := rfl

theorem newLine_eq (level : Nat) (rest : List Char) :
    newLine level rest = newLine level [] ++ rest := by
  simp [newLine]

def indented : Layout where
  gap level := newLine level []
  space := [' ']
  onto := prettyOnto
  items := prettyItems
  fields := prettyFields
  blank_gap := by
    intro level c hc
    rw [newLine, List.append_nil] at hc
    rcases List.mem_cons.1 hc with rfl | hspace
    · decide
    · rw [List.eq_of_mem_replicate hspace]
      decide
  blank_space := by simp [isSeparator]
  onto_null _ _ := rfl
  onto_bool _ _ _ := rfl
  onto_nat _ _ _ := rfl
  onto_string _ _ _ := rfl
  onto_list_nil _ _ := rfl
  onto_list_cons _ _ _ _ := by rw [← newLine_eq]; rfl
  items_nil _ _ := by rw [← newLine_eq]; rfl
  items_cons _ _ _ _ := by rw [← newLine_eq]; rfl
  onto_record_nil _ _ := rfl
  onto_record_cons _ _ _ _ _ := by rw [← newLine_eq]; rfl
  fields_nil _ _ := by rw [← newLine_eq]; rfl
  fields_cons _ _ _ _ _ := by rw [← newLine_eq]; rfl

namespace Layout

variable (layout : Layout)

/-- A name and a value in a record, as they stand at a level. -/
def member (level : Nat) (field : String × Value) (rest : List Char) : List Char :=
  quoteOnto field.1 (':' :: (layout.space ++ layout.onto level field.2 rest))

/-- A reader gives back a value that is written at a level, and leaves what follows. -/
def ReadsBack (value : Read Value) (level : Nat) (v : Value) : Prop :=
  ∀ rest, EndsNumber rest → value (layout.onto level v rest) = some (v, rest)

theorem skipBlanks_gap (level : Nat) (text : List Char) :
    skipBlanks (layout.gap level ++ text) = skipBlanks text :=
  skipBlanks_append (layout.blank_gap level) text

theorem endsNumber_items (level : Nat) (vs : List Value) (rest : List Char) :
    EndsNumber (layout.items level vs rest) := by
  cases vs with
  | nil =>
      rw [layout.items_nil]
      exact endsNumber_append (layout.blank_gap level) (endsNumber_cons (by decide))
  | cons v vs =>
      rw [layout.items_cons]
      exact endsNumber_cons (by decide)

theorem endsNumber_fields (level : Nat) (fields : List (String × Value)) (rest : List Char) :
    EndsNumber (layout.fields level fields rest) := by
  cases fields with
  | nil =>
      rw [layout.fields_nil]
      exact endsNumber_append (layout.blank_gap level) (endsNumber_cons (by decide))
  | cons field fields =>
      rw [layout.fields_cons]
      exact endsNumber_cons (by decide)

theorem skipBlanks_items_nil (level : Nat) (rest : List Char) :
    skipBlanks (layout.items level [] rest) = ']' :: rest := by
  rw [layout.items_nil, skipBlanks_gap, skipBlanks_cons_of_not_isSeparator (by decide)]

theorem skipBlanks_items_cons (level : Nat) (v : Value) (vs : List Value) (rest : List Char) :
    skipBlanks (layout.items level (v :: vs) rest)
      = ',' :: (layout.gap (level + 1)
          ++ layout.onto (level + 1) v (layout.items level vs rest)) := by
  rw [layout.items_cons, skipBlanks_cons_of_not_isSeparator (by decide)]

theorem skipBlanks_fields_nil (level : Nat) (rest : List Char) :
    skipBlanks (layout.fields level [] rest) = '\x7d' :: rest := by
  rw [layout.fields_nil, skipBlanks_gap, skipBlanks_cons_of_not_isSeparator (by decide)]

theorem skipBlanks_fields_cons (level : Nat) (field : String × Value)
    (fields : List (String × Value)) (rest : List Char) :
    skipBlanks (layout.fields level (field :: fields) rest)
      = ',' :: (layout.gap (level + 1)
          ++ layout.member (level + 1) field (layout.fields level fields rest)) := by
  rw [layout.fields_cons, skipBlanks_cons_of_not_isSeparator (by decide), member]

/-! ### Lists and records -/

section Nested

variable {value : Read Value} (hblanks : ∀ text, value (skipBlanks text) = value text)

include hblanks

theorem items_gap (fuel level : Nat) (text : List Char) :
    Json.items value fuel (layout.gap level ++ text) = Json.items value fuel text := by
  cases fuel with
  | zero => rfl
  | succ fuel =>
      have hvalue : value (layout.gap level ++ text) = value text := by
        rw [← hblanks, skipBlanks_gap, hblanks]
      rw [Json.items, Json.items, hvalue]

theorem items_eq_some (level : Nat) (rest : List Char) :
    ∀ (vs : List Value) (v : Value) (fuel : Nat),
      (∀ w ∈ v :: vs, layout.ReadsBack value (level + 1) w) → vs.length < fuel →
      Json.items value fuel (layout.onto (level + 1) v (layout.items level vs rest))
        = some (v :: vs, rest) := by
  intro vs
  induction vs with
  | nil =>
      intro v fuel hread hfuel
      obtain ⟨fuel, rfl⟩ : ∃ less, fuel = less + 1 := ⟨fuel - 1, by simp at hfuel; omega⟩
      have hfirst := hread v (by simp) _ (layout.endsNumber_items level [] rest)
      simp [Json.items, hfirst, skipBlanks_items_nil]
  | cons w vs ih =>
      intro v fuel hread hfuel
      rw [List.length_cons] at hfuel
      obtain ⟨fuel, rfl⟩ : ∃ less, fuel = less + 1 := ⟨fuel - 1, by omega⟩
      have hfirst := hread v (by simp) _ (layout.endsNumber_items level (w :: vs) rest)
      -- each item takes one off the fuel
      have hmore := ih w fuel (fun u hu => hread u (List.mem_cons_of_mem v hu)) (by omega)
      simp [Json.items, hfirst, skipBlanks_items_cons, layout.items_gap hblanks, hmore]

omit hblanks in
theorem members_gap (fuel level : Nat) (text : List Char) :
    members value fuel (layout.gap level ++ text) = members value fuel text := by
  cases fuel with
  | zero => rfl
  | succ fuel =>
      have hmember : Json.member value (layout.gap level ++ text) = Json.member value text := by
        rw [Json.member, Json.member, skipBlanks_gap]
      rw [members, members, hmember]

/-- A name and its value are read. -/
theorem member_eq_some {level : Nat} {field : String × Value} {rest : List Char}
    (hread : layout.ReadsBack value level field.2) (hrest : EndsNumber rest) :
    Json.member value (layout.member level field rest) = some (field, rest) := by
  have hvalue : value (layout.space ++ layout.onto level field.2 rest) = some (field.2, rest) := by
    rw [← hblanks, skipBlanks_append layout.blank_space, hblanks]
    exact hread rest hrest
  have hquote : skipBlanks (layout.member level field rest) = layout.member level field rest :=
    skipBlanks_cons_of_not_isSeparator (by decide)
  have hcolon : ∀ text, skipBlanks (':' :: text) = ':' :: text :=
    fun text => skipBlanks_cons_of_not_isSeparator (by decide)
  rw [Json.member, hquote, member, quoteOnto]
  simp [stringBody_quoteTail, hcolon, hvalue]

/-- The fields of a record are read one after the other. -/
theorem members_eq_some (level : Nat) (rest : List Char) :
    ∀ (fields : List (String × Value)) (field : String × Value) (fuel : Nat),
      (∀ found ∈ field :: fields, layout.ReadsBack value (level + 1) found.2) →
      fields.length < fuel →
      members value fuel (layout.member (level + 1) field (layout.fields level fields rest))
        = some (field :: fields, rest) := by
  intro fields
  induction fields with
  | nil =>
      intro field fuel hread hfuel
      obtain ⟨fuel, rfl⟩ : ∃ less, fuel = less + 1 := ⟨fuel - 1, by simp at hfuel; omega⟩
      have hfirst := layout.member_eq_some hblanks (hread field (by simp))
        (layout.endsNumber_fields level [] rest)
      simp [members, hfirst, skipBlanks_fields_nil]
  | cons other fields ih =>
      intro field fuel hread hfuel
      rw [List.length_cons] at hfuel
      obtain ⟨fuel, rfl⟩ : ∃ less, fuel = less + 1 := ⟨fuel - 1, by omega⟩
      have hfirst := layout.member_eq_some hblanks (hread field (by simp))
        (layout.endsNumber_fields level (other :: fields) rest)
      have hmore := ih other fuel
        (fun found hfound => hread found (List.mem_cons_of_mem field hfound)) (by omega)
      simp [members, hfirst, skipBlanks_fields_cons, members_gap, hmore]

end Nested

end Layout

/-! ## Values -/

/-- The value can be written as JSON with lists and records nested at most `depth` deep. -/
inductive Expressible : Nat → Value → Prop where
  | null {depth : Nat} : Expressible depth .null
  | bool {depth : Nat} (b : Bool) : Expressible depth (.bool b)
  | nat {depth n : Nat} (h : n < wordSize) : Expressible depth (.nat n)
  | string {depth : Nat} (text : String) : Expressible depth (.string text)
  | list {depth : Nat} {items : List Value} (h : ∀ item ∈ items, Expressible depth item) :
      Expressible (depth + 1) (.list items)
  | record {depth : Nat} {fields : List (String × Value)}
      (h : ∀ field ∈ fields, Expressible depth field.2) : Expressible (depth + 1) (.record fields)

theorem valueWithin_skipBlanks (fuel : Nat) (text : List Char) :
    valueWithin fuel (skipBlanks text) = valueWithin fuel text := by
  cases fuel with
  | zero => rfl
  | succ fuel => rw [valueWithin, valueWithin, skipBlanks_idem]

theorem valueWithin_number {d : Char} {text : List Char} (hd : d.isDigit = true) (fuel : Nat) :
    valueWithin (fuel + 1) (d :: text) = number (d :: text) := by
  rw [valueWithin, skipBlanks_cons_of_not_isSeparator (not_isSeparator_of_isDigit hd)]
  split
  case h_7 => rfl
  all_goals
    rename_i heq
    exact absurd (List.cons.inj heq).1 (ne_of_isDigit hd (by decide))

theorem valueWithin_string (fuel : Nat) (text : List Char) :
    valueWithin (fuel + 1) ('"' :: text)
      = (stringBody text).map fun found => (.string found.1, found.2) := rfl

theorem valueWithin_list (fuel : Nat) (text : List Char) :
    valueWithin (fuel + 2) ('[' :: text) = listTail (valueWithin (fuel + 1)) text := rfl

theorem valueWithin_record (fuel : Nat) (text : List Char) :
    valueWithin (fuel + 2) ('\x7b' :: text) = recordTail (valueWithin (fuel + 1)) text := rfl

theorem length_quoteTail_le (rest : List Char) (cs : List Char) :
    rest.length < (quoteTail cs rest).length := by
  induction cs with
  | nil => simp [quoteTail]
  | cons c cs ih =>
      rw [quoteTail, List.length_append]
      omega

namespace Layout

variable (layout : Layout)

/-- The text of a value begins with a character that is neither a blank nor a closing bracket. -/
theorem exists_cons_onto {depth : Nat} {v : Value} (h : Expressible depth v) (level : Nat)
    (rest : List Char) :
    ∃ c text, layout.onto level v rest = c :: text ∧ isSeparator c = false ∧ c ≠ ']' := by
  -- a digit, a quote, an opening bracket or brace, or the first letter of a word
  cases h with
  | null => exact ⟨'n', _, layout.onto_null level rest, by decide, by decide⟩
  | bool b => cases b <;> exact ⟨_, _, layout.onto_bool level _ rest, by decide, by decide⟩
  | @nat _ n h =>
      obtain ⟨d, digits, hdigits, hd⟩ := exists_cons_toDigits n
      refine ⟨d, digits ++ rest, ?_, not_isSeparator_of_isDigit hd, ne_of_isDigit hd (by decide)⟩
      rw [layout.onto_nat, hdigits, List.cons_append]
  | string text => exact ⟨'"', _, layout.onto_string level text rest, by decide, by decide⟩
  | @list _ items h =>
      cases items with
      | nil => exact ⟨'[', _, layout.onto_list_nil level rest, by decide, by decide⟩
      | cons v vs => exact ⟨'[', _, layout.onto_list_cons level v vs rest, by decide, by decide⟩
  | @record _ fields h =>
      cases fields with
      | nil => exact ⟨'\x7b', _, layout.onto_record_nil level rest, by decide, by decide⟩
      | cons field fields =>
          exact ⟨'\x7b', _, layout.onto_record_cons level _ _ fields rest, by decide, by decide⟩

/-! ### The length of the text

The readers of lists and records take the length of the text for their fuel: there are never more
items than characters. -/

theorem length_items {vs : List Value}
    (h : ∀ v ∈ vs, ∀ level rest, rest.length < (layout.onto level v rest).length) (level : Nat)
    (rest : List Char) : vs.length + rest.length < (layout.items level vs rest).length := by
  induction vs with
  | nil =>
      rw [layout.items_nil, List.length_append, List.length_cons, List.length_nil]
      omega
  | cons v vs ih =>
      have hvs := ih (fun w hw => h w (List.mem_cons_of_mem v hw))
      have hv := h v (by simp) (level + 1) (layout.items level vs rest)
      rw [layout.items_cons, List.length_cons, List.length_cons, List.length_append]
      omega

theorem length_member {field : String × Value} {level : Nat} {rest : List Char}
    (h : rest.length < (layout.onto level field.2 rest).length) :
    rest.length < (layout.member level field rest).length := by
  have hquote := length_quoteTail_le (':' :: (layout.space ++ layout.onto level field.2 rest))
    field.1.toList
  rw [member, quoteOnto, List.length_cons]
  simp only [List.length_cons, List.length_append] at hquote
  omega

theorem length_fields {fields : List (String × Value)}
    (h : ∀ field ∈ fields, ∀ level rest, rest.length < (layout.onto level field.2 rest).length)
    (level : Nat) (rest : List Char) :
    fields.length + rest.length < (layout.fields level fields rest).length := by
  induction fields with
  | nil =>
      rw [layout.fields_nil, List.length_append, List.length_cons, List.length_nil]
      omega
  | cons field fields ih =>
      have hfields := ih (fun found hfound => h found (List.mem_cons_of_mem field hfound))
      have hfield := layout.length_member
        (h field (by simp) (level + 1) (layout.fields level fields rest))
      rw [layout.fields_cons, ← member, List.length_cons, List.length_cons, List.length_append]
      omega

theorem length_onto {depth : Nat} {v : Value} (h : Expressible depth v) :
    ∀ (level : Nat) (rest : List Char), rest.length < (layout.onto level v rest).length := by
  induction h with
  | null =>
      intro level rest
      rw [layout.onto_null]
      show rest.length < rest.length + 4
      omega
  | bool b =>
      intro level rest
      rw [layout.onto_bool]
      cases b with
      | false =>
          show rest.length < rest.length + 5
          omega
      | true =>
          show rest.length < rest.length + 4
          omega
  | nat _ =>
      intro level rest
      rw [layout.onto_nat, List.length_append]
      exact Nat.lt_add_of_pos_left Nat.length_toDigits_pos
  | string text =>
      intro level rest
      have hquote := length_quoteTail_le rest text.toList
      rw [layout.onto_string, List.length_cons]
      omega
  | @list _ items _ ih =>
      intro level rest
      cases items with
      | nil =>
          rw [layout.onto_list_nil, List.length_cons, List.length_cons]
          omega
      | cons v vs =>
          -- Only the first character differs from that of further items.
          have hvs := layout.length_items ih level rest
          rw [layout.items_cons, List.length_cons, List.length_cons] at hvs
          rw [layout.onto_list_cons, List.length_cons]
          omega
  | @record _ fields _ ih =>
      intro level rest
      cases fields with
      | nil =>
          rw [layout.onto_record_nil, List.length_cons, List.length_cons]
          omega
      | cons field fields =>
          have hfields := layout.length_fields ih level rest
          rw [layout.fields_cons, List.length_cons, List.length_cons] at hfields
          rw [layout.onto_record_cons, List.length_cons]
          omega

/-! ### Reading -/

/-- A list that is not empty is read from its text behind the opening bracket. -/
theorem listTail_eq_some {value : Read Value} {depth level : Nat} {v : Value} {vs : List Value}
    (hblanks : ∀ text, value (skipBlanks text) = value text)
    (hread : ∀ w ∈ v :: vs, layout.ReadsBack value (level + 1) w)
    (hwritten : ∀ w ∈ v :: vs, Expressible depth w) (rest : List Char) :
    listTail value
        (layout.gap (level + 1) ++ layout.onto (level + 1) v (layout.items level vs rest))
      = some (.list (v :: vs), rest) := by
  have hfirst := hwritten v (by simp)
  -- every item is at least one character long, so the length of the text is fuel enough
  have hlength := layout.length_onto hfirst (level + 1) (layout.items level vs rest)
  have hmany := layout.length_items
    (fun w hw => layout.length_onto (hwritten w (List.mem_cons_of_mem v hw))) level rest
  have hitems := layout.items_eq_some hblanks level rest vs v _ hread
    (show vs.length < (layout.onto (level + 1) v (layout.items level vs rest)).length by omega)
  -- the list does not end right away: its first item begins with no closing bracket
  obtain ⟨c, text, htext, hblank, hclosing⟩ :=
    layout.exists_cons_onto hfirst (level + 1) (layout.items level vs rest)
  rw [listTail, skipBlanks_gap]
  rw [htext] at hitems ⊢
  rw [skipBlanks_cons_of_not_isSeparator hblank]
  split
  next heq => exact absurd (List.cons.inj heq).1 hclosing
  next => rw [hitems, Option.map_some]

/-- A record that is not empty is read from its text behind the opening brace. -/
theorem recordTail_eq_some {value : Read Value} {depth level : Nat} {field : String × Value}
    {fields : List (String × Value)} (hblanks : ∀ text, value (skipBlanks text) = value text)
    (hread : ∀ found ∈ field :: fields, layout.ReadsBack value (level + 1) found.2)
    (hwritten : ∀ found ∈ field :: fields, Expressible depth found.2) (rest : List Char) :
    recordTail value
        (layout.gap (level + 1)
          ++ layout.member (level + 1) field (layout.fields level fields rest))
      = some (.record (field :: fields), rest) := by
  -- as for lists, the length of the text is fuel enough for the fields
  have hlength := layout.length_member
    (layout.length_onto (hwritten field (by simp)) (level + 1) (layout.fields level fields rest))
  have hmany := layout.length_fields
    (fun found hfound => layout.length_onto (hwritten found (List.mem_cons_of_mem field hfound)))
    level rest
  have hmembers := layout.members_eq_some hblanks level rest fields field _ hread
    (show fields.length
        < (layout.member (level + 1) field (layout.fields level fields rest)).length by omega)
  -- the first field begins with the quote of its key, which is no closing brace
  have hquote : skipBlanks (layout.member (level + 1) field (layout.fields level fields rest))
      = layout.member (level + 1) field (layout.fields level fields rest) :=
    skipBlanks_cons_of_not_isSeparator (by decide)
  rw [recordTail, skipBlanks_gap, hquote]
  split
  next heq => exact absurd (List.cons.inj heq).1 (by decide)
  next => rw [hmembers, Option.map_some]

/-- **A value is read from its text**, whatever the layout and whatever follows. The induction is on
how the value is put together; each level of lists and records takes one off the fuel. -/
theorem readsBack_valueWithin {depth : Nat} {v : Value} (h : Expressible depth v) :
    ∀ {fuel : Nat} (level : Nat), depth ≤ fuel →
      layout.ReadsBack (valueWithin (fuel + 1)) level v := by
  induction h with
  | null =>
      intro fuel level _ rest _
      rw [layout.onto_null]
      rfl
  | bool b =>
      intro fuel level _ rest _
      rw [layout.onto_bool]
      cases b <;> rfl
  | @nat _ n hn =>
      intro fuel level _ rest hrest
      obtain ⟨d, digits, hdigits, hd⟩ := exists_cons_toDigits n
      rw [layout.onto_nat, ← number_toDigits hn hrest, hdigits]
      exact valueWithin_number hd fuel
  | string text =>
      intro fuel level _ rest _
      rw [layout.onto_string, valueWithin_string, stringBody_quoteTail,
        Option.map_some]
  | @list depth items hitems ih =>
      intro fuel level hfuel rest _
      obtain ⟨fuel, rfl⟩ : ∃ less, fuel = less + 1 := ⟨fuel - 1, by omega⟩
      cases items with
      | nil =>
          rw [layout.onto_list_nil]
          rfl
      | cons v vs =>
          rw [layout.onto_list_cons, valueWithin_list]
          exact layout.listTail_eq_some (valueWithin_skipBlanks _)
            (fun w hw => ih w hw (level + 1) (by omega)) hitems rest
  | @record depth fields hfields ih =>
      intro fuel level hfuel rest _
      obtain ⟨fuel, rfl⟩ : ∃ less, fuel = less + 1 := ⟨fuel - 1, by omega⟩
      cases fields with
      | nil =>
          rw [layout.onto_record_nil]
          rfl
      | cons field fields =>
          rw [layout.onto_record_cons, valueWithin_record]
          exact layout.recordTail_eq_some (valueWithin_skipBlanks _)
            (fun found hfound => ih found hfound (level + 1) (by omega)) hfields rest

theorem parse_onto {depth : Nat} {v : Value} (h : Expressible depth v)
    (hdepth : depth < depthLimit) : parse (String.ofList (layout.onto 0 v [])) = some v := by
  have hread : valueWithin depthLimit (layout.onto 0 v []) = some (v, []) :=
    layout.readsBack_valueWithin h 0 (Nat.le_pred_of_lt hdepth) [] endsNumber_nil
  rw [parse, String.toList_ofList, hread]
  rfl

end Layout

/-- **What is written can be read**, with a line for each item. -/
theorem parse_pretty {depth : Nat} {v : Value} (h : Expressible depth v)
    (hdepth : depth < depthLimit) : parse (pretty v) = some v :=
  indented.parse_onto h hdepth

/-- **What is written can be read**, without any blanks. -/
theorem parse_write {depth : Nat} {v : Value} (h : Expressible depth v)
    (hdepth : depth < depthLimit) : parse (write v) = some v :=
  compact.parse_onto h hdepth

end RepoPolicy.Document.Json
