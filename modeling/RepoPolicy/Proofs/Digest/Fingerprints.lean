import Mathlib.Data.List.TakeWhile
import RepoPolicy.Digest.Fingerprint

set_option autoImplicit false

/-! # The form of fingerprints, and what they identify

A fingerprint writes the first eight bytes of a hash in hexadecimal (`writesHex_fingerprint`), so it
has the form that `isFingerprint` asks for, whatever is hashed. What is hashed are the bytes of the
trimmed rule, file and symbol with null bytes between them (`fingerprintBytes_eq`). No other character
than the null character is written with a null byte, so texts without it can be told from what is
hashed (`fingerprints_identify_trimmed_texts`). -/

namespace RepoPolicy.Digest

open RepoPolicy.Text

/-! ## The form -/

theorem length_sha256 (message : List UInt8) : (sha256 message).length = 32 := by
  simp [sha256, bytesOfWord]

theorem isHexChar_hexChar {n : Nat} (h : n < 16) : isHexChar (hexChar n) = true := by
  have hall : ∀ m < 16, isHexChar (hexChar m) = true := by decide
  exact hall n h

theorem isHexChar_of_mem_hexByte {b : UInt8} {c : Char} (h : c ∈ hexByte b) :
    isHexChar c = true := by
  have hbyte := b.toNat_lt
  simp only [hexByte, List.mem_cons, List.not_mem_nil, or_false] at h
  rcases h with rfl | rfl
  · exact isHexChar_hexChar (by omega)
  · exact isHexChar_hexChar (by omega)

theorem length_flatMap_hexByte (bytes : List UInt8) :
    (bytes.flatMap hexByte).length = 2 * bytes.length := by
  induction bytes with
  | nil => rfl
  | cons b bytes ih =>
      rw [List.flatMap_cons, List.length_append, ih, List.length_cons]
      simp only [hexByte, List.length_cons, List.length_nil]
      omega

/-- **A fingerprint has the form of one.** -/
theorem isFingerprint_fingerprint (ruleName filePath symbol : String) :
    isFingerprint (fingerprint ruleName filePath symbol) = true := by
  have hbytes : ((sha256 (fingerprintBytes ruleName filePath symbol)).take
      (fingerprintLength / 2)).length = 8 := by
    rw [List.length_take, length_sha256]
    rfl
  rw [isFingerprint, fingerprint, String.toList_ofList, Bool.and_eq_true, List.all_eq_true]
  constructor
  · rw [length_flatMap_hexByte, hbytes]
    rfl
  · intro c hc
    obtain ⟨b, -, hb⟩ := List.mem_flatMap.1 hc
    exact isHexChar_of_mem_hexByte hb

/-! ## The digits -/

/-- The hexadecimal digits in lower case, each at the place of its value. -/
def hexDigits : List Char := "0123456789abcdef".toList

/-- A text that writes bytes in hexadecimal: two digits for each byte, the higher one first. -/
structure WritesHex (text : String) (bytes : List UInt8) : Prop where
  length : text.toList.length = 2 * bytes.length
  digits : ∀ i b, bytes[i]? = some b →
    text.toList[2 * i]? = hexDigits[b.toNat / 16]? ∧
      text.toList[2 * i + 1]? = hexDigits[b.toNat % 16]?

theorem hexDigits_getElem? {n : Nat} (h : n < 16) : hexDigits[n]? = some (hexChar n) := by
  have hall : ∀ m < 16, hexDigits[m]? = some (hexChar m) := by decide
  exact hall n h

theorem writesHex_flatMap (bytes : List UInt8) :
    WritesHex (String.ofList (bytes.flatMap hexByte)) bytes where
  length := by rw [String.toList_ofList, length_flatMap_hexByte]
  digits := by
    rw [String.toList_ofList]
    induction bytes with
    | nil => intro i b hb; cases hb
    | cons first rest ih =>
        intro i b hb
        cases i with
        | zero =>
            obtain rfl : first = b := Option.some.inj hb
            have hbyte := first.toNat_lt
            rw [hexDigits_getElem? (by omega), hexDigits_getElem? (by omega)]
            exact ⟨rfl, rfl⟩
        | succ i => exact ih i b hb

/-- **A fingerprint writes the first eight bytes of the hash in hexadecimal.** -/
theorem writesHex_fingerprint (ruleName filePath symbol : String) :
    WritesHex (fingerprint ruleName filePath symbol)
      ((sha256 (fingerprintBytes ruleName filePath symbol)).take 8) :=
  writesHex_flatMap _

/-! ## The bytes of a text -/

theorem toList_loop_eq (bytes : ByteArray) (i : Nat) (read : List UInt8) :
    ByteArray.toList.loop bytes i read = read.reverse ++ bytes.data.toList.drop i := by
  fun_induction ByteArray.toList.loop bytes i read with
  | case1 i read hlt ih =>
      have hlength : i < bytes.data.toList.length := hlt
      have hget : bytes.get! i = bytes.data.toList[i] := by
        show bytes.data[i]! = _
        rw [getElem!_pos bytes.data i hlt, Array.getElem_toList]
      rw [ih, List.drop_eq_getElem_cons hlength, hget]
      simp
  | case2 i read hge =>
      rw [List.drop_eq_nil_of_le (Nat.le_of_not_lt hge), List.append_nil]

theorem toList_toUTF8 (text : String) :
    text.toUTF8.toList = text.toList.flatMap String.utf8EncodeChar := by
  rw [ByteArray.toList, toList_loop_eq, String.toUTF8_eq_toByteArray]
  conv => lhs; rw [← String.ofList_toList (s := text)]
  exact List.toList_data_toByteArray

theorem toUTF8_toList_inj {text other : String} (h : text.toUTF8.toList = other.toUTF8.toList) :
    text = other := by
  rw [ByteArray.toList, ByteArray.toList, toList_loop_eq, toList_loop_eq] at h
  exact String.toByteArray_inj.1 (ByteArray.ext (Array.toList_inj.1 h))

/-- Only the null character is written with a null byte. -/
theorem zero_notMem_utf8EncodeChar {c : Char} (h : c ≠ '\x00') : 0 ∉ String.utf8EncodeChar c := by
  have hcode : 0 < c.val.toNat := by
    refine Nat.pos_of_ne_zero fun hzero => h (Char.ext (UInt32.toNat_inj.1 ?_))
    exact hzero
  have hbyte : ∀ n, 0 < n % 256 → (0 : UInt8) ≠ UInt8.ofNat n := by
    intro n hn heq
    rw [← UInt8.toNat_inj, UInt8.toNat_ofNat'] at heq
    exact absurd heq (Nat.ne_of_lt hn)
  -- The bytes of a longer code have one of their highest bits set.
  rw [String.utf8EncodeChar]
  split
  · simp only [List.mem_cons, List.not_mem_nil, or_false]
    exact hbyte _ (by omega)
  split
  · simp only [List.mem_cons, List.not_mem_nil, or_false, not_or]
    exact ⟨hbyte _ (by omega), hbyte _ (by omega)⟩
  split
  · simp only [List.mem_cons, List.not_mem_nil, or_false, not_or]
    exact ⟨hbyte _ (by omega), hbyte _ (by omega), hbyte _ (by omega)⟩
  · simp only [List.mem_cons, List.not_mem_nil, or_false, not_or]
    exact ⟨hbyte _ (by omega), hbyte _ (by omega), hbyte _ (by omega), hbyte _ (by omega)⟩

/-! ## Trimmed texts -/

theorem mem_of_mem_trim {c : Char} {text : List Char} (h : c ∈ trim text) : c ∈ text := by
  rw [trim, trimEnd, List.mem_reverse] at h
  have hend := (List.dropWhile_suffix _).mem h
  rw [List.mem_reverse] at hend
  exact (List.dropWhile_suffix _).mem hend

theorem trimStart_append_left {front : List Char} (h : ∀ c ∈ front, isBlank c = true)
    (text : List Char) : trimStart (front ++ text) = trimStart text :=
  List.dropWhile_append_of_pos h

theorem trimEnd_append_right {back : List Char} (h : ∀ c ∈ back, isBlank c = true)
    (text : List Char) : trimEnd (text ++ back) = trimEnd text := by
  rw [trimEnd, List.reverse_append,
    List.dropWhile_append_of_pos fun c hc => h c (List.mem_reverse.1 hc)]
  rfl

/-- Blanks around a text are cut off. -/
theorem trim_padded {front back : List Char} (hfront : ∀ c ∈ front, isBlank c = true)
    (hback : ∀ c ∈ back, isBlank c = true) (text : List Char) :
    trim (front ++ text ++ back) = trim text := by
  have hblank : back.dropWhile isBlank = [] := List.dropWhile_eq_nil_iff.2 hback
  rw [List.append_assoc, trim, trimStart_append_left hfront, trim, trimStart, trimStart,
    List.dropWhile_append]
  split
  · rename_i hempty
    rw [List.isEmpty_iff.1 hempty]
    exact congrArg trimEnd hblank
  · exact trimEnd_append_right hback _

/-- A text becomes longer by a character at its end that is no blank, also when it is trimmed. -/
theorem trim_append_ne {c : Char} (h : isBlank c = false) (text : List Char) :
    trim (text ++ [c]) ≠ trim text := by
  -- the new character ends the trimmed text, so nothing before it is cut off there
  have hend : trim (text ++ [c]) = trimStart text ++ [c] := by
    have hstart : trimStart (text ++ [c]) = trimStart text ++ [c] := by
      rw [trimStart, List.dropWhile_append]
      split
      · rename_i hempty
        rw [List.dropWhile_cons_of_neg (by simp [h]), trimStart, List.isEmpty_iff.1 hempty]
        rfl
      · rfl
    rw [trim, hstart, trimEnd, List.reverse_append, List.reverse_singleton, List.singleton_append,
      List.dropWhile_cons_of_neg (by simp [h]), List.reverse_cons, List.reverse_reverse]
  intro heq
  -- but trimming at the end makes no text longer
  have hle : (trim text).length ≤ (trimStart text).length := by
    rw [trim, trimEnd, List.length_reverse]
    exact Nat.le_trans (List.dropWhile_suffix _).length_le (by rw [List.length_reverse])
  rw [← heq, hend, List.length_append, List.length_singleton] at hle
  exact absurd hle (by omega)

/-! ## What is hashed -/

/-- A text without the null character. -/
def NullFree (text : String) : Prop := '\x00' ∉ text.toList

instance (text : String) : Decidable (NullFree text) :=
  inferInstanceAs (Decidable ('\x00' ∉ text.toList))

def Padded (text padded : String) : Prop :=
  ∃ front back, (∀ c ∈ front, isBlank c = true) ∧ (∀ c ∈ back, isBlank c = true) ∧
    padded.toList = front ++ text.toList ++ back

theorem Padded.trimmed_eq {text padded : String} (h : Padded text padded) :
    trimmed padded = trimmed text := by
  obtain ⟨front, back, hfront, hback, heq⟩ := h
  rw [trimmed, heq, trim_padded hfront hback, trimmed]

theorem NullFree.zero_notMem {text : String} (h : NullFree text) :
    0 ∉ (trimmed text).toUTF8.toList := by
  rw [toList_toUTF8, trimmed, String.toList_ofList, List.mem_flatMap]
  rintro ⟨c, hc, hzero⟩
  refine zero_notMem_utf8EncodeChar ?_ hzero
  rintro rfl
  exact h (mem_of_mem_trim hc)

/-- The bytes before the first null byte and those behind it can be told. -/
theorem append_zero_inj {first other rest more : List UInt8} (hfirst : 0 ∉ first)
    (hother : 0 ∉ other) (h : first ++ 0 :: rest = other ++ 0 :: more) :
    first = other ∧ rest = more := by
  induction first generalizing other with
  | nil =>
      cases other with
      | nil => exact ⟨rfl, (List.cons.inj h).2⟩
      | cons b other => exact absurd (List.cons.inj h).1 (List.ne_of_not_mem_cons hother)
  | cons b first ih =>
      cases other with
      | nil => exact absurd (List.cons.inj h).1.symm (List.ne_of_not_mem_cons hfirst)
      | cons b' other =>
          obtain ⟨rfl, htail⟩ := List.cons.inj h
          obtain ⟨rfl, hrest⟩ := ih (List.not_mem_of_not_mem_cons hfirst)
            (List.not_mem_of_not_mem_cons hother) htail
          exact ⟨rfl, hrest⟩

section

variable {rule file symbol rule' file' symbol' : String}

/-- The bytes that are hashed: those of the trimmed texts, with a null byte between them. -/
theorem fingerprintBytes_eq :
    fingerprintBytes rule file symbol = List.intercalate [0] ([rule, file, symbol].map fun text =>
      (trim text.toList).flatMap String.utf8EncodeChar) := by
  simp only [fingerprintBytes, toList_toUTF8, trimmed, String.toList_ofList]
  simp [List.intercalate]

/-- Texts without the null character can be told from what is hashed: the first one ends at the first
null byte and the second one at the next. -/
theorem fingerprintBytes_eq_iff (hrule : NullFree rule) (hfile : NullFree file)
    (hrule' : NullFree rule') (hfile' : NullFree file') :
    fingerprintBytes rule file symbol = fingerprintBytes rule' file' symbol' ↔
      trimmed rule = trimmed rule' ∧ trimmed file = trimmed file' ∧
        trimmed symbol = trimmed symbol' := by
  constructor
  · intro h
    rw [fingerprintBytes, fingerprintBytes, List.append_assoc, List.append_assoc] at h
    obtain ⟨hfirst, hrest⟩ := append_zero_inj hrule.zero_notMem hrule'.zero_notMem h
    obtain ⟨hsecond, hthird⟩ := append_zero_inj hfile.zero_notMem hfile'.zero_notMem hrest
    exact ⟨toUTF8_toList_inj hfirst, toUTF8_toList_inj hsecond, toUTF8_toList_inj hthird⟩
  · rintro ⟨hfirst, hsecond, hthird⟩
    rw [fingerprintBytes, fingerprintBytes, hfirst, hsecond, hthird]

/-- A character that is no blank belongs to the text on its side of a null byte. -/
theorem trimmed_push_ne {c : Char} (h : isBlank c = false) (text : String) :
    trimmed (text.push c) ≠ trimmed text := by
  rw [trimmed, trimmed, String.toList_push]
  exact fun heq => trim_append_ne h text.toList (String.ofList_injective heq)

end

/-- **A fingerprint identifies exactly the trimmed rule, file and symbol.**
* It writes the first eight bytes of a hash in hexadecimal. What is hashed are the bytes of the
  trimmed texts, with a null byte between them.
* What is hashed for texts without the null character is the same if and only if they are the same
  when trimmed. So it matters where a character that is no blank stands, and in which order the texts
  are given.
* Blanks around the texts do not matter, and a fingerprint always has the form of one. -/
theorem fingerprints_identify_trimmed_texts (rule file symbol : String) :
    WritesHex (fingerprint rule file symbol)
        ((sha256 (fingerprintBytes rule file symbol)).take 8) ∧
    (fingerprintBytes rule file symbol = List.intercalate [0] ([rule, file, symbol].map fun text =>
      (trim text.toList).flatMap String.utf8EncodeChar)) ∧
    (NullFree rule → NullFree file → NullFree symbol →
      (∀ rule' file' symbol', NullFree rule' → NullFree file' → NullFree symbol' →
        (fingerprintBytes rule file symbol = fingerprintBytes rule' file' symbol' ↔
          trimmed rule = trimmed rule' ∧ trimmed file = trimmed file' ∧
            trimmed symbol = trimmed symbol')) ∧
      (∀ c, c ≠ '\x00' → isBlank c = false →
        fingerprintBytes (rule.push c) file symbol
            ≠ fingerprintBytes rule (String.singleton c ++ file) symbol ∧
          fingerprintBytes rule (file.push c) symbol
            ≠ fingerprintBytes rule file (String.singleton c ++ symbol)) ∧
      (trimmed rule ≠ trimmed file →
        fingerprintBytes file rule symbol ≠ fingerprintBytes rule file symbol) ∧
      (trimmed file ≠ trimmed symbol →
        fingerprintBytes rule symbol file ≠ fingerprintBytes rule file symbol) ∧
      (trimmed rule ≠ trimmed symbol →
        fingerprintBytes symbol file rule ≠ fingerprintBytes rule file symbol)) ∧
    (∀ rule' file' symbol', Padded rule rule' → Padded file file' → Padded symbol symbol' →
      fingerprint rule' file' symbol' = fingerprint rule file symbol) ∧
    isFingerprint (fingerprint rule file symbol) = true := by
  refine ⟨writesHex_fingerprint rule file symbol, fingerprintBytes_eq,
    fun hrule hfile hsymbol => ⟨?_, ?_, ?_, ?_, ?_⟩, ?_, isFingerprint_fingerprint _ _ _⟩
  · intro rule' file' symbol' hrule' hfile' _
    exact fingerprintBytes_eq_iff hrule hfile hrule' hfile'
  · intro c hnull hblank
    have hpush : ∀ {text : String}, NullFree text → NullFree (text.push c) := by
      intro text htext
      rw [NullFree, String.toList_push, List.mem_append, List.mem_singleton]
      exact fun hmem => hmem.elim htext fun heq => hnull heq.symm
    have hfront : NullFree (String.singleton c ++ file) := by
      rw [NullFree, String.toList_append, String.toList_singleton, List.mem_append,
        List.mem_singleton]
      exact fun hmem => hmem.elim (fun heq => hnull heq.symm) hfile
    rw [ne_eq, ne_eq, fingerprintBytes_eq_iff (hpush hrule) hfile hrule hfront,
      fingerprintBytes_eq_iff hrule (hpush hfile) hrule hfile]
    exact ⟨fun heq => trimmed_push_ne hblank rule heq.1,
      fun heq => trimmed_push_ne hblank file heq.2.1⟩
  · rw [ne_eq, ne_eq, fingerprintBytes_eq_iff hfile hrule hrule hfile]
    exact fun hne heq => hne heq.2.1
  · rw [ne_eq, ne_eq, fingerprintBytes_eq_iff hrule hsymbol hrule hfile]
    exact fun hne heq => hne heq.2.2
  · rw [ne_eq, ne_eq, fingerprintBytes_eq_iff hsymbol hfile hrule hfile]
    exact fun hne heq => hne heq.2.2
  · intro rule' file' symbol' hrule hfile hsymbol
    rw [fingerprint, fingerprint, fingerprintBytes, hrule.trimmed_eq, hfile.trimmed_eq,
      hsymbol.trimmed_eq, ← fingerprintBytes]

/-- A letter is moved from the rule to the file, the two are exchanged, and an em space and a line
feed are put around the rule. -/
theorem fingerprints_of_changed_texts :
    (NullFree "a" ∧ NullFree "c" ∧ NullFree "d") ∧
      fingerprintBytes "ab" "c" "d" ≠ fingerprintBytes "a" "bc" "d" ∧
      fingerprintBytes "c" "a" "d" ≠ fingerprintBytes "a" "c" "d" ∧
      fingerprint "\u2003a\n" "c" "d" = fingerprint "a" "c" "d" ∧
      WritesHex (fingerprint "a" "c" "d") ((sha256 [97, 0, 99, 0, 100]).take 8) := by
  have hnull : NullFree "a" ∧ NullFree "c" ∧ NullFree "d" := by decide
  obtain ⟨hwrites, hbytes, htexts, hpadded, -⟩ := fingerprints_identify_trimmed_texts "a" "c" "d"
  obtain ⟨-, hmoved, hexchanged, -⟩ := htexts hnull.1 hnull.2.1 hnull.2.2
  have hsame : ∀ text, Padded text text := fun text => ⟨[], [], by simp, by simp, by simp⟩
  refine ⟨hnull, (hmoved 'b' (by decide) (by decide)).1, hexchanged (by decide), ?_, ?_⟩
  · exact hpadded _ _ _ ⟨['\u2003'], ['\n'], List.forall_mem_singleton.2 rfl,
      List.forall_mem_singleton.2 rfl, rfl⟩ (hsame "c") (hsame "d")
  · have hhashed : fingerprintBytes "a" "c" "d" = [97, 0, 99, 0, 100] := hbytes.trans (by decide)
    rwa [hhashed] at hwrites

end RepoPolicy.Digest
