import Mathlib.Data.List.TakeWhile
import RepoPolicy.Proofs.Contract.AccessErrors
import RepoPolicy.Proofs.Text.WordSearch

set_option autoImplicit false

/-! # Names that tables are compared by

A reference to a table is read part by part, and its parts are joined by dots. The name it is
compared by is meant to be its last part in lower case. It is taken from the joined text again, from
the last dot on and without quotes at its ends, so it is the last part exactly if that part is a
plain name (`canonical_name_is_last_part_iff`). Lower case neither makes nor takes away dots and
quotes (`countP_lowerFrom`), and so a name that has lost some is never the right one. A part that
stands without quotes is plain. One in quotes can hold a dot, and what follows the dot can be the
name of a declared table (`quoted_dot_passes_for_declared`). -/

namespace RepoPolicy.Contract

open RepoPolicy.Text RepoPolicy.Sql

/-! ## Marks in lower case -/

/-- The characters at which names are cut: dots and quotes. -/
def isNameMark (c : Char) : Bool := c == '.' || isNameQuote c

theorem toNat_lt_of_isNameMark {c : Char} (h : isNameMark c = true) : c.toNat < 128 := by
  simp only [isNameMark, isNameQuote, Bool.or_eq_true, beq_iff_eq] at h
  rcases h with rfl | ((rfl | h) | rfl) | rfl
  · decide
  · decide
  · omega
  · decide
  · decide

theorem not_isNameMark {c : Char} (h : ¬c.toNat < 128) : isNameMark c = false :=
  Bool.eq_false_iff.2 (mt toNat_lt_of_isNameMark h)

/-- A run of characters is mapped to characters that are not basic, or is a single character with no
mark for its image. -/
theorem of_mem_lowerRuns {run : CaseRun} (h : run ∈ lowerRuns) :
    (128 : Int) ≤ Int.ofNat run.first + run.offset ∨
      run.first = run.last ∧
        isNameMark (Char.ofNat (Int.ofNat run.first + run.offset).toNat) = false := by
  have hall : lowerRuns.all (fun run => decide ((128 : Int) ≤ Int.ofNat run.first + run.offset) ||
      (run.first == run.last &&
        !isNameMark (Char.ofNat (Int.ofNat run.first + run.offset).toNat))) = true := by
    decide +kernel
  simpa using List.all_eq_true.1 hall run h

theorem not_isNameMark_applyRuns {code : Nat} (h : 128 ≤ code) :
    isNameMark (Char.ofNat (applyRuns lowerRuns code)) = false := by
  rw [Bool.eq_false_iff]
  intro hmark
  have hsmall := code_lt_of_basic (fun _ => toNat_lt_of_isNameMark) (by decide) hmark
  rcases applyRuns_cases lowerRuns code with hstays | ⟨run, hrun, hcovers, himage⟩
  · omega
  · -- a run that goes down to basic characters has one member, whose image is looked at
    simp only [CaseRun.covers, Bool.and_eq_true, decide_eq_true_eq] at hcovers
    rcases of_mem_lowerRuns hrun with hlarge | ⟨hsingle, hnone⟩
    · rw [himage] at hsmall
      simp only [Int.ofNat_eq_natCast] at hsmall hlarge
      omega
    · obtain rfl : code = run.first := by omega
      rw [himage, hnone] at hmark
      cases hmark

theorem countP_lowerChar (c : Char) :
    (lowerChar c).countP isNameMark = [c].countP isNameMark := by
  by_cases hbasic : c.toNat < 128
  · have hsame := of_basic (p := fun _ => true)
      (fun c => (lowerChar c).countP isNameMark == [c].countP isNameMark) hbasic rfl (by decide)
    exact beq_iff_eq.1 hsame
  · have hnone : [c].countP isNameMark = 0 := by simp [not_isNameMark hbasic]
    rw [lowerChar, if_neg hbasic, hnone]
    split
    · decide
    · simp [not_isNameMark_applyRuns (Nat.le_of_not_lt hbasic)]

/-- A text has as many dots and quotes as its lower-case form. -/
theorem countP_lowerFrom (before text : List Char) :
    (lowerFrom before text).countP isNameMark = text.countP isNameMark := by
  induction text generalizing before with
  | nil => rfl
  | cons c rest ih =>
      rw [lowerFrom, List.countP_append, ih, ← List.singleton_append (l := rest),
        List.countP_append]
      refine congrArg (· + _) ?_
      split
      · -- a sigma has another form at the end of a word, and neither form is a mark
        rename_i hsigma
        have hnone : isNameMark c = false := not_isNameMark (by rw [beq_iff_eq.1 hsigma]; decide)
        rw [List.countP_singleton, hnone]
        split <;> decide
      · exact countP_lowerChar c

theorem countP_eq_of_lowercase_eq {name other : String} (h : lowercase name = lowercase other) :
    name.toList.countP isNameMark = other.toList.countP isNameMark := by
  have hlower := congrArg (fun text : String => text.toList.countP isNameMark) h
  simpa [lowercase, countP_lowerFrom] using hlower

/-! ## Plain names -/

/-- Whether a name holds no dot and neither begins nor ends with a quote. -/
def isPlainName (name : String) : Bool :=
  !name.toList.contains '.' && !name.toList.head?.any isNameQuote &&
    !name.toList.getLast?.any isNameQuote

def behindLastDot (text : List Char) : List Char := (text.reverse.takeWhile (· != '.')).reverse

theorem canonicalTable_eq (name : String) :
    canonicalTable name
      = lowercase (String.ofList (strip isNameQuote (behindLastDot name.toList))) := rfl

theorem behindLastDot_eq_self {text : List Char} (h : '.' ∉ text) : behindLastDot text = text := by
  have hall : text.reverse.takeWhile (· != '.') = text.reverse := by
    refine List.takeWhile_eq_self_iff.2 fun c hc => ?_
    rw [bne_iff_ne]
    rintro rfl
    exact h (List.mem_reverse.1 hc)
  rw [behindLastDot, hall, List.reverse_reverse]

theorem countP_behindLastDot_lt {text : List Char} (h : '.' ∈ text) :
    (behindLastDot text).countP isNameMark < text.countP isNameMark := by
  have hsplit := List.takeWhile_append_dropWhile (p := (· != '.')) (l := text.reverse)
  have hmem : '.' ∈ text.reverse.dropWhile (· != '.') := by
    rw [← List.mem_reverse, ← hsplit, List.mem_append] at h
    refine h.resolve_left fun htake => ?_
    simpa using List.mem_takeWhile_imp htake
  have hpos : 0 < (text.reverse.dropWhile (· != '.')).countP isNameMark :=
    List.countP_pos_iff.2 ⟨'.', hmem, rfl⟩
  rw [behindLastDot, List.countP_reverse, ← List.countP_reverse (l := text), ← hsplit,
    List.countP_append, hsplit]
  omega

theorem strip_sublist (cut : Char → Bool) (text : List Char) : (strip cut text).Sublist text := by
  rw [strip, ← List.reverse_sublist, List.reverse_reverse]
  exact (List.dropWhile_sublist _).trans (List.reverse_sublist.2 (List.dropWhile_sublist _))

theorem strip_cons_sublist {cut : Char → Bool} {c : Char} (hc : cut c = true) (rest : List Char) :
    (strip cut (c :: rest)).Sublist rest := by
  rw [strip, List.dropWhile_cons_of_pos hc, ← strip]
  exact strip_sublist cut rest

theorem strip_concat_sublist {cut : Char → Bool} {c : Char} (hc : cut c = true)
    (front : List Char) : (strip cut (front ++ [c])).Sublist front := by
  rw [strip, List.dropWhile_append]
  split
  · rw [List.dropWhile_cons_of_pos hc]
    exact List.nil_sublist front
  · rw [List.reverse_append, List.reverse_singleton, List.singleton_append,
      List.dropWhile_cons_of_pos hc, ← List.reverse_sublist, List.reverse_reverse]
    exact (List.dropWhile_sublist _).trans (List.reverse_sublist.2 (List.dropWhile_sublist _))

theorem strip_eq_self {cut : Char → Bool} {text : List Char}
    (hhead : text.head?.any cut = false) (hlast : text.getLast?.any cut = false) :
    strip cut text = text := by
  have hcut : ∀ text : List Char, text.head?.any cut = false → text.dropWhile cut = text := by
    intro text h
    cases text with
    | nil => rfl
    | cons c rest => exact List.dropWhile_cons_of_neg (by simpa using h)
  rw [strip, hcut text hhead, hcut text.reverse (by rwa [List.head?_reverse]), List.reverse_reverse]

theorem canonicalTable_of_isPlainName {name : String} (h : isPlainName name = true) :
    canonicalTable name = lowercase name := by
  simp only [isPlainName, Bool.and_eq_true, Bool.not_eq_true', List.contains_eq_mem,
    decide_eq_false_iff_not] at h
  rw [canonicalTable_eq, behindLastDot_eq_self h.1.1, strip_eq_self h.1.2 h.2, String.ofList_toList]

theorem isNameMark_of_isNameQuote {c : Char} (h : isNameQuote c = true) : isNameMark c = true := by
  rw [isNameMark, h, Bool.or_true]

theorem countP_strip_lt {text : List Char}
    (h : text.head?.any isNameQuote = true ∨ text.getLast?.any isNameQuote = true) :
    (strip isNameQuote text).countP isNameMark < text.countP isNameMark := by
  rcases h with hhead | hlast
  · cases text with
    | nil => cases hhead
    | cons c rest =>
        have hc : isNameQuote c = true := hhead
        rw [List.countP_cons_of_pos (isNameMark_of_isNameQuote hc)]
        exact Nat.lt_succ_of_le (strip_cons_sublist hc rest).countP_le
  · rcases List.eq_nil_or_concat text with rfl | ⟨front, c, rfl⟩
    · cases hlast
    · have hc : isNameQuote c = true := by simpa using hlast
      rw [List.concat_eq_append, List.countP_append,
        List.countP_cons_of_pos (isNameMark_of_isNameQuote hc)]
      exact Nat.lt_succ_of_le (strip_concat_sublist hc front).countP_le

/-- Of a name that is not plain, a dot or a quote is lost. -/
theorem countP_canonical_lt {name : String} (h : isPlainName name = false) :
    (strip isNameQuote (behindLastDot name.toList)).countP isNameMark
      < name.toList.countP isNameMark := by
  by_cases hdot : '.' ∈ name.toList
  · exact Nat.lt_of_le_of_lt (strip_sublist _ _).countP_le (countP_behindLastDot_lt hdot)
  · rw [behindLastDot_eq_self hdot]
    refine countP_strip_lt ?_
    simpa only [isPlainName, List.contains_eq_mem, decide_eq_false hdot, Bool.not_false,
      Bool.true_and, Bool.and_eq_false_iff, Bool.not_eq_false'] using h

theorem canonicalTable_eq_lowercase_iff (name : String) :
    canonicalTable name = lowercase name ↔ isPlainName name = true := by
  refine ⟨fun h => ?_, canonicalTable_of_isPlainName⟩
  rw [canonicalTable_eq] at h
  -- lower case keeps the number of marks, and a name that is not plain has lost one
  have hcount := countP_eq_of_lowercase_eq h
  rw [String.toList_ofList] at hcount
  rw [← Bool.not_eq_false]
  intro hnot
  have hlost := countP_canonical_lt hnot
  omega

/-! ## Qualified names -/

theorem canonicalTable_intercalate (front : List String) (last : String) :
    canonicalTable (".".intercalate (front ++ [last])) = canonicalTable last := by
  by_cases hfront : front = []
  · rw [hfront, List.nil_append, String.intercalate_singleton]
  · rw [String.intercalate_append_of_ne_nil hfront (List.cons_ne_nil _ _),
      String.intercalate_singleton, canonicalTable_qualified]

theorem isPlainName_of_no_marks {name : String} (h : ∀ c ∈ name.toList, isNameMark c = false) :
    isPlainName name = true := by
  have hquote : ∀ found : Option Char, (∀ c ∈ found, c ∈ name.toList) →
      found.any isNameQuote = false := by
    intro found hfound
    cases found with
    | none => rfl
    | some c =>
        have hmark := h c (hfound c rfl)
        rw [isNameMark, Bool.or_eq_false_iff] at hmark
        exact hmark.2
  have hdot : '.' ∉ name.toList := fun hmem => absurd (h '.' hmem) (by decide)
  rw [isPlainName, hquote _ fun _ => List.mem_of_head?, hquote _ fun _ => List.mem_of_getLast?]
  simp [hdot]

/-- No dot and no quote stands in a name that needs no quotes. -/
theorem isPlainName_of_continuesIdentifier {name : String}
    (h : name.toList.all continuesIdentifier = true) : isPlainName name = true := by
  refine isPlainName_of_no_marks fun c hc => Bool.eq_false_iff.2 fun hmark => ?_
  have hends := of_basic (fun c => !continuesIdentifier c) (toNat_lt_of_isNameMark hmark) hmark
    (by decide)
  rw [List.all_eq_true.1 h c hc] at hends
  cases hends

/-- The parts of a reference are joined by dots, and the reference is compared by its last part in
lower case exactly if this part is plain. So two references with plain last parts are taken for one
table exactly if these parts are the same in lower case. A name that needs no quotes is plain. -/
theorem canonical_name_is_last_part_iff (front : List String) (last : String) :
    (canonicalTable (".".intercalate (front ++ [last])) = lowercase last ↔
        isPlainName last = true) ∧
      (∀ others other, isPlainName last = true → isPlainName other = true →
        (canonicalTable (".".intercalate (front ++ [last]))
            = canonicalTable (".".intercalate (others ++ [other])) ↔
          lowercase last = lowercase other)) ∧
      (last.toList.all continuesIdentifier = true → isPlainName last = true) := by
  refine ⟨?_, ?_, isPlainName_of_continuesIdentifier⟩
  · rw [canonicalTable_intercalate]
    exact canonicalTable_eq_lowercase_iff last
  · intro others other hlast hother
    rw [canonicalTable_intercalate, canonicalTable_intercalate,
      canonicalTable_of_isPlainName hlast, canonicalTable_of_isPlainName hother]

/-- A name may need quotes and be plain: only at its ends are brackets taken for quotes. -/
theorem plain_names_are_kept_apart :
    (isPlainName "Old [EU] Users" = true ∧ isPlainName "users" = true) ∧
      canonicalTable "crm.Old [EU] Users" = "old [eu] users" ∧
      canonicalTable "crm.Old [EU] Users" ≠ canonicalTable "public.users" := by
  obtain ⟨hname, hsame, -⟩ := canonical_name_is_last_part_iff ["crm"] "Old [EU] Users"
  refine ⟨by decide +kernel, hname.2 (by decide +kernel), fun h => ?_⟩
  exact absurd ((hsame ["public"] "users" (by decide +kernel) (by decide +kernel)).1 h)
    (by decide +kernel)

/-- A name in quotes may hold a dot, and then only what follows the dot is compared. No table has
the name `audit.users` here, and both methods certify that only `users` is read. -/
theorem quoted_dot_passes_for_declared :
    canonicalTable "audit.users" ≠ lowercase "audit.users" ∧
      ∀ method, (Method.references method "SELECT id FROM \"audit.users\"" 64
          = .ok ⟨["audit.users"], []⟩) ∧
        (checkTableAccess ⟨method, 64⟩ ["users"] "o"
          { sql := "SELECT id FROM \"audit.users\"" }).isValid = true := by
  refine ⟨by decide +kernel, ?_⟩
  intro method
  cases method <;> decide +kernel

end RepoPolicy.Contract
