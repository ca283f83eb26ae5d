import Mathlib.Data.List.DropRight
import RepoPolicy.Proofs.Sql.PlainForm

set_option autoImplicit false

/-! # Reading line by line

No quote and no block comment is open where a text ends that leaves none open, and a line break ends
whatever else the reader was waiting for. What it has written then is behind it: reading on writes
the same as reading from the start (`step_onto`, `readFrom_onto`), down to the spaces, since a space
has just been written. So the normal form of two texts with a line break between them is that of the
one and that of the other with a space between them (`normalize_across_line_break`). -/

namespace RepoPolicy.Sql

open RepoPolicy.Text

/-! ## Reading behind what has been written -/

/-- The same reading behind a text that was written before it, the last character first. -/
def Reading.onto (reading : Reading) (base : List Char) : Reading :=
  ⟨reading.mode, reading.written ++ base⟩

section Onto

variable {base : List Char}

/-- Behind a space, spaces are written as at the start. -/
theorem pushSpace_append (hbase : isSpaced base = true) (written : List Char) :
    pushSpace (written ++ base) = pushSpace written ++ base := by
  cases written with
  | nil => exact pushSpace_of_isSpaced hbase
  | cons c written =>
      by_cases hc : (c == ' ') = true
      · rw [List.cons_append, pushSpace, if_pos hc, pushSpace, if_pos hc, List.cons_append]
      · rw [List.cons_append, pushSpace, if_neg hc, pushSpace, if_neg hc, List.cons_append,
          List.cons_append]

theorem stepCode_onto (hbase : isSpaced base = true) (preceding : Preceding) (written : List Char)
    (c : Char) :
    stepCode preceding (written ++ base) c = (stepCode preceding written c).onto base := by
  simp only [stepCode, pushSpace_append hbase]
  repeat' split
  all_goals rfl

/-- **Behind a space, a step is what it is at the start.** -/
theorem step_onto (hbase : isSpaced base = true) (reading : Reading) (c : Char) :
    step (reading.onto base) c = (step reading c).onto base := by
  obtain ⟨mode, written⟩ := reading
  cases mode with
  | code preceding => exact stepCode_onto hbase preceding written c
  -- these modes may read the character as code, behind what they have kept back
  | dash =>
      have hcode := stepCode_onto hbase .edge ('-' :: written) c
      rw [List.cons_append] at hcode
      simp only [step, Reading.onto, hcode]
      split <;> rfl
  | slash =>
      have hcode := stepCode_onto hbase .edge ('/' :: written) c
      rw [List.cons_append] at hcode
      simp only [step, Reading.onto, hcode]
      split <;> rfl
  | dollar tag =>
      have hcode := stepCode_onto hbase .word (tag ++ '$' :: written) c
      rw [List.append_assoc, List.cons_append] at hcode
      simp only [step, Reading.onto, hcode]
      repeat' split
      all_goals rfl
  | literalQuote escapes =>
      have hcode := stepCode_onto hbase .edge ('\'' :: written) c
      rw [List.cons_append] at hcode
      simp only [step, Reading.onto, hcode]
      split <;> rfl
  | lineComment =>
      simp only [step, Reading.onto, pushSpace_append hbase]
      split <;> rfl
  | blockComment star =>
      simp only [step, Reading.onto, pushSpace_append hbase]
      split <;> rfl
  | literal escapes =>
      simp only [step, Reading.onto]
      repeat' split
      all_goals rfl
  | escaped => rfl
  | quotedName => rfl
  | dollarQuoted closing contents =>
      simp only [step, Reading.onto]
      split <;> rfl

theorem readFrom_onto (hbase : isSpaced base = true) (reading : Reading) (text : List Char) :
    readFrom (reading.onto base) text = (readFrom reading text).onto base := by
  induction text generalizing reading with
  | nil => rfl
  | cons c rest ih => rw [readFrom_cons, step_onto hbase, ih, readFrom_cons]

theorem finish_onto (reading : Reading) : (reading.onto base).finish = reading.finish ++ base := by
  obtain ⟨mode, written⟩ := reading
  cases mode with
  | dollar tag => simp [Reading.onto, Reading.finish]
  | _ => rfl

end Onto

/-! ## Line breaks -/

/-- A line break ends what the reader was waiting for, unless a quote or a block comment is open. -/
theorem step_newline {reading : Reading} (h : reading.mode.openQuote = none) :
    step reading '\n' = ⟨.code .edge, pushSpace reading.finish⟩ := by
  obtain ⟨mode, written⟩ := reading
  cases mode with
  | code preceding => rfl
  | dash => rfl
  | slash => rfl
  | dollar tag =>
      have hends : continuesTag tag '\n' = false := by simp [continuesTag]
      simp only [step, hends]
      rfl
  | lineComment => rfl
  | literalQuote escapes => rfl
  | blockComment star => cases h
  | literal escapes => cases h
  | escaped => cases h
  | quotedName => cases h
  | dollarQuoted closing contents => cases h

theorem scan_across_line_break {a : List Char} (h : (scan a).mode.openQuote = none)
    (b : List Char) : scan (a ++ '\n' :: b) = (scan b).onto (pushSpace (scan a).finish) := by
  rw [scan_append, readFrom_cons, step_newline h]
  exact readFrom_onto (isSpaced_pushSpace _) .start b

/-! ## Normal forms -/

/-- What has been written ends in one space at most, and a space more changes nothing then. -/
theorem Between.pushSpace_dropBlanks {written : List Char} (h : Between written) :
    Sql.pushSpace (written.dropWhile isBlank) = Sql.pushSpace written := by
  cases written with
  | nil => rfl
  | cons c written =>
      by_cases hc : isBlank c = true
      · -- a blank is written behind something, and never behind another blank
        obtain ⟨hwritten, hfits⟩ := h.of_blank hc
        obtain ⟨rfl, hsome, hhead⟩ := hfits.blank hc
        obtain ⟨d, more, rfl⟩ := List.exists_cons_of_ne_nil hsome
        have hspace : d ≠ ' ' := by simpa using hhead
        have hd : isBlank d = false := Bool.eq_false_iff.2 fun hd =>
          hspace ((hwritten.of_blank hd).2.blank hd).1
        rw [List.dropWhile_cons_of_pos hc, List.dropWhile_cons_of_neg (by simp [hd])]
        simp [Sql.pushSpace, hspace]
      · rw [List.dropWhile_cons_of_neg hc]

theorem pushSpace_reverse_normalForm {text : List Char} (h : normalForm text ≠ []) :
    pushSpace (normalForm text).reverse = ' ' :: (normalForm text).reverse := by
  refine pushSpace_of_not_isSpaced (Bool.eq_false_iff.2 fun hspaced => ?_)
  cases hlast : (normalForm text).getLast? with
  | none => exact h (List.getLast?_eq_none_iff.1 hlast)
  | some c =>
      rw [isSpaced, List.head?_reverse, hlast] at hspaced
      obtain rfl : c = ' ' := by simpa using hspaced
      exact absurd (not_isBlank_last hlast) (by decide)

/-- Only the blanks at the end of the last text are dropped, and those in front of it if it has
nothing else. -/
theorem reverse_normalForm_across {a : List Char} (h : (scan a).mode.openQuote = none)
    (b : List Char) :
    (normalForm (a ++ '\n' :: b)).reverse
      = if normalForm b = [] then (pushSpace (normalForm a).reverse).dropWhile isBlank
        else (normalForm b).reverse ++ pushSpace (normalForm a).reverse := by
  have hbetween := (sound_scan a).between_finish h
  rw [reverse_normalForm, scan_across_line_break h, finish_onto, ← hbetween.pushSpace_dropBlanks,
    ← reverse_normalForm, List.dropWhile_append, ← reverse_normalForm]
  simp only [List.isEmpty_iff, List.reverse_eq_nil_iff]

theorem normalForm_across_line_break {a : List Char} (h : (scan a).mode.openQuote = none)
    (b : List Char) :
    normalForm (a ++ '\n' :: b)
      = if normalForm a = [] then normalForm b
        else if normalForm b = [] then normalForm a
        else normalForm a ++ ' ' :: normalForm b := by
  have hacross := reverse_normalForm_across h b
  -- without anything before the line break its space is not written at all
  by_cases ha : normalForm a = []
  · rw [if_pos ha]
    by_cases hb : normalForm b = [] <;> simpa [ha, hb, pushSpace] using hacross
  rw [if_neg ha, ← List.reverse_inj, hacross, pushSpace_reverse_normalForm ha]
  by_cases hb : normalForm b = []
  · -- the space for the line break is last, and is dropped again
    have hidem : (normalForm a).reverse.dropWhile isBlank = (normalForm a).reverse := by
      rw [reverse_normalForm, List.dropWhile_idempotent]
    rw [if_pos hb, if_pos hb, List.dropWhile_cons_of_pos (by decide), hidem]
  · rw [if_neg hb, if_neg hb, List.reverse_append, List.reverse_cons, List.append_assoc,
      List.singleton_append]

/-- Two texts with a space between them, if both are there. -/
def joined (a b : String) : String := if a = "" then b else if b = "" then a else a ++ " " ++ b

/-- **Texts are read line by line**: behind a text that leaves no quote open and a line break,
another one leaves open what it leaves open by itself, and the normal forms of both are joined by a
space. -/
theorem normalize_across_line_break (a b : String) (hclosed : openQuote a = none) :
    openQuote (a ++ "\n" ++ b) = openQuote b ∧
      normalize (a ++ "\n" ++ b) = joined (normalize a) (normalize b) := by
  have hlist : (a ++ "\n" ++ b).toList = a.toList ++ '\n' :: b.toList := by
    rw [String.toList_append, String.toList_append, List.append_assoc]
    rfl
  constructor
  · rw [openQuote, hlist, scan_across_line_break hclosed b.toList]
    rfl
  · rw [normalize, hlist, normalForm_across_line_break hclosed, joined, normalize, normalize]
    simp only [String.ofList_eq_empty_iff]
    split
    · rfl
    split
    · rfl
    · apply String.toList_inj.1
      simp

/-- A dollar waits for the rest of its tag, and a quote for a second one. -/
theorem normalize_between_tag_and_dollar :
    openQuote "SELECT E'\\'', 1 -- '\n- $x" = none ∧
      openQuote "SELECT E'\\'', 1 -- '\n- $x\n$-- $x$\nFROM 't" = some .stringLiteral ∧
      normalize "SELECT E'\\'', 1 -- '\n- $x\n$-- $x$\nFROM 't" = "SELECT E'', 1 - $x $ FROM '" :=
  have h : openQuote "SELECT E'\\'', 1 -- '\n- $x" = none := by decide +kernel
  have hacross := normalize_across_line_break _ "$-- $x$\nFROM 't" h
  ⟨h, hacross.1.trans (by decide +kernel), hacross.2.trans (by decide +kernel)⟩

end RepoPolicy.Sql
