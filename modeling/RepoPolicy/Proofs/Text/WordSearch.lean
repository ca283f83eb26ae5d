import RepoPolicy.Proofs.Text.Occurrences

set_option autoImplicit false

/-! # Whole words in the parts of a text

A text may be cut where no word goes across (`Cut`). A whole word that occurs in the text then occurs
in one of the parts, at the corresponding place (`occurrences_wholeWord_append`). -/

namespace RepoPolicy.Text

/-! ## Letters are characters of words -/

theorem applyRuns_cases (runs : List CaseRun) (code : Nat) :
    applyRuns runs code = code ∨ ∃ run ∈ runs, run.covers code = true ∧
      applyRuns runs code = (Int.ofNat code + run.offset).toNat := by
  rw [applyRuns]
  cases hfind : runs.find? (·.covers code) with
  | none => exact .inl rfl
  | some run =>
      have hcovers := List.find?_some (p := fun run : CaseRun => run.covers code) hfind
      exact .inr ⟨run, List.mem_of_find?_eq_some hfind, hcovers, rfl⟩

set_option maxRecDepth 2000 in
/-- A run of characters is folded to characters that are not basic, or is a single character, and
one of which words are made. -/
theorem of_mem_foldRuns {run : CaseRun} (h : run ∈ foldRuns) :
    (128 : Int) ≤ Int.ofNat run.first + run.offset ∨
      run.first = run.last ∧ isWordChar (Char.ofNat run.first) = true := by
  have hall : foldRuns.all (fun run => decide ((128 : Int) ≤ Int.ofNat run.first + run.offset) ||
      (run.first == run.last && isWordChar (Char.ofNat run.first))) = true := by
    decide
  simpa using List.all_eq_true.1 hall run h

/-- A code point is basic if what only basic characters have is true of its character. -/
theorem code_lt_of_basic {p : Char → Bool} (hbasic : ∀ c, p c = true → c.toNat < 128)
    (hzero : p '\x00' = false) {code : Nat} (h : p (Char.ofNat code) = true) : code < 128 := by
  by_cases hvalid : code.isValidChar
  · have hchar : Char.ofNat code = Char.ofNatAux code hvalid := dif_pos hvalid
    have hcode : (Char.ofNatAux code hvalid).toNat = code := rfl
    have hsmall := hbasic _ h
    rwa [hchar, hcode] at hsmall
  · have hchar : Char.ofNat code = '\x00' := dif_neg hvalid
    rw [hchar, hzero] at h
    cases h

theorem toNat_lt_of_isLower {c : Char} (h : c.isLower = true) : c.toNat < 128 := by
  have hrange : (decide ('a'.val ≤ c.val) && decide (c.val ≤ 'z'.val)) = true := h
  rw [Bool.and_eq_true, decide_eq_true_eq, decide_eq_true_eq] at hrange
  exact Nat.lt_of_le_of_lt (UInt32.le_iff_toNat_le.1 hrange.2) (by decide)

/-- A character that folds to a letter of the basic alphabet is one of which words are made. -/
theorem isWordChar_of_isLower_fold {c : Char} (h : (fold c).isLower = true) :
    isWordChar c = true := by
  rw [fold] at h
  by_cases hbasic : c.toNat < 128
  · rw [if_pos hbasic] at h
    exact of_basic (p := fun c => c.toLower.isLower) isWordChar hbasic h (by decide)
  · rw [if_neg hbasic] at h
    have hsmall := code_lt_of_basic (fun _ => toNat_lt_of_isLower) (by decide) h
    rcases applyRuns_cases foldRuns c.toNat with hstays | ⟨run, hrun, hcovers, himage⟩
    · omega
    · simp only [CaseRun.covers, Bool.and_eq_true, decide_eq_true_eq] at hcovers
      rcases of_mem_foldRuns hrun with hlarge | ⟨hsingle, hword⟩
      · rw [himage] at hsmall
        simp only [Int.ofNat_eq_natCast] at hsmall hlarge
        omega
      · have hcode : c.toNat = run.first := by omega
        rwa [← hcode, Char.ofNat_toNat] at hword

namespace Scanner

theorem mem_wholeWord {word : String} {place stop : Place} :
    stop ∈ wholeWord word place ↔
      place.atWordEdge = true ∧ stop.atWordEdge = true ∧
        ∃ piece rest, piece.map fold = word.toList ∧ place.after = piece ++ rest ∧
          stop = ⟨piece.reverse ++ place.before, rest⟩ := by
  constructor
  · intro h
    obtain ⟨ended, hended, hstop⟩ := mem_andThen.1 h
    obtain ⟨hedge, rfl⟩ := mem_wordEdge.1 hstop
    obtain ⟨begun, hbegun, hletters⟩ := mem_andThen.1 hended
    obtain ⟨hedge', rfl⟩ := mem_wordEdge.1 hbegun
    obtain ⟨piece, hpiece, hafter, hbefore⟩ := exists_of_mem_letters hletters
    refine ⟨hedge', hedge, piece, stop.after, hpiece, hafter, ?_⟩
    rw [← hbefore]
  · rintro ⟨hstart, hend, piece, rest, hpiece, hafter, rfl⟩
    refine mem_andThen.2 ⟨_, ?_, mem_wordEdge.2 ⟨hend, rfl⟩⟩
    refine mem_andThen.2 ⟨place, mem_wordEdge.2 ⟨hstart, rfl⟩, ?_⟩
    obtain ⟨before, after⟩ := place
    obtain rfl : after = piece ++ rest := hafter
    rw [letters_of_map_fold hpiece before rest]
    exact List.mem_singleton_self _

theorem head?_wholeWord {word : String} {place stop : Place} :
    (wholeWord word place).head? = some stop ↔ stop ∈ wholeWord word place := by
  refine ⟨fun h => List.mem_of_mem_head? h, fun h => ?_⟩
  cases hends : wholeWord word place with
  | nil =>
      rw [hends] at h
      cases h
  | cons other others =>
      -- two pieces that begin at one place are equally long
      have hother : other ∈ wholeWord word place := by simp [hends]
      obtain ⟨-, -, piece, rest, hpiece, hafter, rfl⟩ := mem_wholeWord.1 h
      obtain ⟨-, -, piece', rest', hpiece', hafter', rfl⟩ := mem_wholeWord.1 hother
      have hlength : piece'.length = piece.length := by
        have := congrArg List.length (hpiece'.trans hpiece.symm)
        simpa using this
      obtain ⟨rfl, rfl⟩ := List.append_inj (hafter'.symm.trans hafter) hlength
      rfl

/-- The words that are looked for consist of letters, and are not empty. -/
def IsLetters (word : String) : Prop :=
  word.toList ≠ [] ∧ word.toList.all Char.isLower = true

theorem isWordChar_of_piece {word : String} (hword : IsLetters word) {piece : List Char}
    (hpiece : piece.map fold = word.toList) : ∀ c ∈ piece, isWordChar c = true := by
  intro c hc
  refine isWordChar_of_isLower_fold (List.all_eq_true.1 hword.2 _ ?_)
  rw [← hpiece]
  exact List.mem_map_of_mem hc

end Scanner

/-! ## Cutting a text -/

def Place.extend (more : List Char) (place : Place) : Place := ⟨place.before, place.after ++ more⟩

/-- The place with more text before it, the nearest character first. -/
def Place.behind (lead : List Char) (place : Place) : Place := ⟨place.before ++ lead, place.after⟩

/-- An occurrence in the first part of a longer text. -/
def Occurrence.extend (more : List Char) (found : Occurrence) : Occurrence :=
  ⟨found.start.extend more, found.stop.extend more⟩

/-- An occurrence in the second part of a longer text. -/
def Occurrence.behind (lead : List Char) (found : Occurrence) : Occurrence :=
  ⟨found.start.behind lead, found.stop.behind lead⟩

def Cut (left right : List Char) : Prop :=
  left.getLast?.any isWordChar = true → right.head?.any isWordChar = false

section Append

variable {scan : Scanner}

/-- The occurrences in a text are those in its two parts, if the pieces of the first part are not
affected by the second one. -/
theorem occurrencesFrom_append {first second : List Char} {before : List Char} {skip : Nat}
    (hskip : skip ≤ first.length)
    (hends : ∀ before, scan ⟨before, []⟩ = [])
    (hshorter : ∀ place stop, stop ∈ scan place → stop.after.length ≤ place.after.length)
    (hscan : ∀ passed c rest, first = passed ++ c :: rest →
      (scan ⟨passed.reverse ++ before, c :: rest ++ second⟩).head?
        = (scan ⟨passed.reverse ++ before, c :: rest⟩).head?.map (Place.extend second)) :
    occurrencesFrom scan before (first ++ second) skip
      = (occurrencesFrom scan before first skip).map (Occurrence.extend second)
        ++ occurrencesFrom scan (first.reverse ++ before) second 0 := by
  induction first generalizing before skip with
  | nil =>
      obtain rfl : skip = 0 := Nat.le_zero.1 hskip
      have hnil : occurrencesFrom scan before [] 0 = [] := by
        rw [occurrencesFrom, if_pos rfl, hends]
        rfl
      rw [hnil]
      rfl
  | cons c first ih =>
      have hnext : ∀ skip, skip ≤ first.length →
          occurrencesFrom scan (c :: before) (first ++ second) skip
            = (occurrencesFrom scan (c :: before) first skip).map (Occurrence.extend second)
              ++ occurrencesFrom scan ((c :: first).reverse ++ before) second 0 := by
        intro skip hskip
        rw [ih hskip, List.reverse_cons, List.append_assoc, List.singleton_append]
        intro passed d rest hfirst
        have hlater := hscan (c :: passed) d rest (by rw [hfirst]; rfl)
        rwa [List.reverse_cons, List.append_assoc, List.singleton_append] at hlater
      cases skip with
      | succ skip =>
          rw [List.cons_append, occurrencesFrom, occurrencesFrom]
          exact hnext skip (by simpa using hskip)
      | zero =>
          have hhere := hscan [] c first rfl
          rw [List.reverse_nil, List.nil_append] at hhere
          rw [List.cons_append, occurrencesFrom, occurrencesFrom, ← List.cons_append, hhere]
          cases hstop : (scan ⟨before, c :: first⟩).head? with
          | none => exact hnext 0 (Nat.zero_le _)
          | some stop =>
              have hlength := hshorter _ _ (List.mem_of_mem_head? hstop)
              -- the piece is no longer in the whole text, so as much of it is skipped
              have hsame : (first ++ second).length - (stop.extend second).after.length
                  = first.length - stop.after.length := by
                simp only [Place.extend, List.length_append]
                omega
              simp only [Option.map_some, hsame, List.map_cons, List.cons_append]
              rw [hnext _ (Nat.sub_le _ _)]
              rfl

/-- The occurrences behind a text are those of the rest by itself, if its pieces are not affected by
what is before them. -/
theorem occurrencesFrom_behind {text lead : List Char} {before : List Char} {skip : Nat}
    (hscan : ∀ passed rest, text = passed ++ rest →
      (scan ⟨passed.reverse ++ (before ++ lead), rest⟩).head?
        = (scan ⟨passed.reverse ++ before, rest⟩).head?.map (Place.behind lead)) :
    occurrencesFrom scan (before ++ lead) text skip
      = (occurrencesFrom scan before text skip).map (Occurrence.behind lead) := by
  induction text generalizing before skip with
  | nil =>
      have hhere := hscan [] [] rfl
      rw [List.reverse_nil, List.nil_append, List.nil_append] at hhere
      rw [occurrencesFrom, occurrencesFrom, hhere]
      split
      · cases (scan ⟨before, []⟩).head? <;> rfl
      · rfl
  | cons c text ih =>
      have hnext : ∀ skip, occurrencesFrom scan (c :: (before ++ lead)) text skip
          = (occurrencesFrom scan (c :: before) text skip).map (Occurrence.behind lead) := by
        intro skip
        rw [← List.cons_append]
        refine ih fun passed rest htext => ?_
        have hlater := hscan (c :: passed) rest (by rw [htext]; rfl)
        simpa using hlater
      cases skip with
      | succ skip =>
          rw [occurrencesFrom, occurrencesFrom]
          exact hnext skip
      | zero =>
          have hhere := hscan [] (c :: text) rfl
          rw [List.reverse_nil, List.nil_append, List.nil_append] at hhere
          rw [occurrencesFrom, occurrencesFrom, hhere]
          cases (scan ⟨before, c :: text⟩).head? with
          | none => exact hnext 0
          | some stop =>
              simp only [Option.map_some, List.map_cons]
              rw [hnext]
              rfl

end Append

section WholeWord

open Scanner

variable {word : String}

/-- Ends of a word that correspond to each other. -/
theorem head?_wholeWord_map {place place' : Place} {f : Place → Place}
    (hto : ∀ stop ∈ wholeWord word place, f stop ∈ wholeWord word place')
    (hfrom : ∀ stop' ∈ wholeWord word place', ∃ stop ∈ wholeWord word place, stop' = f stop) :
    (wholeWord word place').head? = (wholeWord word place).head?.map f := by
  cases hhead : (wholeWord word place).head? with
  | some stop => exact head?_wholeWord.2 (hto stop (head?_wholeWord.1 hhead))
  | none =>
      cases hhead' : (wholeWord word place').head? with
      | none => rfl
      | some stop' =>
          obtain ⟨stop, hstop, -⟩ := hfrom stop' (head?_wholeWord.1 hhead')
          rw [head?_wholeWord.2 hstop] at hhead
          cases hhead

theorem piece_ne_nil (hword : IsLetters word) {piece : List Char}
    (hpiece : piece.map fold = word.toList) : piece ≠ [] := by
  rintro rfl
  exact hword.1 hpiece.symm

theorem head?_reverse_append (hword : IsLetters word) {piece : List Char}
    (hpiece : piece.map fold = word.toList) (before : List Char) :
    (piece.reverse ++ before).head?.any isWordChar = true := by
  obtain ⟨others, last, rfl⟩ : ∃ others last, piece = others ++ [last] :=
    ⟨_, _, (List.dropLast_concat_getLast (piece_ne_nil hword hpiece)).symm⟩
  have hlast := isWordChar_of_piece hword hpiece last (by simp)
  simp [hlast]

theorem getLast?_append_piece (hword : IsLetters word) {piece : List Char}
    (hpiece : piece.map fold = word.toList) (front : List Char) :
    (front ++ piece).getLast?.any isWordChar = true := by
  have hhead := head?_reverse_append hword hpiece front.reverse
  rwa [← List.reverse_append, List.head?_reverse] at hhead

theorem atWordEdge_append {before after : List Char} (hne : after ≠ []) (more : List Char) :
    (Place.mk before (after ++ more)).atWordEdge = (Place.mk before after).atWordEdge := by
  obtain ⟨c, rest, rfl⟩ := List.exists_cons_of_ne_nil hne
  rfl

/-- Behind a word, a cut is as good as the end of the text. -/
theorem atWordEdge_piece (hword : IsLetters word) {piece rest before more : List Char}
    (hpiece : piece.map fold = word.toList) (hcut : Cut (piece ++ rest) more) :
    (Place.mk (piece.reverse ++ before) (rest ++ more)).atWordEdge
      = (Place.mk (piece.reverse ++ before) rest).atWordEdge := by
  cases rest with
  | cons c rest => rfl
  | nil =>
      have hmore : more.head?.any isWordChar = false := by
        rw [List.append_nil] at hcut
        exact hcut (getLast?_append_piece hword hpiece [])
      simp [Place.atWordEdge, hmore]

/-- A word that begins before a cut ends before it. -/
theorem head?_wholeWord_extend (hword : IsLetters word) {before after more : List Char}
    (hne : after ≠ []) (hcut : Cut after more) :
    (wholeWord word ⟨before, after ++ more⟩).head?
      = (wholeWord word ⟨before, after⟩).head?.map (Place.extend more) := by
  refine head?_wholeWord_map (fun stop hstop => ?_) (fun stop' hstop' => ?_)
  · obtain ⟨hstart, hend, piece, rest, hpiece, rfl, rfl⟩ := mem_wholeWord.1 hstop
    refine mem_wholeWord.2 ⟨(atWordEdge_append hne more).trans hstart, ?_, piece, rest ++ more, hpiece,
      List.append_assoc _ _ _, rfl⟩
    exact (atWordEdge_piece hword hpiece hcut).trans hend
  · obtain ⟨hstart, hend, piece, rest', hpiece, hafter, rfl⟩ := mem_wholeWord.1 hstop'
    obtain ⟨rest, rfl, rfl⟩ : ∃ rest, after = piece ++ rest ∧ rest' = rest ++ more := by
      rcases List.append_eq_append_iff.1 hafter with ⟨beyond, rfl, rfl⟩ | ⟨rest, rfl, rfl⟩
      · cases beyond with
        | nil => exact ⟨[], by simp, rfl⟩
        | cons d beyond =>
            -- both sides of the cut would belong to the word
            have hchars := isWordChar_of_piece hword hpiece
            obtain ⟨others, last, rfl⟩ : ∃ others last, after = others ++ [last] :=
              ⟨_, _, (List.dropLast_concat_getLast hne).symm⟩
            have hright := hcut (by simpa using hchars last (by simp))
            have hleft := hchars d (by simp)
            simp [hleft] at hright
      · exact ⟨rest, rfl, rfl⟩
    refine ⟨⟨piece.reverse ++ before, rest⟩, mem_wholeWord.2 ⟨?_, ?_, piece, rest, hpiece, rfl, rfl⟩,
      rfl⟩
    · exact (atWordEdge_append hne more).symm.trans hstart
    · exact (atWordEdge_piece hword hpiece hcut).symm.trans hend

/-- A cut before a word is as good as the start of the text. -/
theorem atWordEdge_behind (hword : IsLetters word) {passed piece rest lead : List Char}
    (hpiece : piece.map fold = word.toList) (hcut : Cut lead.reverse (passed ++ (piece ++ rest))) :
    (Place.mk (passed.reverse ++ lead) (piece ++ rest)).atWordEdge
      = (Place.mk passed.reverse (piece ++ rest)).atWordEdge := by
  rcases List.eq_nil_or_concat passed with rfl | ⟨others, last, rfl⟩
  · obtain ⟨c, others, rfl⟩ := List.exists_cons_of_ne_nil (piece_ne_nil hword hpiece)
    have hc := isWordChar_of_piece hword hpiece c List.mem_cons_self
    have hlead : lead.head?.any isWordChar = false := by
      rw [Bool.eq_false_iff]
      intro hlead
      have hright := hcut (by rwa [List.getLast?_reverse])
      simp [hc] at hright
    simp [Place.atWordEdge, hlead]
  · simp [Place.atWordEdge]

theorem head?_wholeWord_behind (hword : IsLetters word) {passed rest lead : List Char}
    (hcut : Cut lead.reverse (passed ++ rest)) :
    (wholeWord word ⟨passed.reverse ++ lead, rest⟩).head?
      = (wholeWord word ⟨passed.reverse, rest⟩).head?.map (Place.behind lead) := by
  have hedge : ∀ {piece : List Char} (before : List Char) (left : List Char),
      piece.map fold = word.toList →
      (Place.mk (piece.reverse ++ (before ++ lead)) left).atWordEdge
        = (Place.mk (piece.reverse ++ before) left).atWordEdge := by
    intro piece before left hpiece
    simp only [Place.atWordEdge, head?_reverse_append hword hpiece]
  refine head?_wholeWord_map (fun stop hstop => ?_) (fun stop' hstop' => ?_)
  · obtain ⟨hstart, hend, piece, left, hpiece, rfl, rfl⟩ := mem_wholeWord.1 hstop
    refine mem_wholeWord.2 ⟨(atWordEdge_behind hword hpiece hcut).trans hstart, ?_, piece, left, hpiece,
      rfl, ?_⟩
    · have hsame := hedge passed.reverse left hpiece
      simp only [Place.behind, List.append_assoc]
      exact hsame.trans hend
    · simp only [Place.behind, List.append_assoc]
  · obtain ⟨hstart, hend, piece, left, hpiece, rfl, rfl⟩ := mem_wholeWord.1 hstop'
    refine ⟨⟨piece.reverse ++ passed.reverse, left⟩,
      mem_wholeWord.2 ⟨?_, ?_, piece, left, hpiece, rfl, rfl⟩, ?_⟩
    · exact (atWordEdge_behind hword hpiece hcut).symm.trans hstart
    · exact (hedge passed.reverse left hpiece).symm.trans hend
    · simp only [Place.behind, List.append_assoc]

/-- **The whole words of a text are those of its parts**, if it is cut where no word goes across. -/
theorem occurrences_wholeWord_append (hword : IsLetters word) {first second : List Char}
    (hcut : Cut first second) :
    occurrences (wholeWord word) (first ++ second)
      = (occurrences (wholeWord word) first).map (Occurrence.extend second)
        ++ (occurrences (wholeWord word) second).map (Occurrence.behind first.reverse) := by
  have hends : ∀ before, wholeWord word ⟨before, []⟩ = [] := by
    intro before
    refine List.eq_nil_iff_forall_not_mem.2 fun stop hstop => ?_
    obtain ⟨-, -, piece, rest, hpiece, hnil, -⟩ := mem_wholeWord.1 hstop
    exact piece_ne_nil hword hpiece (List.append_eq_nil_iff.1 hnil.symm).1
  have hshorter : ∀ place stop, stop ∈ wholeWord word place →
      stop.after.length ≤ place.after.length := by
    intro place stop hstop
    obtain ⟨-, -, piece, rest, -, hafter, rfl⟩ := mem_wholeWord.1 hstop
    rw [hafter, List.length_append]
    exact Nat.le_add_left _ _
  -- a word in the first part ends there, because it is cut where no word goes on
  have hscan : ∀ passed c rest, first = passed ++ c :: rest →
      (wholeWord word ⟨passed.reverse ++ [], c :: rest ++ second⟩).head?
        = (wholeWord word ⟨passed.reverse ++ [], c :: rest⟩).head?.map (Place.extend second) := by
    intro passed c rest hfirst
    refine head?_wholeWord_extend hword (List.cons_ne_nil _ _) ?_
    rw [Cut, hfirst, List.getLast?_append, List.getLast?_cons, Option.some_or] at hcut
    rwa [Cut, List.getLast?_cons]
  rw [occurrences, occurrencesFrom_append (Nat.zero_le _) hends hshorter hscan, List.append_nil]
  have hbehind : occurrencesFrom (wholeWord word) ([] ++ first.reverse) second 0
      = (occurrencesFrom (wholeWord word) [] second 0).map (Occurrence.behind first.reverse) := by
    refine occurrencesFrom_behind fun passed rest hsecond => ?_
    rw [List.nil_append, List.append_nil]
    refine head?_wholeWord_behind hword ?_
    rwa [List.reverse_reverse, ← hsecond]
  exact congrArg _ hbehind

end WholeWord

end RepoPolicy.Text
