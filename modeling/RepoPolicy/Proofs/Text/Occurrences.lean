import RepoPolicy.Text.Scan

set_option autoImplicit false

/-! # What scanners read and where it occurs

Each way to put scanners together is described by the texts that it reads: a scanner reads a piece
at a place when the text goes on with the piece and the end of the piece is one of its ends. A piece
occurs in a text as soon as it begins somewhere (`occursIn_iff`). If no piece begins inside another
one, as with keywords, the occurrences are all places where one begins (`mem_occurrences_iff`). -/

namespace RepoPolicy.Text

/-! ## Blanks and letters -/

/-- The code points of the blanks. -/
def blankCodes : List Nat :=
  [9, 10, 11, 12, 13, 0x20, 0x85, 0xA0, 0x1680, 0x2000, 0x2001, 0x2002, 0x2003, 0x2004, 0x2005,
    0x2006, 0x2007, 0x2008, 0x2009, 0x200A, 0x2028, 0x2029, 0x202F, 0x205F, 0x3000]

theorem mem_blankCodes {c : Char} (h : isBlank c = true) : c.toNat ∈ blankCodes := by
  simp only [isBlank, Bool.or_eq_true, Bool.and_eq_true, decide_eq_true_eq, beq_iff_eq] at h
  simp only [blankCodes, List.mem_cons, List.not_mem_nil, or_false]
  omega

/-- Blanks have no case. -/
theorem fold_of_isBlank {c : Char} (h : isBlank c = true) : fold c = c := by
  have hall : ∀ code ∈ blankCodes, fold (Char.ofNat code) = Char.ofNat code := by
    decide +kernel
  have hfold := hall c.toNat (mem_blankCodes h)
  rwa [Char.ofNat_toNat] at hfold

theorem toNat_lt_of_isAlphanum {c : Char} (h : c.isAlphanum = true) : c.toNat < 128 := by
  have hranges : c.isAlphanum = (((decide ('A'.val ≤ c.val ∧ c.val ≤ 'Z'.val)) ||
      (decide ('a'.val ≤ c.val) && decide (c.val ≤ 'z'.val))) ||
      (decide ('0'.val ≤ c.val) && decide (c.val ≤ '9'.val))) := rfl
  simp only [hranges, Bool.or_eq_true, Bool.and_eq_true, decide_eq_true_eq] at h
  have hle : ∀ bound : UInt32, bound.toNat < 128 → c.val ≤ bound → c.toNat < 128 :=
    fun bound hbound hc => Nat.lt_of_le_of_lt (UInt32.le_iff_toNat_le.1 hc) hbound
  rcases h with (h | h) | h
  · exact hle _ (by decide) h.2
  · exact hle _ (by decide) h.2
  · exact hle _ (by decide) h.2

/-- What is checked of the basic characters one by one holds of a basic character. -/
theorem of_basic (holds : Char → Bool) {c : Char} {p : Char → Bool} (hc : c.toNat < 128)
    (h : p c = true)
    (hall : (List.range 128).all (fun n => !p (Char.ofNat n) || holds (Char.ofNat n)) = true) :
    holds c = true := by
  have hn := List.all_eq_true.1 hall c.toNat (List.mem_range.2 hc)
  rw [Char.ofNat_toNat, h] at hn
  simpa using hn

theorem fold_ne_of_isBlank {c letter : Char} (hc : isBlank c = true)
    (hletter : isBlank letter = false) : fold c ≠ letter := by
  rw [fold_of_isBlank hc]
  rintro rfl
  rw [hc] at hletter
  exact absurd hletter (by decide)

namespace Scanner

/-! ## Pieces that scanners read -/

theorem mem_char {accept : Char → Bool} {place stop : Place} :
    stop ∈ char accept place ↔
      ∃ c rest, place.after = c :: rest ∧ accept c = true ∧ stop = ⟨c :: place.before, rest⟩ := by
  rw [char]
  cases hafter : place.after with
  | nil => simp
  | cons c rest =>
      constructor
      · intro h
        by_cases hc : accept c = true
        · simp only [hc, if_true, List.mem_singleton] at h
          exact ⟨c, rest, rfl, hc, h⟩
        · simp [hc] at h
      · rintro ⟨c', rest', heq, hc, rfl⟩
        obtain ⟨rfl, rfl⟩ := List.cons.inj heq
        simp [hc]

theorem mem_exactly {c : Char} {place stop : Place} :
    stop ∈ exactly c place ↔ ∃ rest, place.after = c :: rest ∧ stop = ⟨c :: place.before, rest⟩ := by
  rw [exactly, mem_char]
  constructor
  · rintro ⟨c', rest, hafter, hc, rfl⟩
    obtain rfl := beq_iff_eq.1 hc
    exact ⟨rest, hafter, rfl⟩
  · rintro ⟨rest, hafter, rfl⟩
    exact ⟨c, rest, hafter, beq_self_eq_true c, rfl⟩

theorem mem_andThen {first second : Scanner} {place stop : Place} :
    stop ∈ andThen first second place ↔ ∃ middle ∈ first place, stop ∈ second middle :=
  List.mem_flatMap

theorem mem_sequence_nil {place stop : Place} : stop ∈ sequence [] place ↔ stop = place :=
  List.mem_singleton

theorem mem_sequence_cons {part : Scanner} {parts : List Scanner} {place stop : Place} :
    stop ∈ sequence (part :: parts) place ↔ ∃ middle ∈ part place, stop ∈ sequence parts middle :=
  List.mem_flatMap

theorem mem_wordEdge {place stop : Place} :
    stop ∈ wordEdge place ↔ place.atWordEdge = true ∧ stop = place := by
  rw [wordEdge]
  by_cases h : place.atWordEdge = true <;> simp [h]

theorem mem_runFrom {accept : Char → Bool} {before after : List Char} {stop : Place} :
    stop ∈ runFrom accept before after ↔
      ∃ run rest, after = run ++ rest ∧ (∀ c ∈ run, accept c = true) ∧
        stop = ⟨run.reverse ++ before, rest⟩ := by
  induction after generalizing before with
  | nil =>
      rw [runFrom, List.mem_singleton]
      constructor
      · rintro rfl
        exact ⟨[], [], rfl, by simp, rfl⟩
      · rintro ⟨run, rest, hafter, -, rfl⟩
        obtain ⟨rfl, rfl⟩ := List.append_eq_nil_iff.1 hafter.symm
        rfl
  | cons c after ih =>
      rw [runFrom]
      constructor
      · intro h
        by_cases hc : accept c = true
        · rw [if_pos hc, List.mem_append, List.mem_singleton] at h
          rcases h with h | rfl
          · obtain ⟨run, rest, rfl, hrun, rfl⟩ := ih.1 h
            refine ⟨c :: run, rest, rfl, ?_, by simp⟩
            intro d hd
            rcases List.mem_cons.1 hd with rfl | hd
            · exact hc
            · exact hrun d hd
          · exact ⟨[], c :: after, rfl, by simp, rfl⟩
        · rw [if_neg hc, List.mem_singleton] at h
          exact ⟨[], c :: after, rfl, by simp, h⟩
      · rintro ⟨run, rest, hafter, hrun, rfl⟩
        cases run with
        | nil =>
            obtain rfl : c :: after = rest := hafter
            by_cases hc : accept c = true <;> simp [hc]
        | cons d run =>
            obtain ⟨rfl, rfl⟩ := List.cons.inj hafter
            rw [if_pos (hrun c List.mem_cons_self), List.mem_append]
            left
            rw [ih]
            exact ⟨run, rest, rfl, fun d hd => hrun d (List.mem_cons_of_mem _ hd), by simp⟩

theorem mem_many {accept : Char → Bool} {place stop : Place} :
    stop ∈ many accept place ↔
      ∃ run rest, place.after = run ++ rest ∧ (∀ c ∈ run, accept c = true) ∧
        stop = ⟨run.reverse ++ place.before, rest⟩ :=
  mem_runFrom

/-- The preferred end of a run is where no further character of the class follows. -/
theorem head?_many {accept : Char → Bool} {place : Place} :
    (many accept place).head? =
      some ⟨(place.after.takeWhile accept).reverse ++ place.before, place.after.dropWhile accept⟩ := by
  obtain ⟨before, after⟩ := place
  show (runFrom accept before after).head? = _
  induction after generalizing before with
  | nil => rfl
  | cons c rest ih =>
      rw [runFrom]
      by_cases hc : accept c = true
      · rw [if_pos hc, List.head?_append, ih]
        simp [hc]
      · rw [if_neg hc]
        simp [hc]

theorem exists_of_mem_blanks1 {place stop : Place} (h : stop ∈ blanks1 place) :
    ∃ c gap, isBlank c = true ∧ (∀ d ∈ gap, isBlank d = true) ∧
      place.after = c :: (gap ++ stop.after) := by
  rw [blanks1, many1, mem_andThen] at h
  obtain ⟨middle, hmiddle, hstop⟩ := h
  obtain ⟨c, rest, hafter, hc, rfl⟩ := mem_char.1 hmiddle
  obtain ⟨gap, rest', hrest, hgap, rfl⟩ := mem_many.1 hstop
  obtain rfl : rest = gap ++ rest' := hrest
  exact ⟨c, gap, hc, hgap, hafter⟩

/-- A word is read where the text goes on with letters that fold to it. -/
theorem letters_of_map_fold {word : String} {piece : List Char} (hpiece : piece.map fold = word.toList)
    (before rest : List Char) :
    letters word ⟨before, piece ++ rest⟩ = [⟨piece.reverse ++ before, rest⟩] := by
  rw [letters, ← hpiece, List.map_map]
  clear hpiece
  induction piece generalizing before with
  | nil => rfl
  | cons c piece ih =>
      have hchar : char (fun d => fold d == fold c) ⟨before, c :: (piece ++ rest)⟩
          = [⟨c :: before, piece ++ rest⟩] := by
        simp [char]
      rw [List.map_cons, sequence, List.foldr_cons, andThen, List.cons_append, Function.comp_apply,
        hchar, List.flatMap_singleton]
      simpa [sequence] using ih (c :: before)

theorem exists_of_mem_letters {word : String} {place stop : Place} (h : stop ∈ letters word place) :
    ∃ piece, piece.map fold = word.toList ∧ place.after = piece ++ stop.after ∧
      stop.before = piece.reverse ++ place.before := by
  rw [letters] at h
  -- the induction is on the letters that are still expected
  generalize word.toList = expected at h ⊢
  induction expected generalizing place with
  | nil =>
      obtain rfl := mem_sequence_nil.1 h
      exact ⟨[], rfl, rfl, rfl⟩
  | cons letter expected ih =>
      rw [List.map_cons, mem_sequence_cons] at h
      obtain ⟨middle, hmiddle, hstop⟩ := h
      obtain ⟨c, rest, hafter, hc, rfl⟩ := mem_char.1 hmiddle
      obtain ⟨piece, hpiece, hrest, hbefore⟩ := ih hstop
      refine ⟨c :: piece, ?_, ?_, ?_⟩
      · rw [List.map_cons, hpiece, beq_iff_eq.1 hc]
      · rw [hafter, List.cons_append]
        exact congrArg (List.cons c) hrest
      · rw [hbefore]
        simp

end Scanner

/-! ## Occurrences -/

theorem occurrencesFrom_eq_nil_iff {scan : Scanner} {before after : List Char} :
    occurrencesFrom scan before after 0 = [] ↔
      ∀ passed rest, after = passed ++ rest → scan ⟨passed.reverse ++ before, rest⟩ = [] := by
  induction after generalizing before with
  | nil =>
      rw [occurrencesFrom]
      cases hscan : scan ⟨before, []⟩ with
      | nil =>
          simp only [if_true, List.head?_nil, true_iff]
          intro passed rest hnil
          obtain ⟨rfl, rfl⟩ := List.append_eq_nil_iff.1 hnil.symm
          exact hscan
      | cons stop stops =>
          simp only [if_true, List.head?_cons, List.cons_ne_nil, false_iff]
          intro hall
          have := hall [] [] rfl
          simp [hscan] at this
  | cons c after ih =>
      rw [occurrencesFrom]
      cases hscan : scan ⟨before, c :: after⟩ with
      | nil =>
          simp only [List.head?_nil]
          rw [ih]
          constructor
          · intro hall passed rest heq
            cases passed with
            | nil =>
                obtain rfl : c :: after = rest := heq
                exact hscan
            | cons d passed =>
                rw [List.cons_append, List.cons.injEq] at heq
                obtain ⟨rfl, rfl⟩ := heq
                simpa using hall passed rest rfl
          · rintro hall passed rest rfl
            simpa using hall (c :: passed) rest rfl
      | cons stop stops =>
          simp only [List.head?_cons, List.cons_ne_nil, false_iff]
          intro hall
          have := hall [] (c :: after) rfl
          simp [hscan] at this

/-- A piece occurs in a text as soon as one begins somewhere in it. -/
theorem occursIn_iff {scan : Scanner} {text : List Char} :
    occursIn scan text = true ↔
      ∃ passed rest stop, text = passed ++ rest ∧ stop ∈ scan ⟨passed.reverse, rest⟩ := by
  rw [occursIn, Bool.not_eq_true', List.isEmpty_eq_false_iff, occurrences, ne_eq,
    occurrencesFrom_eq_nil_iff]
  constructor
  · intro hnot
    obtain ⟨passed, hpassed⟩ := Classical.not_forall.1 hnot
    obtain ⟨rest, hrest⟩ := Classical.not_forall.1 hpassed
    obtain ⟨rfl, hne⟩ := Classical.not_imp.1 hrest
    obtain ⟨stop, hstop⟩ := List.exists_mem_of_ne_nil _ hne
    exact ⟨passed, rest, stop, rfl, by simpa using hstop⟩
  · rintro ⟨passed, rest, stop, rfl, hstop⟩ hall
    have hnil := hall passed rest rfl
    rw [List.append_nil] at hnil
    rw [hnil] at hstop
    exact List.not_mem_nil hstop

/-- Pieces take some text, and none begins inside another one, whatever lies before it. -/
def Scanner.Apart (scan : Scanner) : Prop :=
  ∀ before after stop, (scan ⟨before, after⟩).head? = some stop →
    ∃ c piece, after = c :: (piece ++ stop.after) ∧
      ∀ inner, inner ≠ [] → inner <:+ piece → ∀ lead, scan ⟨lead, inner ++ stop.after⟩ = []

/-- A piece begins in a text behind its first `skip` characters, and ends at its preferred end.
`before` lies before the text. -/
def BeginsPast (scan : Scanner) (found : Occurrence) (before after : List Char) (skip : Nat) : Prop :=
  ∃ passed rest, after = passed ++ rest ∧ skip ≤ passed.length ∧
    found.start = ⟨passed.reverse ++ before, rest⟩ ∧ (scan found.start).head? = some found.stop

section BeginsPast

variable {scan : Scanner} {found : Occurrence}

theorem beginsPast_cons {before after : List Char} {c : Char} {skip : Nat} :
    BeginsPast scan found before (c :: after) (skip + 1) ↔
      BeginsPast scan found (c :: before) after skip := by
  constructor
  · rintro ⟨passed, rest, heq, hlen, hstart, hstop⟩
    cases passed with
    | nil => simp at hlen
    | cons d passed =>
        rw [List.cons_append, List.cons.injEq] at heq
        obtain ⟨rfl, rfl⟩ := heq
        exact ⟨passed, rest, rfl, by simpa using hlen, by simpa using hstart, hstop⟩
  · rintro ⟨passed, rest, rfl, hlen, hstart, hstop⟩
    exact ⟨c :: passed, rest, rfl, by simpa using hlen, by simpa using hstart, hstop⟩

/-- A piece begins at the front, or behind the first character. -/
theorem beginsPast_zero {before after : List Char} :
    BeginsPast scan found before after 0 ↔
      (found.start = ⟨before, after⟩ ∧ (scan found.start).head? = some found.stop) ∨
        BeginsPast scan found before after 1 := by
  constructor
  · rintro ⟨passed, rest, rfl, -, hstart, hstop⟩
    cases passed with
    | nil => exact Or.inl ⟨hstart, hstop⟩
    | cons c passed => exact Or.inr ⟨c :: passed, rest, rfl, by simp, hstart, hstop⟩
  · rintro (⟨hstart, hstop⟩ | ⟨passed, rest, heq, -, hfound⟩)
    · exact ⟨[], after, rfl, Nat.le_refl 0, hstart, hstop⟩
    · exact ⟨passed, rest, heq, Nat.zero_le _, hfound⟩

/-- An occurrence begins somewhere in the text and ends at its preferred end. -/
theorem beginsPast_of_mem {before after : List Char}
    {skip : Nat} (h : found ∈ occurrencesFrom scan before after skip) :
    BeginsPast scan found before after 0 := by
  induction after generalizing before skip with
  | nil =>
      rw [occurrencesFrom] at h
      split at h
      · cases hscan : (scan ⟨before, []⟩).head? with
        | none => simp [hscan] at h
        | some stop =>
            rw [hscan] at h
            obtain rfl := List.mem_singleton.1 h
            exact beginsPast_zero.2 (.inl ⟨rfl, hscan⟩)
      · cases h
  | cons c rest ih =>
      -- what is found behind the first character begins past it, whatever is skipped
      have hnext : ∀ skip, found ∈ occurrencesFrom scan (c :: before) rest skip →
          BeginsPast scan found before (c :: rest) 0 :=
        fun skip hmem => beginsPast_zero.2 (.inr (beginsPast_cons.2 (ih hmem)))
      cases skip with
      | succ skip =>
          rw [occurrencesFrom] at h
          exact hnext skip h
      | zero =>
          rw [occurrencesFrom] at h
          cases hscan : (scan ⟨before, c :: rest⟩).head? with
          | none =>
              rw [hscan] at h
              exact hnext 0 h
          | some stop =>
              rw [hscan] at h
              rcases List.mem_cons.1 h with rfl | h
              · exact beginsPast_zero.2 (.inl ⟨rfl, hscan⟩)
              · exact hnext _ h

theorem exists_of_mem_occurrences {text : List Char}
    (h : found ∈ occurrences scan text) :
    ∃ passed rest, text = passed ++ rest ∧ found.start = ⟨passed.reverse, rest⟩ ∧
      found.stop ∈ scan found.start := by
  obtain ⟨passed, rest, htext, -, hstart, hstop⟩ := beginsPast_of_mem h
  exact ⟨passed, rest, htext, by rw [hstart, List.append_nil], List.mem_of_mem_head? hstop⟩

/-- Behind the first character of a piece, the next one begins behind its end. -/
theorem Scanner.Apart.beginsPast (hapart : scan.Apart) {before after : List Char} {stop : Place}
    (h : (scan ⟨before, after⟩).head? = some stop) :
    BeginsPast scan found before after 1 ↔
      BeginsPast scan found before after (after.length - stop.after.length) := by
  obtain ⟨c, piece, rfl, hinner⟩ := hapart _ _ _ h
  have hlen : (c :: (piece ++ stop.after)).length - stop.after.length = piece.length + 1 := by
    rw [List.length_cons, List.length_append]
    omega
  rw [hlen, beginsPast_cons, beginsPast_cons]
  constructor
  · rintro ⟨passed, rest, heq, -, hstart, hstop⟩
    refine ⟨passed, rest, heq, ?_, hstart, hstop⟩
    refine Nat.le_of_not_lt fun hlt => ?_
    rcases List.append_eq_append_iff.1 heq with ⟨more, rfl, -⟩ | ⟨inner, rfl, rfl⟩
    · rw [List.length_append] at hlt
      omega
    · -- The place would lie inside the piece.
      have hne : inner ≠ [] := by
        rintro rfl
        simp at hlt
      rw [hstart, hinner inner hne (List.suffix_append _ _)] at hstop
      simp at hstop
  · rintro ⟨passed, rest, heq, -, hfound⟩
    exact ⟨passed, rest, heq, Nat.zero_le _, hfound⟩

/-- At the end of a text no piece begins. -/
theorem Scanner.Apart.head?_nil (hapart : scan.Apart) {before : List Char} :
    (scan ⟨before, []⟩).head? = none := by
  cases h : (scan ⟨before, []⟩).head? with
  | none => rfl
  | some stop =>
      obtain ⟨c, piece, hnil, -⟩ := hapart _ _ _ h
      exact absurd hnil.symm (List.cons_ne_nil _ _)

theorem Scanner.Apart.not_beginsPast_nil (hapart : scan.Apart) {before : List Char} {skip : Nat} :
    ¬BeginsPast scan found before [] skip := by
  rintro ⟨passed, rest, hnil, -, hstart, hstop⟩
  obtain ⟨rfl, rfl⟩ := List.append_eq_nil_iff.1 hnil.symm
  rw [hstart] at hstop
  simp [hapart.head?_nil] at hstop

theorem mem_occurrencesFrom_iff (hapart : scan.Apart) {before after : List Char} {skip : Nat} :
    found ∈ occurrencesFrom scan before after skip ↔ BeginsPast scan found before after skip := by
  -- `skip` counts what is left of the last piece; no piece begins there, so nothing is passed over.
  induction after generalizing before skip with
  | nil =>
      rw [occurrencesFrom, hapart.head?_nil, iff_false_right hapart.not_beginsPast_nil]
      simp
  | cons c after ih =>
      cases skip with
      | succ skip => rw [occurrencesFrom, ih, beginsPast_cons]
      | zero =>
          rw [occurrencesFrom, beginsPast_zero]
          cases hscan : (scan ⟨before, c :: after⟩).head? with
          | none =>
              simp only
              rw [ih, ← beginsPast_cons]
              constructor
              · exact Or.inr
              · rintro (⟨hstart, hstop⟩ | hbehind)
                · rw [hstart, hscan] at hstop
                  exact absurd hstop (by simp)
                · exact hbehind
          | some stop =>
              have hshorter : stop.after.length ≤ after.length := by
                obtain ⟨d, piece, heq, -⟩ := hapart _ _ _ hscan
                obtain ⟨-, rfl⟩ := List.cons.inj heq
                simp
              simp only
              rw [List.mem_cons, ih, hapart.beginsPast hscan, ← beginsPast_cons, List.length_cons,
                Nat.sub_add_comm hshorter]
              apply or_congr_left
              constructor
              · rintro rfl
                exact ⟨rfl, hscan⟩
              · rintro ⟨hstart, hstop⟩
                obtain ⟨start, stop'⟩ := found
                obtain rfl : start = _ := hstart
                obtain rfl := Option.some.inj (hscan.symm.trans hstop)
                rfl

/-- The occurrences of pieces that lie apart are all the places where one begins. -/
theorem mem_occurrences_iff (hapart : scan.Apart) {text : List Char} :
    found ∈ occurrences scan text ↔
      ∃ passed rest, text = passed ++ rest ∧ found.start = ⟨passed.reverse, rest⟩ ∧
        (scan found.start).head? = some found.stop := by
  rw [occurrences, mem_occurrencesFrom_iff hapart, BeginsPast]
  simp

end BeginsPast

end RepoPolicy.Text
