import RepoPolicy.Proofs.Sql.Symbols
import RepoPolicy.Proofs.Sql.TableNames
import RepoPolicy.Proofs.Text.WordSearch

set_option autoImplicit false

/-! # Reading symbols off a normal form

A word in the normal form of a text of symbols ends where its symbol does, since a space or a mark is
behind it (`readWord_pieces`). So names are read as they were written (`readName_pieces`), and a
keyword is found where it is a symbol and nowhere else (`namesTable_iff`). -/

namespace RepoPolicy.Sql

open RepoPolicy.Text RepoPolicy.Text.Scanner

/-! ## Symbols in a row -/

/-- The symbols may be written behind this one. -/
def Placed.Before (placed : Placed) (pieces : List Placed) : Prop :=
  ∀ next ∈ pieces.head?, placed.follows next = true

theorem Spells.exists_of_cons {symbol : Symbol} {symbols : List Symbol} {pieces : List Placed}
    (h : Spells (symbol :: symbols) pieces) :
    ∃ placed more, pieces = placed :: more ∧ placed.symbol = symbol ∧ Spells symbols more ∧
      placed.Before more := by
  obtain ⟨hsymbols, hfollows⟩ := h
  obtain ⟨placed, more, rfl, hsymbol, hmore⟩ := List.map_eq_cons_iff.1 hsymbols
  rw [List.isChain_cons] at hfollows
  exact ⟨placed, more, rfl, hsymbol, ⟨hmore, hfollows.2⟩, hfollows.1⟩

theorem Spells.exists_of_append_cons {first second : List Symbol} {symbol : Symbol}
    {pieces : List Placed} (h : Spells (first ++ symbol :: second) pieces) :
    ∃ front placed back, pieces = front ++ placed :: back ∧ placed.symbol = symbol ∧
      Spells second back ∧ placed.Before back := by
  obtain ⟨hsymbols, hfollows⟩ := h
  obtain ⟨front, others, rfl, -, hothers⟩ := List.map_eq_append_iff.1 hsymbols
  have hspells : Spells (symbol :: second) others := ⟨hothers, (List.isChain_append.1 hfollows).2.1⟩
  obtain ⟨placed, back, rfl, hback⟩ := hspells.exists_of_cons
  exact ⟨front, placed, back, rfl, hback⟩

/-- What is behind a symbol is written as it was. -/
theorem Spells.behind {symbols : List Symbol} {front back : List Placed} {placed : Placed}
    (h : Spells symbols (front ++ placed :: back)) :
    symbols = front.map Placed.symbol ++ placed.symbol :: back.map Placed.symbol ∧
      Spells (back.map Placed.symbol) back ∧ placed.Before back := by
  obtain ⟨hbefore, hback⟩ := List.isChain_cons.1 (List.isChain_append.1 h.follows).2.1
  exact ⟨by rw [← h.symbols_eq, List.map_append, List.map_cons], ⟨rfl, hback⟩, hbefore⟩

theorem gap_ne_nil_of_follows {first next : Placed} (h : first.follows next = true)
    (hfirst : first.symbol.isWord = true) (hnext : next.symbol.isWord = true) : next.gap ≠ [] := by
  have hdot : ∀ {symbol : Symbol}, symbol.isWord = true → symbol ≠ .dot := by
    rintro symbol hword rfl
    cases hword
  simpa [Placed.follows, hdot hfirst, hdot hnext, hfirst, hnext] using h

theorem gap_eq_nil_of_follows {first next : Placed} (h : first.follows next = true)
    (hdot : first.symbol = .dot ∨ next.symbol = .dot) : next.gap = [] := by
  rcases hdot with hdot | hdot <;> simpa [Placed.follows, hdot] using h

/-! ## Where words end -/

section Pieces

variable {placed : Placed} {pieces more : List Placed}

theorem normalText_cons (placed : Placed) (more : List Placed) :
    normalText (placed :: more) = placed.normal ++ normalText more := by
  rw [normalText, List.flatMap_cons]
  rfl

theorem trimStart_spelling (placed : Placed) (text : List Char) :
    trimStart (placed.spelling ++ text) = placed.spelling ++ text := by
  cases hspelling : placed.spelling with
  | nil => exact absurd hspelling placed.spelling_ne_nil
  | cons c rest =>
      have hc : isSymbolPart c = true :=
        Placed.isSymbolPart_of_mem (hspelling ▸ List.mem_cons_self)
      exact List.dropWhile_cons_of_neg (by simp [(of_isSymbolPart hc).1])

/-- Without the space before the first symbol. -/
theorem trimStart_normalText (placed : Placed) (more : List Placed) :
    trimStart (normalText (placed :: more)) = placed.spelling ++ normalText more := by
  rw [normalText_cons, Placed.normal, Placed.space]
  split
  · exact trimStart_spelling placed _
  · rw [List.singleton_append, List.cons_append, trimStart, List.dropWhile_cons_of_pos (by decide)]
    exact trimStart_spelling placed _

theorem afterBlanks_normalText (h : placed.gap ≠ []) :
    afterBlanks (normalText (placed :: more)) = some (trimStart (normalText (placed :: more))) := by
  rw [trimStart_normalText, normalText_cons, Placed.normal, Placed.space,
    if_neg (by simpa using h), List.singleton_append, List.cons_append]
  show some (trimStart (placed.spelling ++ normalText more)) = _
  rw [trimStart_spelling]

/-- What stands behind a word ends it. -/
theorem head?_behind_word (hword : placed.symbol.isWord = true) (h : placed.Before more) {c : Char}
    (hc : (normalText more).head? = some c) : c = ' ' ∨ c = '.' ∨ c = ',' ∨ c = '=' := by
  cases more with
  | nil => cases hc
  | cons next more =>
      rw [normalText_cons, Placed.normal, Placed.space] at hc
      by_cases hgap : next.gap.isEmpty = true
      · have hmark : next.symbol.isWord = false := Bool.eq_false_iff.2 fun hnext =>
          gap_ne_nil_of_follows (h next rfl) hword hnext (List.isEmpty_iff.1 hgap)
        obtain ⟨mark, hspelling, hmarks, -⟩ := Placed.of_not_isWord hmark
        rw [if_pos hgap, hspelling] at hc
        obtain rfl : mark = c := by simpa using hc
        exact .inr hmarks
      · rw [if_neg hgap] at hc
        exact .inl (by simpa using hc.symm)

theorem head?_normalText_ne_dot (h : (pieces.map Placed.symbol).head? ≠ some .dot) :
    (normalText pieces).head? ≠ some '.' := by
  cases pieces with
  | nil => simp [normalText]
  | cons next more =>
      rw [normalText_cons, Placed.normal, Placed.space]
      split
      · cases hword : next.symbol.isWord with
        | true =>
            obtain ⟨c, rest, hspelling, hc⟩ := Placed.exists_of_isWord hword
            have hdot : c ≠ '.' := by
              rintro rfl
              cases hc
            simpa [hspelling] using hdot
        | false =>
            obtain ⟨mark, hspelling, -, hdot⟩ := Placed.of_not_isWord hword
            have hmark : mark ≠ '.' := fun heq => h (by simp [hdot.1 heq])
            simpa [hspelling] using hmark
      · simp

theorem readWord_append {word text : List Char} (hbegins : word.head?.any startsWord = true)
    (hparts : word.all isNamePart = true)
    (htext : ∀ c, text.head? = some c → continuesWord c = false) :
    readWord (word ++ text) = some (word, text) := by
  have hcontinues : ∀ c ∈ word, continuesWord c = true := by
    intro c hc
    have hpart := List.all_eq_true.1 hparts c hc
    simp only [isNamePart, startsWord, Bool.or_eq_true] at hpart
    rw [continuesWord, Char.isAlphanum]
    rcases hpart with (hpart | hpart) | hpart <;> simp [hpart]
  have htake : text.takeWhile continuesWord = [] ∧ text.dropWhile continuesWord = text := by
    cases text with
    | nil => exact ⟨rfl, rfl⟩
    | cons c rest => simp [htext c rfl]
  cases word with
  | nil => cases hbegins
  | cons c rest =>
      have hc : startsWord c = true := hbegins
      rw [List.cons_append, readWord, if_pos hc, ← List.cons_append,
        List.takeWhile_append_of_pos hcontinues, List.dropWhile_append_of_pos hcontinues, htake.1,
        htake.2, List.append_nil]

/-- A word is read where its symbol is written. -/
theorem readWord_pieces (hword : placed.symbol.isWord = true) (h : placed.Before more) :
    readWord (placed.spelling ++ normalText more) = some (placed.spelling, normalText more) := by
  obtain ⟨hbegins, hparts⟩ := Placed.of_isWord hword
  refine readWord_append hbegins hparts fun c hc => ?_
  rcases head?_behind_word hword h hc with rfl | rfl | rfl | rfl <;> decide

end Pieces

/-! ## Words -/

section Words

variable {placed : Placed}

theorem toNat_lt_of_mem_spelling {c : Char} (hc : c ∈ placed.spelling) : c.toNat < 128 :=
  toNat_lt_of_isSymbolPart (Placed.isSymbolPart_of_mem hc)

theorem lowerFrom_of_basic {text : List Char} (h : ∀ c ∈ text, c.toNat < 128) (before : List Char) :
    lowerFrom before text = text.map Char.toLower := by
  induction text generalizing before with
  | nil => rfl
  | cons c rest ih =>
      have hc := h c List.mem_cons_self
      have hsigma : (c.toNat == 0x3A3) = false := by
        rw [beq_eq_false_iff_ne]
        omega
      rw [lowerFrom, hsigma, ih fun d hd => h d (List.mem_cons_of_mem _ hd)]
      simp [lowerChar, hc]

theorem lowercase_spelling (placed : Placed) :
    lowercase (String.ofList placed.spelling)
      = String.ofList (placed.spelling.map Char.toLower) := by
  rw [lowercase, String.toList_ofList, lowerFrom_of_basic fun _ => toNat_lt_of_mem_spelling]

theorem map_fold_spelling (placed : Placed) :
    placed.spelling.map fold = placed.spelling.map Char.toLower := by
  refine List.map_congr_left fun c hc => ?_
  rw [fold, if_pos (toNat_lt_of_mem_spelling hc)]

theorem Placed.isWrittenAs_of_symbol {symbol : Symbol} (h : placed.symbol = symbol) :
    symbol.isWrittenAs placed.spelling = true := by
  rw [← h]
  exact placed.isSpelling

theorem Placed.isWord_of_keyword {word : Keyword} (h : placed.symbol = .keyword word) :
    placed.symbol.isWord = true := by
  rw [h]
  rfl

theorem Placed.isWord_of_identifier {name : Identifier} (h : placed.symbol = .identifier name) :
    placed.symbol.isWord = true := by
  rw [h]
  rfl

theorem Placed.map_toLower_of_keyword {word : Keyword} (h : placed.symbol = .keyword word) :
    placed.spelling.map Char.toLower = word.letters.toList :=
  beq_iff_eq.1 (placed.isWrittenAs_of_symbol h)

theorem Placed.spelling_of_identifier {name : Identifier} (h : placed.symbol = .identifier name) :
    placed.spelling = name.text :=
  beq_iff_eq.1 (placed.isWrittenAs_of_symbol h)

/-- No name is written like a reserved word. -/
theorem Placed.map_toLower_ne_of_identifier {name : Identifier}
    (h : placed.symbol = .identifier name) {word : String} (hword : word ∈ reservedWords) :
    placed.spelling.map Char.toLower ≠ word.toList := by
  intro heq
  have hfree := name.free
  rw [← placed.spelling_of_identifier h, heq, String.ofList_toList] at hfree
  simp [hword] at hfree

/-- Keywords are told by their letters. -/
theorem Placed.map_toLower_eq_iff (hword : placed.symbol.isWord = true) (word : Keyword) :
    placed.spelling.map Char.toLower = word.letters.toList ↔ placed.symbol = .keyword word := by
  constructor
  · intro h
    cases hsymbol : placed.symbol with
    | keyword other =>
        rw [placed.map_toLower_of_keyword hsymbol, String.toList_inj] at h
        have hsame : ∀ first ∈ keywords, ∀ second ∈ keywords, first.letters = second.letters →
            first = second := by decide
        rw [hsame _ (mem_keywords other) _ (mem_keywords word) h]
    | identifier name =>
        -- names are not reserved words, and keywords are
        have hreserved : ∀ word ∈ keywords, word.letters ∈ reservedWords := by decide
        exact absurd h
          (placed.map_toLower_ne_of_identifier hsymbol (hreserved word (mem_keywords word)))
    | _ =>
        rw [hsymbol] at hword
        cases hword
  · exact placed.map_toLower_of_keyword

end Words

/-! ## Keywords -/

section Leads

variable {placed : Placed} {more : List Placed}

theorem isWordChar_of_isNamePart {c : Char} (h : isNamePart c = true) : isWordChar c = true := by
  have hbasic := toNat_lt_of_isNamePart h
  exact of_basic isWordChar hbasic h (by decide)

/-- A word is found where a symbol is spelled like it, and a gap behind it. -/
theorem lead_pieces {word : String} (hletters : IsLetters word)
    (hword : placed.symbol.isWord = true) (h : placed.Before more) :
    lead word (placed.spelling ++ normalText more) =
      if placed.spelling.map Char.toLower = word.toList then afterBlanks (normalText more)
      else none := by
  by_cases hspelling : placed.spelling.map Char.toLower = word.toList
  · have hlength : word.length = placed.spelling.length := by
      rw [← String.length_toList, ← hspelling, List.length_map]
    rw [if_pos hspelling, lead, hlength, List.take_left, List.drop_left, map_fold_spelling,
      if_pos hspelling]
  · rw [if_neg hspelling, lead]
    split
    · rename_i htake
      generalize hfound : (placed.spelling ++ normalText more).take word.length = found at htake
      generalize hrest : (placed.spelling ++ normalText more).drop word.length = rest
      have htext : placed.spelling ++ normalText more = found ++ rest := by
        rw [← hfound, ← hrest, List.take_append_drop]
      have hne : found ≠ placed.spelling := by
        rintro rfl
        exact hspelling (by rw [← map_fold_spelling, htake])
      rcases List.append_eq_append_iff.1 htext with ⟨left, rfl, hleft⟩ | ⟨left, hleft, rfl⟩
      · -- the word would go on behind the symbol
        cases left with
        | nil => exact absurd (List.append_nil _) hne
        | cons c left =>
            have hc : isWordChar c = true := isWordChar_of_piece hletters htake c (by simp)
            have hends := head?_behind_word hword h (c := c) (by rw [hleft]; rfl)
            rcases hends with rfl | rfl | rfl | rfl <;> cases hc
      · -- the symbol goes on behind the word
        cases left with
        | nil => exact absurd (by rw [hleft, List.append_nil]) hne
        | cons c left =>
            have hc : isSymbolPart c = true :=
              Placed.isSymbolPart_of_mem (hleft ▸ List.mem_append_right _ List.mem_cons_self)
            simp [afterBlanks, (of_isSymbolPart hc).1]
    · rfl

theorem lead_keyword (word : Keyword) (hword : placed.symbol.isWord = true)
    (h : placed.Before more) :
    lead word.letters (placed.spelling ++ normalText more) =
      if placed.symbol = .keyword word then afterBlanks (normalText more) else none := by
  have hletters : ∀ word ∈ keywords, word.letters.toList ≠ [] ∧
      word.letters.toList.all Char.isLower = true := by decide
  rw [lead_pieces (hletters word (mem_keywords word)) hword h]
  simp only [placed.map_toLower_eq_iff hword]

/-- Reserved words that are no keyword are not found. -/
theorem lead_of_reserved {word : String} (hletters : IsLetters word) (hreserved : word ∈ reservedWords)
    (hkeyword : ∀ other ∈ keywords, other.letters ≠ word) (hword : placed.symbol.isWord = true)
    (h : placed.Before more) : lead word (placed.spelling ++ normalText more) = none := by
  rw [lead_pieces hletters hword h, if_neg]
  cases hsymbol : placed.symbol with
  | keyword other =>
      rw [placed.map_toLower_of_keyword hsymbol, String.toList_inj]
      exact hkeyword other (mem_keywords other)
  | identifier name => exact placed.map_toLower_ne_of_identifier hsymbol hreserved
  | _ =>
      rw [hsymbol] at hword
      cases hword

/-- Of the keywords that one table follows, only `JOIN` is a symbol. -/
theorem tableLead_pieces (hword : placed.symbol.isWord = true) (h : placed.Before more) :
    tableLead (placed.spelling ++ normalText more) =
      if placed.symbol = .keyword .joinWord then
        (afterBlanks (normalText more)).map fun rest => (lead "lateral" rest).getD rest
      else none := by
  have hjoin : lead "join" (placed.spelling ++ normalText more) = _ := lead_keyword .joinWord hword h
  have hinto : lead "into" (placed.spelling ++ normalText more) = none :=
    lead_of_reserved ⟨by decide, by decide⟩ (by decide) (by decide) hword h
  have hupdate : lead "update" (placed.spelling ++ normalText more) = none :=
    lead_of_reserved ⟨by decide, by decide⟩ (by decide) (by decide) hword h
  rw [tableLead, hjoin, hinto, hupdate, Option.or_none, Option.or_none]
  split <;> rfl

end Leads

/-! ## Where keywords are found -/

theorem Placed.eq_of_mem_space {placed : Placed} {c : Char} (h : c ∈ placed.space) : c = ' ' := by
  rw [Placed.space] at h
  split at h
  · cases h
  · exact List.mem_singleton.1 h

theorem not_mem_normalText {pieces : List Placed} {c : Char} (hspace : c ≠ ' ')
    (hpart : isSymbolPart c = false) : c ∉ normalText pieces := by
  intro hc
  obtain ⟨placed, -, hc⟩ := List.mem_flatMap.1 hc
  rcases List.mem_append.1 hc with hc | hc
  · exact hspace (placed.eq_of_mem_space hc)
  · rw [Placed.isSymbolPart_of_mem hc] at hpart
    cases hpart

/-- Only words have characters of which words are made. -/
theorem Placed.isWord_of_mem {placed : Placed} {c : Char} (hc : c ∈ placed.spelling)
    (hchar : isWordChar c = true) : placed.symbol.isWord = true := by
  cases hword : placed.symbol.isWord with
  | true => rfl
  | false =>
      obtain ⟨mark, hspelling, hmark, -⟩ := Placed.of_not_isWord hword
      obtain rfl : c = mark := by simpa [hspelling] using hc
      rcases hmark with rfl | rfl | rfl <;> cases hchar

/-- A word that begins in a symbol or the gap before it begins with the symbol. -/
theorem Placed.eq_spelling_of_word {placed : Placed} {before found : List Char}
    (hnormal : placed.normal = before ++ found) (hbefore : before.getLast?.any isWordChar = false)
    (hfound : found.head?.any isWordChar = true) :
    placed.symbol.isWord = true ∧ found = placed.spelling := by
  rcases List.append_eq_append_iff.1 hnormal with ⟨left, rfl, hspelling⟩ | ⟨left, hspace, rfl⟩
  · cases found with
    | nil => cases hfound
    | cons c found =>
        have hword : placed.symbol.isWord = true :=
          placed.isWord_of_mem (hspelling ▸ List.mem_append_right _ List.mem_cons_self) hfound
        refine ⟨hword, ?_⟩
        rcases List.eq_nil_or_concat left with rfl | ⟨front, last, rfl⟩
        · exact hspelling.symm
        · -- what is before it belongs to the same word
          have hlast : isWordChar last = true :=
            isWordChar_of_isNamePart (List.all_eq_true.1 (Placed.of_isWord hword).2 last
              (by simp [hspelling]))
          simp [hlast] at hbefore
  · cases left with
    | nil =>
        cases hspelling : placed.spelling with
        | nil => exact absurd hspelling placed.spelling_ne_nil
        | cons c rest =>
            rw [hspelling] at hfound
            exact ⟨placed.isWord_of_mem (hspelling ▸ List.mem_cons_self) hfound, rfl⟩
    | cons c left =>
        obtain rfl : c = ' ' := placed.eq_of_mem_space (hspace ▸ by simp)
        cases hfound

/-- **Words begin with symbols**: where a word begins in a normal form, a symbol does. -/
theorem exists_piece_of_word {pieces : List Placed} {before after : List Char}
    (htext : normalText pieces = before ++ after) (hbefore : before.getLast?.any isWordChar = false)
    (hafter : after.head?.any isWordChar = true) :
    ∃ front placed back, pieces = front ++ placed :: back ∧ placed.symbol.isWord = true ∧
      after = placed.spelling ++ normalText back := by
  induction pieces generalizing before with
  | nil =>
      obtain ⟨-, rfl⟩ := List.append_eq_nil_iff.1 htext.symm
      cases hafter
  | cons placed pieces ih =>
      rw [normalText_cons] at htext
      have hlater : ∀ {left : List Char}, left.getLast?.any isWordChar = false →
          normalText pieces = left ++ after → ∃ front next back,
            placed :: pieces = front ++ next :: back ∧ next.symbol.isWord = true ∧
              after = next.spelling ++ normalText back := by
        intro left hleft hpieces
        obtain ⟨front, next, back, rfl, hnext, hback⟩ := ih hpieces hleft
        exact ⟨placed :: front, next, back, rfl, hnext, hback⟩
      -- it begins behind this symbol, or in it
      rcases List.append_eq_append_iff.1 htext with ⟨left, rfl, hleft⟩ | ⟨found, hfound, rfl⟩
      · refine hlater ?_ hleft
        cases left with
        | nil => rfl
        | cons c left => simpa [List.getLast?_cons] using hbefore
      · cases found with
        | nil => exact @hlater [] rfl rfl
        | cons c found =>
            obtain ⟨hword, hspelling⟩ := placed.eq_spelling_of_word hfound hbefore
              (by simpa using hafter)
            exact ⟨[], placed, pieces, rfl, hword, by rw [hspelling]⟩

theorem atWordEdge_iff {before after : List Char} (h : after.head?.any isWordChar = true) :
    (Place.mk before.reverse after).atWordEdge = true ↔ before.getLast?.any isWordChar = false := by
  rw [Place.atWordEdge, List.head?_reverse, h]
  cases before.getLast?.any isWordChar <;> decide

theorem exists_piece_at_edge {pieces : List Placed} {before after : List Char}
    (htext : normalText pieces = before ++ after)
    (hedge : (Place.mk before.reverse after).atWordEdge = true)
    (hafter : after.head?.any isWordChar = true) :
    ∃ front placed back, pieces = front ++ placed :: back ∧ placed.symbol.isWord = true ∧
      after = placed.spelling ++ normalText back :=
  exists_piece_of_word htext ((atWordEdge_iff hafter).1 hedge) hafter

/-- Before a word, nothing ends in a word. -/
theorem not_isWordChar_before {front back : List Placed} {placed : Placed}
    (h : (front ++ placed :: back).IsChain (Placed.follows · · = true))
    (hword : placed.symbol.isWord = true) :
    (normalText front ++ placed.space).getLast?.any isWordChar = false := by
  rw [Placed.space]
  split
  · rename_i hgap
    rw [List.append_nil]
    rcases List.eq_nil_or_concat front with rfl | ⟨others, last, rfl⟩
    · rfl
    · rw [List.concat_eq_append] at h ⊢
      have hfollows : last.follows placed = true :=
        (List.isChain_append.1 h).2.2 last (by simp) placed (by simp)
      -- two words need a gap between them, and here there is none
      have hlast : last.symbol.isWord = false := Bool.eq_false_iff.2 fun hlast =>
        gap_ne_nil_of_follows hfollows hlast hword (List.isEmpty_iff.1 hgap)
      obtain ⟨mark, hspelling, hmark, -⟩ := Placed.of_not_isWord hlast
      rw [normalText, List.flatMap_append, List.flatMap_singleton, Placed.normal, hspelling,
        ← List.append_assoc, List.getLast?_concat]
      rcases hmark with rfl | rfl | rfl <;> decide
  · rw [List.getLast?_concat]
    decide

theorem insideParenthesis_of_not_mem {before : List Char} (h : '(' ∉ before) (depth : Nat)
    (between : List Char) : insideParenthesis depth between before = none := by
  induction before generalizing depth between with
  | nil => rfl
  | cons c before ih =>
      rw [List.mem_cons, not_or] at h
      have hc : (c == '(') = false := by simpa using Ne.symm h.1
      rw [insideParenthesis, hc]
      split
      · exact ih h.2 _ _
      · exact ih h.2 _ _

inductive Placed.Reads (placed : Placed) (back : List Placed) (table : String) : Prop
  | inList {rest : List Char} (hkeyword : placed.symbol = .keyword .fromWord)
      (hback : afterBlanks (normalText back) = some rest) (htable : Listed rest table)
  | alone {rest : List Char} (hkeyword : placed.symbol = .keyword .joinWord)
      (hback : afterBlanks (normalText back) = some rest)
      (htable : table ∈ singleTable ((lead "lateral" rest).getD rest))

theorem head?_of_lead {word : String} (hletters : IsLetters word) {text rest : List Char}
    (h : lead word text = some rest) : text.head?.any isWordChar = true := by
  rw [lead] at h
  split at h
  · rename_i htake
    cases text with
    | nil => exact absurd htake.symm (by simpa using hletters.1)
    | cons c text =>
        obtain ⟨n, hn⟩ : ∃ n, word.length = n + 1 := by
          refine Nat.exists_eq_succ_of_ne_zero fun hzero => hletters.1 ?_
          rw [← List.length_eq_zero_iff, String.length_toList, hzero]
        exact isWordChar_of_piece hletters htake c (by simp [hn])
  · cases h

theorem head?_of_tableLead {text rest : List Char} (h : tableLead text = some rest) :
    text.head?.any isWordChar = true := by
  simp only [tableLead, Option.or_eq_some_iff, Option.map_eq_some_iff] at h
  rcases h with (⟨_, hjoin, -⟩ | ⟨-, hinto⟩) | ⟨-, hupdate⟩
  · exact head?_of_lead ⟨by decide, by decide⟩ hjoin
  · exact head?_of_lead ⟨by decide, by decide⟩ hinto
  · exact head?_of_lead ⟨by decide, by decide⟩ hupdate

theorem normalText_split (front back : List Placed) (placed : Placed) :
    normalText (front ++ placed :: back)
      = (normalText front ++ placed.space) ++ (placed.spelling ++ normalText back) := by
  simp [normalText, Placed.normal]

/-- A word that is a symbol begins at the edge of a word and outside parentheses. -/
theorem place_of_symbol {front back : List Placed} {placed : Placed}
    (h : (front ++ placed :: back).IsChain (Placed.follows · · = true))
    (hword : placed.symbol.isWord = true) :
    (Place.mk (normalText front ++ placed.space).reverse
        (placed.spelling ++ normalText back)).atWordEdge = true ∧
      isTablePosition ⟨(normalText front ++ placed.space).reverse,
        placed.spelling ++ normalText back⟩ = true := by
  constructor
  · obtain ⟨c, rest, hspelling, hc⟩ := Placed.exists_of_isWord hword
    have hbegins : (placed.spelling ++ normalText back).head?.any isWordChar = true := by
      rw [hspelling]
      exact isWordChar_of_isNamePart (by rw [isNamePart, hc, Bool.true_or])
    rw [atWordEdge_iff hbegins]
    exact not_isWordChar_before h hword
  · have hnone : '(' ∉ (normalText front ++ placed.space).reverse := by
      intro hmem
      have htext : '(' ∈ normalText (front ++ placed :: back) := by
        rw [normalText_split]
        exact List.mem_append_left _ (List.mem_reverse.1 hmem)
      exact not_mem_normalText (by decide) (by decide) htext
    rw [isTablePosition, insideParenthesis_of_not_mem hnone]

/-- **Tables are named by the symbols `FROM` and `JOIN`** and by nothing else. -/
theorem namesTable_iff {symbols : List Symbol} {pieces : List Placed} (h : Spells symbols pieces)
    {table : String} :
    NamesTable (normalText pieces) table ↔
      ∃ front placed back, pieces = front ++ placed :: back ∧ placed.Reads back table := by
  constructor
  · rintro (⟨htext, hedge, -, hlead, htable⟩ | ⟨htext, hedge, -, hlead, htable⟩)
    · have hafter := head?_of_lead ⟨by decide, by decide⟩ hlead
      obtain ⟨front, placed, back, rfl, hword, rfl⟩ := exists_piece_at_edge htext hedge hafter
      have hfrom := (lead_keyword .fromWord hword h.behind.2.2).symm.trans hlead
      split at hfrom
      · rename_i hkeyword
        exact ⟨front, placed, back, rfl, .inList hkeyword hfrom htable⟩
      · cases hfrom
    · have hafter := head?_of_tableLead hlead
      obtain ⟨front, placed, back, rfl, hword, rfl⟩ := exists_piece_at_edge htext hedge hafter
      rw [tableLead_pieces hword h.behind.2.2] at hlead
      split at hlead
      · rename_i hkeyword
        obtain ⟨rest, hback, rfl⟩ := Option.map_eq_some_iff.1 hlead
        exact ⟨front, placed, back, rfl, .alone hkeyword hback htable⟩
      · cases hlead
  · rintro ⟨front, placed, back, rfl, hreads⟩
    have htext := normalText_split front back placed
    cases hreads with
    | inList hkeyword hback htable =>
        have hword := placed.isWord_of_keyword hkeyword
        obtain ⟨hedge, hposition⟩ := place_of_symbol h.follows hword
        refine .inList htext hedge hposition ?_ htable
        rw [← hback]
        exact (lead_keyword .fromWord hword h.behind.2.2).trans (if_pos hkeyword)
    | alone hkeyword hback htable =>
        have hword := placed.isWord_of_keyword hkeyword
        obtain ⟨hedge, hposition⟩ := place_of_symbol h.follows hword
        refine .alone htext hedge hposition ?_ htable
        rw [tableLead_pieces hword h.behind.2.2, if_pos hkeyword, hback]
        rfl

theorem exists_lead_of_mem {word : String} {place middle stop : Place}
    (hmiddle : middle ∈ letters word place) (hstop : stop ∈ blanks1 middle) :
    ∃ rest, lead word place.after = some rest := by
  have hlead := head?_letters_blanks1 word place
  have hmem : stop ∈ (letters word place).flatMap blanks1 :=
    List.mem_flatMap.2 ⟨middle, hmiddle, hstop⟩
  cases hends : (letters word place).flatMap blanks1 with
  | nil =>
      rw [hends] at hmem
      cases hmem
  | cons first others =>
      rw [hends] at hlead
      exact ⟨_, hlead.symm⟩

theorem not_occursIn_withClause {symbols : List Symbol} {pieces : List Placed}
    (h : Spells symbols pieces) : occursIn withClause (normalText pieces) = false := by
  rw [Bool.eq_false_iff]
  intro hoccurs
  obtain ⟨before, after, stop, htext, hstop⟩ := occursIn_iff.1 hoccurs
  -- the clause begins with the word and a blank behind it
  obtain ⟨clause, hclause, -⟩ := mem_sequence_cons.1 hstop
  obtain ⟨word, hword, hgap⟩ := mem_sequence_cons.1 hclause
  obtain ⟨gap, hgap, -⟩ := mem_sequence_cons.1 hgap
  obtain ⟨start, hstart, hletters⟩ := mem_andThen.1 hword
  obtain ⟨hedge, rfl⟩ := mem_wordEdge.1 hstart
  obtain ⟨rest, hlead⟩ := exists_lead_of_mem hletters hgap
  have hafter := head?_of_lead ⟨by decide, by decide⟩ hlead
  obtain ⟨front, placed, back, rfl, hisWord, rfl⟩ := exists_piece_at_edge htext hedge hafter
  have hnone : lead "with" (placed.spelling ++ normalText back) = none :=
    lead_of_reserved ⟨by decide, by decide⟩ (by decide) (by decide) hisWord h.behind.2.2
  cases hnone.symm.trans hlead

/-! ## Names -/

theorem readPart_of_startsWord {c : Char} (h : startsWord c = true) (rest : List Char) :
    readPart (c :: rest) = readWord (c :: rest) := by
  have hbasic : c.toNat < 128 := toNat_lt_of_isNamePart (by rw [isNamePart, h, Bool.true_or])
  have hplain := of_basic (fun c => c != '"' && c.toNat != 96 && c != '[') hbasic h (by decide)
  simp only [Bool.and_eq_true, bne_iff_ne, ne_eq] at hplain
  simp [readPart, hplain]

theorem readParts_last {fuel : Nat} {text part rest : List Char}
    (hpart : readPart text = some (part, rest)) (hrest : rest.head? ≠ some '.') :
    readParts (fuel + 1) text = some ([part], rest) := by
  rw [readParts, hpart, Option.bind_eq_bind, Option.bind_some]
  dsimp only
  split
  · exact absurd rfl hrest
  · rfl

theorem readParts_dot {fuel : Nat} {text part rest rest' : List Char} {parts : List (List Char)}
    (hpart : readPart text = some (part, '.' :: rest))
    (hparts : readParts fuel rest = some (parts, rest')) :
    readParts (fuel + 1) text = some (part :: parts, rest') := by
  rw [readParts, hpart, Option.bind_eq_bind, Option.bind_some]
  simp only [hparts]
  rfl

theorem readPart_pieces {placed : Placed} {more : List Placed} {name : Identifier}
    (hsymbol : placed.symbol = .identifier name) (h : placed.Before more) :
    readPart (trimStart (normalText (placed :: more))) = some (name.text, normalText more) := by
  have hword := placed.isWord_of_identifier hsymbol
  obtain ⟨c, rest, hspelling, hc⟩ := Placed.exists_of_isWord hword
  have hread := readWord_pieces hword h
  rw [hspelling, List.cons_append] at hread
  rw [trimStart_normalText, hspelling, List.cons_append, readPart_of_startsWord hc, hread,
    ← hspelling, placed.spelling_of_identifier hsymbol]

/-- Beside a dot there is no space. -/
theorem normalText_dot {placed dot next : Placed} {more : List Placed}
    (hdot : dot.symbol = .dot) (hbefore : placed.Before (dot :: next :: more))
    (hnext : dot.Before (next :: more)) :
    normalText (dot :: next :: more) = '.' :: trimStart (normalText (next :: more)) := by
  have hspelling : dot.spelling = ['.'] := beq_iff_eq.1 (dot.isWrittenAs_of_symbol hdot)
  have hgap := gap_eq_nil_of_follows (hbefore dot rfl) (.inr hdot)
  have hgap' := gap_eq_nil_of_follows (hnext next rfl) (.inl hdot)
  rw [trimStart_normalText, normalText_cons, normalText_cons, Placed.normal, Placed.normal,
    Placed.space, Placed.space, hgap, hgap', hspelling]
  rfl

theorem readParts_pieces {first : Identifier} {more : List Identifier} {rest : List Symbol}
    {pieces : List Placed} {fuel : Nat} (h : Spells (Name.symbols ⟨first, more⟩ ++ rest) pieces)
    (hrest : rest.head? ≠ some .dot) (hfuel : more.length < fuel) :
    ∃ back, Spells rest back ∧
      readParts fuel (trimStart (normalText pieces))
        = some (first.text :: more.map Identifier.text, normalText back) := by
  induction more generalizing first pieces fuel with
  | nil =>
      obtain ⟨fuel, rfl⟩ := Nat.exists_eq_add_one_of_ne_zero (Nat.ne_of_gt hfuel)
      obtain ⟨placed, back, rfl, hsymbol, hback, hbefore⟩ := h.exists_of_cons
      refine ⟨back, hback,
        readParts_last (readPart_pieces hsymbol hbefore) (head?_normalText_ne_dot ?_)⟩
      rwa [hback.symbols_eq]
  | cons next more ih =>
      obtain ⟨fuel, rfl⟩ := Nat.exists_eq_add_one_of_ne_zero (Nat.ne_of_gt (Nat.zero_lt_of_lt hfuel))
      obtain ⟨placed, dotted, rfl, hsymbol, hdotted, hbefore⟩ := h.exists_of_cons
      obtain ⟨dot, others, rfl, hdot, hothers, hdotBefore⟩ := hdotted.exists_of_cons
      obtain ⟨back, hback, hparts⟩ := ih hothers (by simpa using hfuel)
      -- a name stands behind the dot, and there is no gap on either side of it
      obtain ⟨second, others, rfl, -⟩ := hothers.exists_of_cons
      refine ⟨back, hback, readParts_dot ?_ hparts⟩
      rw [readPart_pieces hsymbol hbefore, normalText_dot hdot hbefore hdotBefore]

theorem length_le_trimStart (pieces : List Placed) :
    pieces.length ≤ (trimStart (normalText pieces)).length := by
  have hlength : ∀ pieces : List Placed, pieces.length ≤ (normalText pieces).length := by
    intro pieces
    induction pieces with
    | nil => exact Nat.le_refl 0
    | cons placed more ih =>
        have hsome := List.length_pos_iff.2 placed.spelling_ne_nil
        rw [normalText_cons, Placed.normal, List.length_append, List.length_append, List.length_cons]
        omega
  cases pieces with
  | nil => exact Nat.zero_le _
  | cons placed more =>
      have hsome := List.length_pos_iff.2 placed.spelling_ne_nil
      have hmore := hlength more
      rw [trimStart_normalText, List.length_append, List.length_cons]
      omega

/-- **Names are read as they are written.** -/
theorem readName_pieces {name : Name} {rest : List Symbol} {pieces : List Placed}
    (h : Spells (name.symbols ++ rest) pieces) (hrest : rest.head? ≠ some .dot) :
    ∃ back, Spells rest back ∧
      readName (trimStart (normalText pieces)) = some (name.text, normalText back) := by
  obtain ⟨first, more⟩ := name
  -- each part is a symbol, and each symbol takes a character
  have hfuel : more.length < (trimStart (normalText pieces)).length := by
    have hlength := congrArg List.length h.symbols_eq
    have htext := length_le_trimStart pieces
    simp only [Name.symbols, List.cons_append, List.length_map, List.length_cons, List.length_append,
      List.length_flatMap, List.length_nil, List.map_const', List.sum_replicate_nat] at hlength
    omega
  obtain ⟨back, hback, hparts⟩ := readParts_pieces h hrest hfuel
  refine ⟨back, hback, ?_⟩
  rw [readName, hparts]
  simp [Name.text, Function.comp_def]

end RepoPolicy.Sql
