import Mathlib.Data.List.Chain
import RepoPolicy.Proofs.Sql.PlainForm

set_option autoImplicit false

/-! # Texts of words and punctuation

A simple SQL text consists of keywords, names, dots, commas and equals signs. `Spelled` says how the
symbols of such a text may be written down: keywords in any case, and blanks and comments anywhere but
beside a dot, at least one of them between two words. In the normal form, one space is left of what
separates two symbols, and nothing else changes (`normalForm_spelled`). -/

namespace RepoPolicy.Sql

open RepoPolicy.Text

/-! ## Symbols -/

/-- Words that have a meaning where tables are named. -/
def reservedWords : List String := nonTableWords ++ clauseWords ++ ["only", "from", "update", "with"]

/-- Basic letters, digits and `_`. -/
def isNamePart (c : Char) : Bool := startsWord c || c.isDigit

/-- A name of basic letters, digits and `_` that does not begin with a digit and is not reserved,
whatever the case of its letters. -/
structure Identifier where
  text : List Char
  begins : text.head?.any startsWord = true
  parts : text.all isNamePart = true
  free : reservedWords.contains (String.ofList (text.map Char.toLower)) = false
  deriving DecidableEq

/-- The ways to join that are named before `JOIN`. -/
inductive JoinKind where
  | inner
  | left
  | right
  | full
  | cross
  deriving DecidableEq, Repr

/-- The keywords of a select without conditions, groups and orders. -/
inductive Keyword where
  | selectWord
  | fromWord
  | asWord
  | onWord
  | joinWord
  | kindWord (kind : JoinKind)
  deriving DecidableEq, Repr

def Keyword.letters : Keyword → String
  | selectWord => "select"
  | fromWord => "from"
  | asWord => "as"
  | onWord => "on"
  | joinWord => "join"
  | kindWord .inner => "inner"
  | kindWord .left => "left"
  | kindWord .right => "right"
  | kindWord .full => "full"
  | kindWord .cross => "cross"

def keywords : List Keyword :=
  [.selectWord, .fromWord, .asWord, .onWord, .joinWord, .kindWord .inner, .kindWord .left,
    .kindWord .right, .kindWord .full, .kindWord .cross]

theorem mem_keywords (word : Keyword) : word ∈ keywords := by
  cases word with
  | kindWord kind => cases kind <;> decide
  | _ => decide

inductive Symbol where
  | keyword (word : Keyword)
  | identifier (name : Identifier)
  | dot
  | comma
  | equals
  deriving DecidableEq

def Symbol.isWord : Symbol → Bool
  | keyword _ => true
  | identifier _ => true
  | _ => false

/-- Whether a text writes the symbol. Keywords may be written in any case. -/
def Symbol.isWrittenAs : Symbol → List Char → Bool
  | keyword word, text => text.map Char.toLower == word.letters.toList
  | identifier name, text => text == name.text
  | dot, text => text == ['.']
  | comma, text => text == [',']
  | equals, text => text == ['=']

structure Name where
  first : Identifier
  more : List Identifier

def Name.symbols (name : Name) : List Symbol :=
  .identifier name.first :: name.more.flatMap fun part => [.dot, .identifier part]

def Name.text (name : Name) : String :=
  ".".intercalate ((name.first :: name.more).map fun part => String.ofList part.text)

def isSymbolPart (c : Char) : Bool := isNamePart c || c == '.' || c == ',' || c == '='

/-! ## Gaps -/

inductive Separator where
  | blank (c : Char) (hc : isBlank c = true)
  | lineComment (contents : List Char) (hcontents : '\n' ∉ contents)
  | blockComment (contents : List Char) (hcontents : ClosesFirst ['*', '/'] contents)

def Separator.text : Separator → List Char
  | blank c _ => [c]
  | lineComment contents _ => ['-', '-'] ++ contents ++ ['\n']
  | blockComment contents _ => ['/', '*'] ++ contents ++ ['*', '/']

/-- A symbol as it is written in a text, with what separates it from the one before it. -/
structure Placed where
  gap : List Separator
  symbol : Symbol
  spelling : List Char
  isSpelling : symbol.isWrittenAs spelling = true

def Placed.text (placed : Placed) : List Char :=
  placed.gap.flatMap Separator.text ++ placed.spelling

/-- Whether a symbol may be written behind another one: beside a dot there is no gap, and between
two words there is one. -/
def Placed.follows (first next : Placed) : Bool :=
  if first.symbol == .dot || next.symbol == .dot then next.gap.isEmpty
  else !(first.symbol.isWord && next.symbol.isWord && next.gap.isEmpty)

/-- The symbols are written in this way. -/
structure Spells (symbols : List Symbol) (pieces : List Placed) : Prop where
  symbols_eq : pieces.map Placed.symbol = symbols
  follows : pieces.IsChain (Placed.follows · · = true)

/-- A text that writes these symbols. -/
structure Spelled (symbols : List Symbol) where
  pieces : List Placed
  spells : Spells symbols pieces
  trailing : List Separator

def Spelled.text {symbols : List Symbol} (spelled : Spelled symbols) : List Char :=
  spelled.pieces.flatMap Placed.text ++ spelled.trailing.flatMap Separator.text

def Spelled.sql {symbols : List Symbol} (spelled : Spelled symbols) : String :=
  String.ofList spelled.text

/-! ## The characters of symbols -/

theorem toNat_lt_of_isNamePart {c : Char} (h : isNamePart c = true) : c.toNat < 128 := by
  simp only [isNamePart, startsWord, Bool.or_eq_true, beq_iff_eq] at h
  rcases h with (h | rfl) | h
  · exact toNat_lt_of_isAlphanum (by rw [Char.isAlphanum, h, Bool.true_or])
  · decide
  · exact toNat_lt_of_isAlphanum (by rw [Char.isAlphanum, h, Bool.or_true])

theorem toNat_lt_of_isSymbolPart {c : Char} (h : isSymbolPart c = true) : c.toNat < 128 := by
  simp only [isSymbolPart, Bool.or_eq_true, beq_iff_eq] at h
  rcases h with ((h | rfl) | rfl) | rfl
  · exact toNat_lt_of_isNamePart h
  · decide
  · decide
  · decide

/-- Symbols have neither blanks nor quotes, and begin no comments. -/
theorem of_isSymbolPart {c : Char} (h : isSymbolPart c = true) :
    isBlank c = false ∧ c ∉ ['-', '/', '\'', '"', '$', '(', ')'] := by
  have hplain := of_basic
    (fun c => !isBlank c && !(['-', '/', '\'', '"', '$', '(', ')'].contains c))
    (toNat_lt_of_isSymbolPart h) h (by decide)
  simpa using hplain

theorem startsWord_of_toLower {c : Char} (h : c.toLower.isLower = true) : startsWord c = true := by
  show (c.isUpper || c.isLower || c == '_') = true
  by_cases hupper : c.isUpper = true
  · rw [hupper, Bool.true_or, Bool.true_or]
  · have hrange : ¬(c.val ≥ 'A'.val ∧ c.val ≤ 'Z'.val) := fun hrange =>
      hupper (decide_eq_true hrange)
    have hsame : c.toLower = c := dif_neg hrange
    rw [hsame] at h
    rw [h, Bool.or_true, Bool.true_or]

theorem startsWord_of_isWrittenAs {word : Keyword} {text : List Char}
    (h : (Symbol.keyword word).isWrittenAs text = true) : ∀ c ∈ text, startsWord c = true := by
  intro c hc
  have hall : ∀ word ∈ keywords, word.letters.toList.all Char.isLower = true := by decide
  have hletters := hall word (mem_keywords word)
  rw [Symbol.isWrittenAs, beq_iff_eq] at h
  refine startsWord_of_toLower (List.all_eq_true.1 hletters _ ?_)
  rw [← h]
  exact List.mem_map_of_mem hc

namespace Placed

/-- A word begins with a letter or `_`, and digits may follow. -/
theorem of_isWord {placed : Placed} (h : placed.symbol.isWord = true) :
    placed.spelling.head?.any startsWord = true ∧ placed.spelling.all isNamePart = true := by
  obtain ⟨gap, symbol, spelling, hspelling⟩ := placed
  cases symbol with
  | keyword word =>
      have hall := startsWord_of_isWrittenAs hspelling
      refine ⟨?_, List.all_eq_true.2 fun c hc => by rw [isNamePart, hall c hc, Bool.true_or]⟩
      cases spelling with
      | nil =>
          have hsome : ∀ word ∈ keywords, word.letters.toList ≠ [] := by decide
          exact absurd (beq_iff_eq.1 hspelling).symm (hsome word (mem_keywords word))
      | cons c rest => exact hall c List.mem_cons_self
  | identifier name =>
      obtain rfl := beq_iff_eq.1 hspelling
      exact ⟨name.begins, name.parts⟩
  | _ => cases h

theorem exists_of_isWord {placed : Placed} (h : placed.symbol.isWord = true) :
    ∃ c rest, placed.spelling = c :: rest ∧ startsWord c = true := by
  have hbegins := (of_isWord h).1
  cases hspelling : placed.spelling with
  | nil =>
      rw [hspelling] at hbegins
      cases hbegins
  | cons c rest => exact ⟨c, rest, rfl, by simpa [hspelling] using hbegins⟩

/-- Other symbols are one character. -/
theorem of_not_isWord {placed : Placed} (h : placed.symbol.isWord = false) :
    ∃ c, placed.spelling = [c] ∧ (c = '.' ∨ c = ',' ∨ c = '=') ∧
      (c = '.' ↔ placed.symbol = .dot) := by
  obtain ⟨gap, symbol, spelling, hspelling⟩ := placed
  cases symbol with
  | dot => exact ⟨'.', beq_iff_eq.1 hspelling, by simp, by simp⟩
  | comma => exact ⟨',', beq_iff_eq.1 hspelling, by simp, by simp⟩
  | equals => exact ⟨'=', beq_iff_eq.1 hspelling, by simp, by simp⟩
  | _ => cases h

theorem isSymbolPart_of_mem {placed : Placed} {c : Char} (hc : c ∈ placed.spelling) :
    isSymbolPart c = true := by
  cases h : placed.symbol.isWord with
  | true =>
      have hpart := List.all_eq_true.1 (of_isWord h).2 c hc
      rw [isSymbolPart, hpart, Bool.true_or, Bool.true_or, Bool.true_or]
  | false =>
      obtain ⟨d, hspelling, hmark, -⟩ := of_not_isWord h
      obtain rfl : c = d := by simpa [hspelling] using hc
      rcases hmark with rfl | rfl | rfl <;> decide

theorem spelling_ne_nil (placed : Placed) : placed.spelling ≠ [] := by
  intro hnil
  cases h : placed.symbol.isWord with
  | true =>
      obtain ⟨c, rest, hspelling, -⟩ := exists_of_isWord h
      rw [hnil] at hspelling
      cases hspelling
  | false =>
      obtain ⟨c, hspelling, -⟩ := of_not_isWord h
      rw [hnil] at hspelling
      cases hspelling

end Placed

/-! ## The normal form -/

def Placed.space (placed : Placed) : List Char := if placed.gap.isEmpty then [] else [' ']

def Placed.normal (placed : Placed) : List Char := placed.space ++ placed.spelling

def normalText (pieces : List Placed) : List Char := pieces.flatMap Placed.normal

theorem readFrom_separator (separator : Separator) (preceding : Preceding) (written : List Char) :
    readFrom ⟨.code preceding, written⟩ separator.text = ⟨.code .edge, pushSpace written⟩ := by
  cases separator with
  | blank c hc =>
      have hmark : ∀ mark ∈ ['-', '/', '\'', '"', '$'], c ≠ mark := by
        rintro mark hmark rfl
        have hnone : ['-', '/', '\'', '"', '$'].any isBlank = false := by decide
        exact List.any_eq_false.1 hnone c hmark hc
      simp only [List.mem_cons, List.not_mem_nil, or_false, forall_eq_or_imp, forall_eq] at hmark
      simp [Separator.text, step, stepCode, hc, hmark]
  | lineComment contents hcontents =>
      show readFrom ⟨.lineComment, written⟩ (contents ++ ['\n']) = _
      rw [readFrom_append, readFrom_lineComment hcontents]
      rfl
  | blockComment contents hcontents =>
      show readFrom ⟨.blockComment false, written⟩ (contents ++ ['*', '/']) = _
      exact readFrom_blockComment (fun h => by cases h) hcontents

/-- One space is left of a gap. -/
theorem readFrom_gap (gap : List Separator) (preceding : Preceding) (written : List Char) :
    ∃ preceding', readFrom ⟨.code preceding, written⟩ (gap.flatMap Separator.text)
      = ⟨.code preceding', if gap.isEmpty then written else pushSpace written⟩ := by
  induction gap generalizing preceding written with
  | nil => exact ⟨preceding, rfl⟩
  | cons separator gap ih =>
      -- the first separator writes the space, and the others find it there
      obtain ⟨preceding', hread⟩ := ih .edge (pushSpace written)
      refine ⟨preceding', ?_⟩
      rw [List.flatMap_cons, readFrom_append, readFrom_separator, hread,
        pushSpace_of_isSpaced (isSpaced_pushSpace written)]
      simp

theorem readFrom_of_isSymbolPart {text : List Char} (h : ∀ c ∈ text, isSymbolPart c = true)
    (preceding : Preceding) (written : List Char) :
    ∃ preceding', readFrom ⟨.code preceding, written⟩ text
      = ⟨.code preceding', text.reverse ++ written⟩ := by
  induction text generalizing preceding written with
  | nil => exact ⟨preceding, rfl⟩
  | cons c text ih =>
      obtain ⟨hblank, hmark⟩ := of_isSymbolPart (h c List.mem_cons_self)
      have hstep : step ⟨.code preceding, written⟩ c = ⟨.code (preceding.next c), c :: written⟩ := by
        simp only [List.mem_cons, List.not_mem_nil, or_false, not_or] at hmark
        simp [step, stepCode, hblank, hmark]
      obtain ⟨preceding', hread⟩ := ih (fun d hd => h d (List.mem_cons_of_mem _ hd))
        (preceding.next c) (c :: written)
      exact ⟨preceding', by rw [readFrom_cons, hstep, hread, List.reverse_cons, List.append_assoc,
        List.singleton_append]⟩

def EndsInSymbol (written : List Char) : Prop := written.head?.any isSymbolPart = true

theorem endsInSymbol_spelling (placed : Placed) (written : List Char) :
    EndsInSymbol (placed.spelling.reverse ++ written) := by
  cases hlast : placed.spelling.reverse with
  | nil => exact absurd (List.reverse_eq_nil_iff.1 hlast) placed.spelling_ne_nil
  | cons c rest =>
      have hc : c ∈ placed.spelling := by
        rw [← List.mem_reverse, hlast]
        exact List.mem_cons_self
      exact Placed.isSymbolPart_of_mem hc

theorem EndsInSymbol.dropWhile {written : List Char} (h : EndsInSymbol written) :
    written.dropWhile isBlank = written := by
  cases written with
  | nil => rfl
  | cons c rest => exact List.dropWhile_cons_of_neg (by simp [(of_isSymbolPart h).1])

theorem EndsInSymbol.pushSpace {written : List Char} (h : EndsInSymbol written) :
    Sql.pushSpace written = ' ' :: written := by
  cases written with
  | nil => cases h
  | cons c rest =>
      have hspace : c ≠ ' ' := by
        rintro rfl
        cases h
      simp [Sql.pushSpace, hspace]

theorem readFrom_placed (placed : Placed) (preceding : Preceding) (written : List Char) :
    ∃ preceding', readFrom ⟨.code preceding, written⟩ placed.text
      = ⟨.code preceding', placed.spelling.reverse ++
          if placed.gap.isEmpty then written else pushSpace written⟩ := by
  obtain ⟨before, hgap⟩ := readFrom_gap placed.gap preceding written
  rw [Placed.text, readFrom_append, hgap]
  exact readFrom_of_isSymbolPart (fun _ => Placed.isSymbolPart_of_mem) before _

/-- Behind a symbol, each symbol is written with a space for the gap before it. -/
theorem readFrom_pieces (pieces : List Placed) (preceding : Preceding) {written : List Char}
    (h : EndsInSymbol written) :
    ∃ preceding', readFrom ⟨.code preceding, written⟩ (pieces.flatMap Placed.text)
        = ⟨.code preceding', (normalText pieces).reverse ++ written⟩ ∧
      EndsInSymbol ((normalText pieces).reverse ++ written) := by
  induction pieces generalizing preceding written with
  | nil => exact ⟨preceding, rfl, h⟩
  | cons placed pieces ih =>
      obtain ⟨middle, hplaced⟩ := readFrom_placed placed preceding written
      -- the text ends in a symbol, so the space for a gap is written and not merged with another
      have hnormal : placed.spelling.reverse ++ (if placed.gap.isEmpty then written
          else pushSpace written) = placed.normal.reverse ++ written := by
        rw [Placed.normal, Placed.space, h.pushSpace]
        split <;> simp
      have hends := endsInSymbol_spelling placed
        (if placed.gap.isEmpty then written else pushSpace written)
      rw [hnormal] at hplaced hends
      obtain ⟨preceding', hread, hends'⟩ := ih middle hends
      have htext : (normalText (placed :: pieces)).reverse ++ written
          = (normalText pieces).reverse ++ (placed.normal.reverse ++ written) := by
        simp [normalText]
      rw [htext, List.flatMap_cons, readFrom_append, hplaced]
      exact ⟨preceding', hread, hends'⟩

/-- **The normal form of a text of symbols** has one space for each gap between two of them. The gaps
at the ends leave none, and nothing is left open. -/
theorem normalForm_spelled (first : Placed) (pieces : List Placed) (trailing : List Separator) :
    let text := (first :: pieces).flatMap Placed.text ++ trailing.flatMap Separator.text
    (scan text).mode.openQuote = none ∧ normalForm text = first.spelling ++ normalText pieces := by
  intro text
  -- no space is written at the start, and one at the end is dropped
  obtain ⟨before, hfirst⟩ := readFrom_placed first .edge []
  have hstart : (if first.gap.isEmpty then [] else pushSpace []) = ([] : List Char) := by
    split <;> rfl
  rw [hstart] at hfirst
  obtain ⟨preceding, hpieces, hends⟩ := readFrom_pieces pieces before (endsInSymbol_spelling first [])
  generalize hwritten : (normalText pieces).reverse ++ (first.spelling.reverse ++ []) = written
    at hpieces hends
  obtain ⟨last, htrailing⟩ := readFrom_gap trailing preceding written
  have hscan : scan text
      = ⟨.code last, if trailing.isEmpty then written else ' ' :: written⟩ := by
    rw [scan, readFrom_append, List.flatMap_cons, readFrom_append, Reading.start, hfirst, hpieces,
      htrailing, hends.pushSpace]
  have hdrop : (scan text).finish.dropWhile isBlank = written := by
    rw [hscan]
    show (if trailing.isEmpty then written else ' ' :: written).dropWhile isBlank = written
    split
    · exact hends.dropWhile
    · rw [List.dropWhile_cons_of_pos (by decide), hends.dropWhile]
  refine ⟨by rw [hscan]; rfl, ?_⟩
  rw [← List.reverse_inj, reverse_normalForm, hdrop, ← hwritten]
  simp

/-- The normal form writes the same symbols. -/
theorem Spelled.exists_normal {symbols : List Symbol} (spelled : Spelled symbols)
    (hsome : symbols ≠ []) :
    (scan spelled.text).mode.openQuote = none ∧
      ∃ pieces, Spells symbols pieces ∧ normalForm spelled.text = normalText pieces := by
  obtain ⟨pieces, ⟨rfl, hfollows⟩, trailing⟩ := spelled
  cases pieces with
  | nil => exact absurd rfl hsome
  | cons first pieces =>
      obtain ⟨hclosed, hnormal⟩ := normalForm_spelled first pieces trailing
      -- the gap before the first symbol is dropped
      refine ⟨hclosed, { first with gap := [] } :: pieces, ⟨rfl, ?_⟩, hnormal⟩
      rw [List.isChain_cons] at hfollows ⊢
      exact hfollows

end RepoPolicy.Sql
