import Mathlib.Data.List.Basic
import RepoPolicy.Proofs.Sql.SymbolReading
import RepoPolicy.Proofs.Text.NameSets

set_option autoImplicit false

/-! # The tables of plain selects

A plain select takes columns from a list of tables and from tables that are joined to them. However
it is written, its tables are found by their keywords as they are written, and nothing else is
(`plain_select_tables_are_exact`). -/

namespace RepoPolicy.Sql

open RepoPolicy.Text RepoPolicy.Text.Scanner

/-! ## Plain selects -/

/-- The name under which a table is used, behind `AS` or without it. -/
structure Alias where
  withAs : Bool
  name : Identifier

def Alias.symbols (named : Alias) : List Symbol :=
  if named.withAs then [.keyword .asWord, .identifier named.name] else [.identifier named.name]

structure TableItem where
  name : Name
  alias? : Option Alias

def TableItem.symbols (item : TableItem) : List Symbol :=
  item.name.symbols ++ item.alias?.elim [] Alias.symbols

/-- A table that is joined, where two columns are equal if there is a condition. -/
structure Join where
  kind? : Option JoinKind
  table : TableItem
  condition? : Option (Name × Name)

def Join.kindSymbols (join : Join) : List Symbol :=
  join.kind?.elim [] fun kind => [.keyword (.kindWord kind)]

def Join.tail (join : Join) : List Symbol :=
  join.table.symbols ++ join.condition?.elim [] fun (left, right) =>
    .keyword .onWord :: (left.symbols ++ .equals :: right.symbols)

def Join.symbols (join : Join) : List Symbol :=
  join.kindSymbols ++ .keyword .joinWord :: join.tail

def commaList (first : List Symbol) (more : List (List Symbol)) : List Symbol :=
  first ++ more.flatMap (.comma :: ·)

/-- `SELECT c, ... FROM t, ...`, and joins. -/
structure PlainSelect where
  column : Name
  columns : List Name
  table : TableItem
  tables : List TableItem
  joins : List Join

namespace PlainSelect

def head (select : PlainSelect) : List Symbol :=
  .keyword .selectWord :: commaList select.column.symbols (select.columns.map Name.symbols)

def tableSymbols (select : PlainSelect) : List Symbol :=
  commaList select.table.symbols (select.tables.map TableItem.symbols)

def symbols (select : PlainSelect) : List Symbol :=
  select.head ++ .keyword .fromWord :: (select.tableSymbols ++ select.joins.flatMap Join.symbols)

def tableNames (select : PlainSelect) : List String :=
  (select.table :: select.tables).map (·.name.text) ++ select.joins.map (·.table.name.text)

end PlainSelect

/-! ## Single tables -/

theorem skipWord_only {name : Name} {rest : List Symbol} {pieces : List Placed}
    (h : Spells (name.symbols ++ rest) pieces) :
    skipWord "only" (trimStart (normalText pieces)) = trimStart (normalText pieces) := by
  obtain ⟨placed, more, rfl, hsymbol, -, hbefore⟩ := h.exists_of_cons
  have hword := placed.isWord_of_identifier hsymbol
  have honly : placed.spelling.map Char.toLower ≠ "only".toList :=
    placed.map_toLower_ne_of_identifier hsymbol (by decide)
  rw [trimStart_normalText, skipWord, readWord_pieces hword hbefore]
  exact if_neg (by simpa using honly)

theorem dot_mem_lowerFrom {text : List Char} (h : '.' ∈ text) (before : List Char) :
    '.' ∈ lowerFrom before text := by
  induction text generalizing before with
  | nil => cases h
  | cons c rest ih =>
      rw [lowerFrom, List.mem_append]
      rcases List.mem_cons.1 h with rfl | h
      · exact .inl List.mem_cons_self
      · exact .inr (ih h _)

/-- The name of a table is none of the words that name no table: such a word is reserved, and has no
dot. -/
theorem asTable_name (name : Name) : asTable name.text = [name.text] := by
  obtain ⟨first, more⟩ := name
  rw [asTable, if_neg]
  intro hword
  have hmem := List.contains_iff_mem.1 hword
  -- a name without a dot is no reserved word, and one with a dot is no word at all
  cases more with
  | nil =>
      have hbasic : ∀ c ∈ first.text, c.toNat < 128 := fun c hc =>
        toNat_lt_of_isNamePart (List.all_eq_true.1 first.parts c hc)
      have htext : Name.text ⟨first, []⟩ = String.ofList first.text := rfl
      have hfree := first.free
      rw [htext, lowercase, String.toList_ofList, lowerFrom_of_basic hbasic] at hmem
      simp [reservedWords, hmem] at hfree
  | cons next more =>
      have hdot : '.' ∈ (Name.text ⟨first, next :: more⟩).toList := by
        simp [Name.text, String.toList_intercalate, List.intercalate]
      have hlower : '.' ∈ (lowercase (Name.text ⟨first, next :: more⟩)).toList := by
        rw [lowercase, String.toList_ofList]
        exact dot_mem_lowerFrom hdot []
      have hnone : ∀ word ∈ nonTableWords, '.' ∉ word.toList := by decide
      exact hnone _ hmem hlower

theorem singleTable_pieces {name : Name} {rest : List Symbol} {pieces : List Placed}
    (h : Spells (name.symbols ++ rest) pieces) (hrest : rest.head? ≠ some .dot) :
    singleTable (trimStart (normalText pieces)) = [name.text] := by
  obtain ⟨back, -, hname⟩ := readName_pieces h hrest
  rw [singleTable, skipWord_only h, hname]
  exact asTable_name name

/-! ## Lists of tables -/

def Symbol.beginsJoin : Symbol → Bool
  | .keyword .joinWord => true
  | .keyword (.kindWord _) => true
  | _ => false

/-- Whether an item of a list of tables ends before the symbol. -/
def Symbol.endsItem (symbol : Symbol) : Bool := symbol.beginsJoin || symbol == .comma

theorem head?_ne_dot_of_endsItem {rest : List Symbol} (h : rest.head?.all Symbol.endsItem = true) :
    rest.head? ≠ some .dot := by
  intro hdot
  rw [hdot] at h
  cases h

theorem endsItem_of_beginsJoin {rest : List Symbol} (h : rest.head?.all Symbol.beginsJoin = true) :
    rest.head?.all Symbol.endsItem = true := by
  cases rest with
  | nil => rfl
  | cons symbol rest =>
      have hjoin : symbol.beginsJoin = true := h
      simp [Symbol.endsItem, hjoin]

theorem alias_head?_ne_dot (alias? : Option Alias) :
    (alias?.elim [] Alias.symbols).head? ≠ some .dot := by
  cases alias? with
  | none => simp
  | some named => cases hwithAs : named.withAs <;> simp [Alias.symbols, hwithAs]

theorem head?_append_ne_dot {first second : List Symbol} (hfirst : first.head? ≠ some .dot)
    (hsecond : second.head? ≠ some .dot) : (first ++ second).head? ≠ some .dot := by
  cases first with
  | nil => exact hsecond
  | cons symbol first => exact hfirst

/-- A word is passed over as an alias, unless it has a meaning there. -/
theorem skipAlias_word {placed : Placed} {more : List Placed} {lowered : String}
    (hword : placed.symbol.isWord = true) (h : placed.Before more)
    (hlowered : String.ofList (placed.spelling.map Char.toLower) = lowered) :
    skipAlias (trimStart (normalText (placed :: more))) =
      if lowered == "as" then
        (readName (trimStart (normalText more))).elim (trimStart (normalText more))
          fun (_, rest) => trimStart rest
      else if clauseWords.contains lowered then trimStart (normalText (placed :: more))
      else trimStart (normalText more) := by
  rw [← hlowered, ← lowercase_spelling, trimStart_normalText, skipAlias, readWord_pieces hword h]
  dsimp only
  cases readName (trimStart (normalText more)) <;> rfl

/-- Where an item ends, no alias is read. -/
theorem skipAlias_of_endsItem {rest : List Symbol} {pieces : List Placed} (h : Spells rest pieces)
    (hrest : rest.head?.all Symbol.endsItem = true) :
    skipAlias (trimStart (normalText pieces)) = trimStart (normalText pieces) := by
  cases rest with
  | nil =>
      obtain rfl := List.map_eq_nil_iff.1 h.symbols_eq
      rfl
  | cons symbol rest =>
      obtain ⟨placed, more, rfl, rfl, -, hbefore⟩ := h.exists_of_cons
      have hends : placed.symbol.endsItem = true := by simpa using hrest
      cases hsymbol : placed.symbol with
      | comma =>
          rw [trimStart_normalText, beq_iff_eq.1 (placed.isWrittenAs_of_symbol hsymbol)]
          rfl
      | keyword word =>
          -- the keywords that end an item are all among the words that begin a clause
          have hclause : ∀ word ∈ keywords, (Symbol.keyword word).endsItem = true →
              (word.letters == "as") = false ∧ clauseWords.contains word.letters = true := by decide
          rw [hsymbol] at hends
          obtain ⟨has, hcontains⟩ := hclause word (mem_keywords word) hends
          have hlowered : String.ofList (placed.spelling.map Char.toLower) = word.letters := by
            rw [placed.map_toLower_of_keyword hsymbol, String.ofList_toList]
          rw [skipAlias_word (placed.isWord_of_keyword hsymbol) hbefore hlowered, has, hcontains]
          rfl
      | _ =>
          rw [hsymbol] at hends
          cases hends

/-- An alias is passed over. -/
theorem skipAlias_pieces {alias? : Option Alias} {rest : List Symbol} {pieces : List Placed}
    (h : Spells (alias?.elim [] Alias.symbols ++ rest) pieces)
    (hrest : rest.head?.all Symbol.endsItem = true) :
    ∃ back, Spells rest back ∧
      skipAlias (trimStart (normalText pieces)) = trimStart (normalText back) := by
  cases alias? with
  | none => exact ⟨pieces, h, skipAlias_of_endsItem h hrest⟩
  | some named =>
      obtain ⟨withAs, name⟩ := named
      cases withAs with
      | true =>
          obtain ⟨placed, more, rfl, hsymbol, hmore, hbefore⟩ := h.exists_of_cons
          have hname : Spells (Name.symbols ⟨name, []⟩ ++ rest) more := hmore
          obtain ⟨back, hback, hread⟩ := readName_pieces hname (head?_ne_dot_of_endsItem hrest)
          have hlowered : String.ofList (placed.spelling.map Char.toLower) = "as" := by
            rw [placed.map_toLower_of_keyword hsymbol]
            rfl
          refine ⟨back, hback, ?_⟩
          rw [skipAlias_word (placed.isWord_of_keyword hsymbol) hbefore hlowered, hread]
          rfl
      | false =>
          obtain ⟨placed, back, rfl, hsymbol, hback, hbefore⟩ := h.exists_of_cons
          -- without `AS` the alias must not be a word that begins a clause
          have hlowered : ∀ word ∈ reservedWords,
              String.ofList (placed.spelling.map Char.toLower) ≠ word := by
            intro word hword heq
            exact placed.map_toLower_ne_of_identifier hsymbol hword (by
              rw [← heq, String.toList_ofList])
          refine ⟨back, hback, ?_⟩
          rw [skipAlias_word (placed.isWord_of_identifier hsymbol) hbefore rfl, if_neg, if_neg]
          · intro hclause
            refine hlowered _ ?_ rfl
            rw [reservedWords, List.mem_append, List.mem_append]
            exact .inl (.inr (List.contains_iff_mem.1 hclause))
          · rw [beq_iff_eq]
            exact hlowered "as" (by decide)

/-! ## Reading lists -/

def behindComma : List Char → Option (List Char)
  | ',' :: rest => some (trimStart rest)
  | _ => none

theorem readItem_pieces {item : TableItem} {rest : List Symbol} {pieces : List Placed}
    (h : Spells (item.symbols ++ rest) pieces) (hrest : rest.head?.all Symbol.endsItem = true) :
    ∃ back, Spells rest back ∧ readItem (trimStart (normalText pieces))
      = some ([item.name.text], behindComma (trimStart (normalText back))) := by
  rw [TableItem.symbols, List.append_assoc] at h
  have hdot := head?_append_ne_dot (alias_head?_ne_dot item.alias?) (head?_ne_dot_of_endsItem hrest)
  obtain ⟨named, hnamed, hname⟩ := readName_pieces h hdot
  obtain ⟨back, hback, halias⟩ := skipAlias_pieces hnamed hrest
  refine ⟨back, hback, ?_⟩
  -- the symbols have no parentheses, so the name is not called
  have hcall : ∀ arguments, trimStart (normalText named) ≠ '(' :: arguments := by
    intro arguments hcall
    have hmem : '(' ∈ trimStart (normalText named) := by
      rw [hcall]
      exact List.mem_cons_self
    exact not_mem_normalText (by decide) (by decide) ((List.dropWhile_suffix isBlank).subset hmem)
  rw [← skipWord_only h] at hname
  rw [readItem_of_name hname hcall, asTable_name, afterComma, halias]
  rfl

theorem listed_iff_of_readItem {text : List Char} {tables : List String}
    {next : Option (List Char)} (h : readItem text = some (tables, next)) {table : String} :
    Listed text table ↔ table ∈ tables ∨ ∃ rest ∈ next, Listed rest table := by
  constructor
  · intro hlisted
    cases hlisted with
    | here hitem htable =>
        obtain ⟨rfl, rfl⟩ := Prod.mk.inj (Option.some.inj (hitem.symm.trans h))
        exact .inl htable
    | later hitem hnext =>
        obtain ⟨rfl, rfl⟩ := Prod.mk.inj (Option.some.inj (hitem.symm.trans h))
        exact .inr ⟨_, rfl, hnext⟩
  · rintro (htable | ⟨rest, hrest, hlisted⟩)
    · exact .here h htable
    · obtain rfl := Option.mem_def.1 hrest
      exact .later h hlisted

theorem behindComma_of_beginsJoin {rest : List Symbol} {pieces : List Placed}
    (h : Spells rest pieces) (hrest : rest.head?.all Symbol.beginsJoin = true) :
    behindComma (trimStart (normalText pieces)) = none := by
  cases rest with
  | nil =>
      obtain rfl := List.map_eq_nil_iff.1 h.symbols_eq
      rfl
  | cons symbol rest =>
      obtain ⟨placed, more, rfl, rfl, -, -⟩ := h.exists_of_cons
      -- a join begins with a keyword, and no word begins with a comma
      have hword : placed.symbol.isWord = true := by
        cases hsymbol : placed.symbol with
        | keyword word => rfl
        | _ =>
            rw [hsymbol] at hrest
            cases hrest
      obtain ⟨c, letters, hspelling, hc⟩ := Placed.exists_of_isWord hword
      rw [trimStart_normalText, hspelling, List.cons_append, behindComma.eq_def]
      split
      · rename_i htext
        obtain ⟨rfl, -⟩ := List.cons.inj htext
        cases hc
      · rfl

/-- **A list of tables is read item by item**, up to the first join. -/
theorem listed_pieces {item : TableItem} {items : List TableItem} {rest : List Symbol}
    {pieces : List Placed}
    (h : Spells (commaList item.symbols (items.map TableItem.symbols) ++ rest) pieces)
    (hrest : rest.head?.all Symbol.beginsJoin = true) {table : String} :
    Listed (trimStart (normalText pieces)) table ↔ table ∈ (item :: items).map (·.name.text) := by
  induction items generalizing item pieces with
  | nil =>
      have hends := endsItem_of_beginsJoin hrest
      have hitem : Spells (item.symbols ++ rest) pieces := by simpa [commaList] using h
      obtain ⟨back, hback, hread⟩ := readItem_pieces hitem hends
      rw [listed_iff_of_readItem hread, behindComma_of_beginsJoin hback hrest]
      simp
  | cons next items ih =>
      have hitem : Spells (item.symbols ++
          .comma :: (commaList next.symbols (items.map TableItem.symbols) ++ rest)) pieces := by
        simpa [commaList] using h
      obtain ⟨back, hback, hread⟩ := readItem_pieces hitem rfl
      obtain ⟨comma, others, rfl, hsymbol, hothers, -⟩ := hback.exists_of_cons
      -- behind the comma the rest of the list is read in the same way
      have hcomma : behindComma (trimStart (normalText (comma :: others)))
          = some (trimStart (normalText others)) := by
        rw [trimStart_normalText, beq_iff_eq.1 (comma.isWrittenAs_of_symbol hsymbol)]
        rfl
      rw [listed_iff_of_readItem hread, hcomma]
      simp [ih hothers]

/-! ## Where the keywords are -/

theorem keyword_not_mem_name (name : Name) (word : Keyword) : .keyword word ∉ name.symbols := by
  simp [Name.symbols]

theorem keyword_not_mem_item (item : TableItem) {word : Keyword} (hword : word ≠ .asWord) :
    .keyword word ∉ item.symbols := by
  rw [TableItem.symbols, List.mem_append, not_or]
  refine ⟨keyword_not_mem_name item.name word, ?_⟩
  cases item.alias? with
  | none => exact List.not_mem_nil
  | some named => cases hwithAs : named.withAs <;> simp [Alias.symbols, hwithAs, hword]

theorem keyword_not_mem_tail (join : Join) {word : Keyword} (hword : word ≠ .asWord)
    (hon : word ≠ .onWord) : .keyword word ∉ join.tail := by
  rw [Join.tail, List.mem_append, not_or]
  refine ⟨keyword_not_mem_item join.table hword, ?_⟩
  cases join.condition? with
  | none => exact List.not_mem_nil
  | some condition => simp [keyword_not_mem_name, hon]

theorem fromWord_not_mem_join (join : Join) : .keyword .fromWord ∉ join.symbols := by
  rw [Join.symbols, Join.kindSymbols, List.mem_append, List.mem_cons]
  have htail : .keyword .fromWord ∉ join.tail := keyword_not_mem_tail join (by decide) (by decide)
  cases join.kind? <;> simp [htail]

theorem keyword_not_mem_commaList {first : List Symbol} {more : List (List Symbol)} {word : Keyword}
    (hfirst : .keyword word ∉ first) (hmore : ∀ item ∈ more, .keyword word ∉ item) :
    .keyword word ∉ commaList first more := by
  rw [commaList, List.mem_append, List.mem_flatMap]
  rintro (hmem | ⟨item, hitem, hmem⟩)
  · exact hfirst hmem
  · rcases List.mem_cons.1 hmem with hcomma | hmem
    · cases hcomma
    · exact hmore item hitem hmem

theorem keyword_not_mem_head (select : PlainSelect) {word : Keyword} (hword : word ≠ .selectWord) :
    .keyword word ∉ select.head := by
  rw [PlainSelect.head, List.mem_cons, not_or]
  refine ⟨by simpa using hword, keyword_not_mem_commaList (keyword_not_mem_name _ _) ?_⟩
  intro item hitem
  obtain ⟨name, -, rfl⟩ := List.mem_map.1 hitem
  exact keyword_not_mem_name name word

theorem keyword_not_mem_tableSymbols (select : PlainSelect) {word : Keyword}
    (hword : word ≠ .asWord) : .keyword word ∉ select.tableSymbols := by
  refine keyword_not_mem_commaList (keyword_not_mem_item _ hword) ?_
  intro symbols hsymbols
  obtain ⟨item, -, rfl⟩ := List.mem_map.1 hsymbols
  exact keyword_not_mem_item item hword

theorem PlainSelect.behind_from {select : PlainSelect} {front back : List Symbol}
    (h : select.symbols = front ++ .keyword .fromWord :: back) :
    back = select.tableSymbols ++ select.joins.flatMap Join.symbols := by
  have hjoins : .keyword .fromWord ∉ select.tableSymbols ++ select.joins.flatMap Join.symbols := by
    rw [List.mem_append, List.mem_flatMap]
    rintro (hmem | ⟨join, -, hmem⟩)
    · exact keyword_not_mem_tableSymbols select (by decide) hmem
    · exact fromWord_not_mem_join join hmem
  -- the keyword occurs once, so there is one way to split
  rw [PlainSelect.symbols,
    List.append_cons_inj_of_notMem (keyword_not_mem_head select (by decide)) hjoins] at h
  exact h.2.2.symm

theorem exists_of_append_eq {symbol : Symbol} {first second front back : List Symbol}
    (hfirst : symbol ∉ first) (h : first ++ second = front ++ symbol :: back) :
    ∃ others, second = others ++ symbol :: back := by
  rcases List.append_eq_append_iff.1 h with ⟨others, -, hsecond⟩ | ⟨others, rfl, hothers⟩
  · exact ⟨others, hsecond⟩
  · cases others with
    | nil => exact ⟨[], hothers.symm⟩
    | cons other others =>
        obtain ⟨rfl, -⟩ := List.cons.inj hothers
        exact absurd (List.mem_append_right _ List.mem_cons_self) hfirst

/-- Behind `JOIN` stands what is joined there, and the joins behind it. -/
theorem exists_join_of_split {joins : List Join} {front back : List Symbol}
    (h : joins.flatMap Join.symbols = front ++ .keyword .joinWord :: back) :
    ∃ join ∈ joins, ∃ later : List Join, back = join.tail ++ later.flatMap Join.symbols := by
  induction joins generalizing front with
  | nil => simp at h
  | cons join joins ih =>
      have hkind : .keyword .joinWord ∉ join.kindSymbols := by
        rw [Join.kindSymbols]
        cases join.kind? <;> simp
      rw [List.flatMap_cons, Join.symbols, List.append_assoc] at h
      obtain ⟨others, hothers⟩ := exists_of_append_eq hkind h
      cases others with
      | nil =>
          obtain ⟨-, rfl⟩ := List.cons.inj hothers
          exact ⟨join, List.mem_cons_self, joins, rfl⟩
      | cons other others =>
          -- a later one
          obtain ⟨-, hlater⟩ := List.cons.inj hothers
          obtain ⟨others, hlater⟩ :=
            exists_of_append_eq (keyword_not_mem_tail join (by decide) (by decide)) hlater
          obtain ⟨found, hfound, later, hback⟩ := ih hlater
          exact ⟨found, List.mem_cons_of_mem _ hfound, later, hback⟩

theorem PlainSelect.behind_join {select : PlainSelect} {front back : List Symbol}
    (h : select.symbols = front ++ .keyword .joinWord :: back) :
    ∃ join ∈ select.joins, ∃ later : List Join,
      back = join.tail ++ later.flatMap Join.symbols := by
  rw [PlainSelect.symbols] at h
  obtain ⟨others, hothers⟩ := exists_of_append_eq (keyword_not_mem_head select (by decide)) h
  rw [← List.cons_append] at hothers
  have htables : .keyword .joinWord ∉ .keyword .fromWord :: select.tableSymbols := by
    rw [List.mem_cons, not_or]
    exact ⟨by simp, keyword_not_mem_tableSymbols select (by decide)⟩
  obtain ⟨others, hothers⟩ := exists_of_append_eq htables hothers
  exact exists_join_of_split hothers

/-- Every join begins behind the tables and the earlier joins. -/
theorem PlainSelect.symbols_of_join {select : PlainSelect} {earlier later : List Join} {join : Join}
    (h : select.joins = earlier ++ join :: later) :
    select.symbols = (select.head ++ .keyword .fromWord :: (select.tableSymbols ++
      earlier.flatMap Join.symbols ++ join.kindSymbols)) ++
        .keyword .joinWord :: (join.tail ++ later.flatMap Join.symbols) := by
  simp [PlainSelect.symbols, h, Join.symbols]

/-! ## What the keywords read -/

theorem head?_joins (joins : List Join) :
    (joins.flatMap Join.symbols).head?.all Symbol.beginsJoin = true := by
  cases joins with
  | nil => rfl
  | cons join joins =>
      cases hkind : join.kind? <;>
        simp [Join.symbols, Join.kindSymbols, hkind, Symbol.beginsJoin]

/-- A gap is between a keyword and a name. -/
theorem afterBlanks_identifier {placed : Placed} {back : List Placed} {name : Identifier}
    {rest : List Symbol} (hword : placed.symbol.isWord = true) (hbefore : placed.Before back)
    (h : Spells (.identifier name :: rest) back) :
    afterBlanks (normalText back) = some (trimStart (normalText back)) := by
  obtain ⟨first, more, rfl, hsymbol, -, -⟩ := h.exists_of_cons
  exact afterBlanks_normalText
    (gap_ne_nil_of_follows (hbefore first rfl) hword (first.isWord_of_identifier hsymbol))

/-- No table is called `LATERAL`. -/
theorem lead_lateral {back : List Placed} {name : Identifier} {rest : List Symbol}
    (h : Spells (.identifier name :: rest) back) :
    lead "lateral" (trimStart (normalText back)) = none := by
  obtain ⟨first, more, rfl, hsymbol, -, hbefore⟩ := h.exists_of_cons
  rw [trimStart_normalText]
  exact lead_of_reserved ⟨by decide, by decide⟩ (by decide) (by decide)
    (first.isWord_of_identifier hsymbol) hbefore

theorem reads_iff_of_from {select : PlainSelect} {placed : Placed} {back : List Placed}
    (hkeyword : placed.symbol = .keyword .fromWord) (hbefore : placed.Before back)
    (h : Spells (select.tableSymbols ++ select.joins.flatMap Join.symbols) back) {table : String} :
    placed.Reads back table ↔ table ∈ (select.table :: select.tables).map (·.name.text) := by
  have hback := afterBlanks_identifier (placed.isWord_of_keyword hkeyword) hbefore h
  rw [← listed_pieces h (head?_joins _)]
  constructor
  · intro hreads
    cases hreads with
    | inList _ hback' htable =>
        obtain rfl := Option.some.inj (hback.symm.trans hback')
        exact htable
    | alone hkeyword' => cases hkeyword.symm.trans hkeyword'
  · exact fun htable => .inList hkeyword hback htable

theorem reads_iff_of_join {join : Join} {later : List Join} {placed : Placed} {back : List Placed}
    (hkeyword : placed.symbol = .keyword .joinWord) (hbefore : placed.Before back)
    (h : Spells (join.tail ++ later.flatMap Join.symbols) back) {table : String} :
    placed.Reads back table ↔ table = join.table.name.text := by
  have hback := afterBlanks_identifier (placed.isWord_of_keyword hkeyword) hbefore h
  have hlateral := lead_lateral h
  -- behind the table stands no dot: an alias, a condition, the next join or the end
  have hsingle : singleTable (trimStart (normalText back)) = [join.table.name.text] := by
    rw [Join.tail, TableItem.symbols, List.append_assoc, List.append_assoc] at h
    refine singleTable_pieces h (head?_append_ne_dot (alias_head?_ne_dot _)
      (head?_append_ne_dot ?_ ?_))
    · cases join.condition? <;> simp
    · exact head?_ne_dot_of_endsItem (endsItem_of_beginsJoin (head?_joins later))
  constructor
  · intro hreads
    cases hreads with
    | inList hkeyword' => cases hkeyword.symm.trans hkeyword'
    | alone _ hback' htable =>
        obtain rfl := Option.some.inj (hback.symm.trans hback')
        rw [hlateral, Option.getD_none, hsingle] at htable
        exact List.mem_singleton.1 htable
  · rintro rfl
    refine .alone hkeyword hback ?_
    rw [hlateral, Option.getD_none, hsingle]
    exact List.mem_singleton_self _

/-- **The tables that are named in a plain select** are its tables. -/
theorem namesTable_select_iff {select : PlainSelect} {pieces : List Placed}
    (h : Spells select.symbols pieces) {table : String} :
    NamesTable (normalText pieces) table ↔ table ∈ select.tableNames := by
  rw [namesTable_iff h, PlainSelect.tableNames, List.mem_append]
  constructor
  · rintro ⟨front, placed, back, rfl, hreads⟩
    obtain ⟨hsymbols, hback, hbefore⟩ := h.behind
    cases hreads with
    | inList hkeyword hgap htable =>
        rw [hkeyword] at hsymbols
        rw [PlainSelect.behind_from hsymbols] at hback
        exact .inl ((reads_iff_of_from hkeyword hbefore hback).1 (.inList hkeyword hgap htable))
    | alone hkeyword hgap htable =>
        rw [hkeyword] at hsymbols
        -- each `JOIN` of the text is that of one of the joins, for it stands nowhere else
        obtain ⟨join, hjoin, later, hlater⟩ := PlainSelect.behind_join hsymbols
        rw [hlater] at hback
        rw [(reads_iff_of_join hkeyword hbefore hback).1 (.alone hkeyword hgap htable)]
        exact .inr (List.mem_map_of_mem hjoin)
  · rintro (htable | htable)
    · obtain ⟨front, placed, back, hpieces, hkeyword, hback, hbefore⟩ := h.exists_of_append_cons
      exact ⟨front, placed, back, hpieces, (reads_iff_of_from hkeyword hbefore hback).2 htable⟩
    · obtain ⟨join, hjoin, rfl⟩ := List.mem_map.1 htable
      obtain ⟨earlier, later, hjoins⟩ := List.append_of_mem hjoin
      rw [PlainSelect.symbols_of_join hjoins] at h
      obtain ⟨front, placed, back, hpieces, hkeyword, hback, hbefore⟩ := h.exists_of_append_cons
      exact ⟨front, placed, back, hpieces, (reads_iff_of_join hkeyword hbefore hback).2 rfl⟩

theorem deepestLevel_of_not_mem {text : List Char} (h : '(' ∉ text) : deepestLevel text = 0 := by
  -- nothing raises the level, and a closing parenthesis leaves it at zero
  have hlevels : ∀ quoted, (levelsFrom ⟨0, quoted⟩ text).foldl max 0 = 0 := by
    induction text with
    | nil => exact fun _ => rfl
    | cons c rest ih =>
        intro quoted
        rw [List.mem_cons, not_or] at h
        have hlevel : Nesting.levelOf ⟨0, quoted⟩ c = 0 := by
          rw [Nesting.levelOf]
          split <;> rfl
        obtain ⟨quoted', hread⟩ : ∃ quoted', Nesting.read ⟨0, quoted⟩ c = ⟨0, quoted'⟩ := by
          have hc : (c == '(') = false := by simpa using Ne.symm h.1
          simp only [Nesting.read, hc, Bool.false_eq_true, if_false]
          repeat' split
          all_goals exact ⟨_, rfl⟩
        rw [levelsFrom, hlevel, hread, List.foldl_cons]
        exact ih h.2 quoted'
  exact hlevels false

/-- **The tables of a plain select are found exactly**, however it is written and whatever the limit
on parentheses is: its tables are the names behind `FROM` and `JOIN`, as they are written, and no
`WITH` name is found. -/
theorem plain_select_tables_are_exact (select : PlainSelect) (written : Spelled select.symbols)
    (limit : Nat) :
    scanReferences written.sql limit
      = .ok { tables := NameSet.ofList select.tableNames, cteNames := [] } := by
  obtain ⟨hclosed, pieces, hspells, hnormal⟩ := written.exists_normal (by
    simp [PlainSelect.symbols])
  have hlist : (normalize written.sql).toList = normalText pieces := by
    rw [normalize, Spelled.sql, String.toList_ofList, String.toList_ofList, hnormal]
  have hsome : (normalize written.sql).isEmpty = false := by
    obtain ⟨placed, more, rfl, -⟩ := hspells.exists_of_cons
    rw [Bool.eq_false_iff, ne_eq, String.isEmpty_iff, ← String.toList_eq_nil_iff, hlist,
      normalText_cons, Placed.normal]
    simp [placed.spelling_ne_nil]
  have hquote : openQuote written.sql = none := by
    rw [openQuote, Spelled.sql, String.toList_ofList, hclosed]
  have hdeepest : deepestLevel (normalText pieces) = 0 :=
    deepestLevel_of_not_mem (not_mem_normalText (by decide) (by decide))
  have htables : NameSet.ofList (scannedTables (normalText pieces))
      = NameSet.ofList select.tableNames :=
    NameSet.ofList_congr fun table => by
      rw [mem_scannedTables_iff, namesTable_select_iff hspells]
  have hctes : cteNames (normalize written.sql) = [] := by
    rw [cteNames, hlist, not_occursIn_withClause hspells]
    rfl
  rw [scanReferences]
  simp only [hsome, hquote, hlist, hdeepest, htables, hctes]
  rfl

namespace CommentedSelect

def orders : Identifier := ⟨"Orders".toList, by decide, by decide, by decide⟩

def shop : Identifier := ⟨"shop".toList, by decide, by decide, by decide⟩

def number : Identifier := ⟨"id".toList, by decide, by decide, by decide⟩

/-- A select in which names occur as tables, columns and aliases. -/
def select : PlainSelect where
  column := ⟨orders, [number]⟩
  columns := [⟨number, []⟩]
  table := ⟨⟨orders, []⟩, some ⟨false, number⟩⟩
  tables := [⟨⟨shop, [orders]⟩, none⟩]
  joins := [⟨some .left, ⟨⟨shop, []⟩, some ⟨true, orders⟩⟩,
    some (⟨orders, [number]⟩, ⟨shop, [number]⟩)⟩]

def space : List Separator := [.blank ' ' (by decide)]

def written : Spelled select.symbols where
  pieces := [
    ⟨[], .keyword .selectWord, "Select".toList, by decide⟩,
    ⟨[.blockComment " FROM x, ".toList (by decide)], .identifier orders, _, beq_self_eq_true _⟩,
    ⟨[], .dot, _, beq_self_eq_true _⟩,
    ⟨[], .identifier number, _, beq_self_eq_true _⟩,
    ⟨[], .comma, _, beq_self_eq_true _⟩,
    ⟨[], .identifier number, _, beq_self_eq_true _⟩,
    ⟨space, .keyword .fromWord, "FROM".toList, by decide⟩,
    ⟨[.lineComment " JOIN y".toList (by decide)], .identifier orders, _, beq_self_eq_true _⟩,
    ⟨space, .identifier number, _, beq_self_eq_true _⟩,
    ⟨space, .comma, _, beq_self_eq_true _⟩,
    ⟨[], .identifier shop, _, beq_self_eq_true _⟩,
    ⟨[], .dot, _, beq_self_eq_true _⟩,
    ⟨[], .identifier orders, _, beq_self_eq_true _⟩,
    ⟨space, .keyword (.kindWord .left), "left".toList, by decide⟩,
    ⟨space, .keyword .joinWord, "Join".toList, by decide⟩,
    ⟨space, .identifier shop, _, beq_self_eq_true _⟩,
    ⟨space, .keyword .asWord, "AS".toList, by decide⟩,
    ⟨space, .identifier orders, _, beq_self_eq_true _⟩,
    ⟨space, .keyword .onWord, "on".toList, by decide⟩,
    ⟨space, .identifier orders, _, beq_self_eq_true _⟩,
    ⟨[], .dot, _, beq_self_eq_true _⟩,
    ⟨[], .identifier number, _, beq_self_eq_true _⟩,
    ⟨[], .equals, _, beq_self_eq_true _⟩,
    ⟨[], .identifier shop, _, beq_self_eq_true _⟩,
    ⟨[], .dot, _, beq_self_eq_true _⟩,
    ⟨[], .identifier number, _, beq_self_eq_true _⟩]
  spells := ⟨rfl, by decide⟩
  trailing := space

theorem tables_of_written :
    written.sql = "Select/* FROM x, */Orders.id,id FROM-- JOIN y\nOrders id ,shop.Orders" ++
        " left Join shop AS Orders on Orders.id=shop.id " ∧
      scanReferences written.sql 0 = .ok ⟨["Orders", "shop", "shop.Orders"], []⟩ :=
  ⟨by decide +kernel, (plain_select_tables_are_exact select written 0).trans (by decide +kernel)⟩

end CommentedSelect

end RepoPolicy.Sql
