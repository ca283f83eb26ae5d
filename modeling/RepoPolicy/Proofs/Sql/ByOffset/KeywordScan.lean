import Mathlib.Data.List.TakeWhile
import RepoPolicy.Proofs.Sql.ByOffset.Nesting
import RepoPolicy.Proofs.Sql.ByOffset.NormalForm
import RepoPolicy.Proofs.Sql.TableNames

set_option autoImplicit false

/-! # Finding tables by offsets

The tables of a text are read at offsets: behind each keyword the text is cut, a name is measured,
and the offset behind it is worked out. If an end of the text begins at the offset, none of this goes
wrong, and what is found is what is read off that end, with the offset at which the rest of it begins
(`gives_readName`, `gives_itemTurn`). The offset moves forward with each part of a name and with each
item of a list. -/

namespace RepoPolicy.Sql.ByOffset

open RepoPolicy.Text RepoPolicy.Text.Scanner

/-! ## Words and names -/

def skipBlanks (text : List Char) (offset : Nat) : Checked Nat := do
  let rest ← cutBehind text offset
  minus (offset + width rest) (width (trimStart rest))

def readWord (text : List Char) (offset : Nat) : Checked (Option (List Char × Nat)) := do
  let rest ← cutBehind text offset
  match Sql.readWord rest with
  | none => return none
  | some (word, _) => return some (← cutBefore rest (width word), offset + width word)

/-- What stands between the delimiter at an offset and the closing one, and the offset behind it. -/
def readQuoted (close : Char) (text : List Char) (offset : Nat) :
    Checked (Option (List Char × Nat)) := do
  let inner ← cutBehind text (offset + 1)
  match readUntil close inner with
  | none => return none
  | some (inside, _) =>
    return some (← cutBefore inner (width inside), offset + 1 + width inside + 1)

def readPart (text : List Char) (offset : Nat) : Checked (Option (List Char × Nat)) := do
  match ← cutBehind text offset with
  | [] => return none
  | c :: _ =>
    if c == '"' then readQuoted '"' text offset
    else if c.toNat == 96 then readQuoted c text offset
    else if c == '[' then readQuoted ']' text offset
    else readWord text offset

/-- A turn of the loop that reads a name: the offset, and the parts that have been read. -/
def partTurn (text : List Char) (state : Nat × List (List Char)) :
    Checked (Turn (Nat × List (List Char)) (Option (String × Nat))) := do
  match ← readPart text state.1 with
  | none => return .stop none
  | some (part, stop) =>
    let parts := state.2 ++ [part]
    if (← cutBehind text stop).head? = some '.' then return .goOn (stop + 1, parts)
    else return .stop (some (".".intercalate (parts.map String.ofList), stop))

def readName (text : List Char) (offset : Nat) : Checked (Option (String × Nat)) :=
  loop (width text) Prod.fst (partTurn text) (offset, [])

section Names

variable {text rest : List Char} {offset : Nat}

/-- The same is read at an offset as off an end of the text, and what is left of it begins at the
offset that is found. -/
inductive Reads (text : List Char) {α : Type} : Option (α × List Char) → Option (α × Nat) → Prop
  | none : Reads text none none
  | some (value : α) {left : List Char} {stop : Nat} (h : BeginsAt text left stop) :
      Reads text (some (value, left)) (some (value, stop))

theorem gives_skipBlanks (h : BeginsAt text rest offset) :
    Gives (skipBlanks text offset) (BeginsAt text (trimStart rest)) := by
  obtain ⟨blanks, hblanks⟩ : trimStart rest <:+ rest := List.dropWhile_suffix _
  rw [skipBlanks, h.cutBehind_eq, ok_bind]
  generalize trimStart rest = left at hblanks ⊢
  subst hblanks
  have hbehind := h.behind blanks
  rw [h.add_width, ← hbehind.add_width, minus_of_le (Nat.le_add_left _ _), Nat.add_sub_cancel]
  exact gives_ok hbehind

theorem append_of_readWord {word left : List Char} (h : Sql.readWord rest = some (word, left)) :
    rest = word ++ left := by
  cases rest with
  | nil => cases h
  | cons c rest =>
      rw [Sql.readWord] at h
      split at h
      · obtain ⟨rfl, rfl⟩ := Prod.mk.inj (Option.some.inj h)
        exact List.takeWhile_append_dropWhile.symm
      · cases h

theorem append_of_readUntil {close : Char} {inside left : List Char}
    (h : readUntil close rest = some (inside, left)) : rest = inside ++ close :: left := by
  rw [readUntil] at h
  split at h
  · rename_i c more hdrop
    obtain ⟨rfl, rfl⟩ := Prod.mk.inj (Option.some.inj h)
    have hclose : c = close := by simpa [hdrop] using List.head?_dropWhile_not (· != close) rest
    rw [← hclose, ← hdrop, hclose, List.takeWhile_append_dropWhile]
  · cases h

theorem gives_readWord (h : BeginsAt text rest offset) :
    Gives (readWord text offset) (Reads text (Sql.readWord rest)) := by
  rw [readWord, h.cutBehind_eq, ok_bind]
  cases hword : Sql.readWord rest with
  | none => exact gives_ok Reads.none
  | some found =>
      obtain rfl := append_of_readWord hword
      dsimp only
      rw [cutBefore_append]
      exact gives_ok (Reads.some _ (h.behind found.1))

theorem gives_readQuoted {c close : Char} (hc : c.toNat < 128) (hclose : close.toNat < 128)
    (h : BeginsAt text (c :: rest) offset) :
    Gives (readQuoted close text offset) (Reads text (readUntil close rest)) := by
  have hinner := h.tail hc
  rw [readQuoted, hinner.cutBehind_eq, ok_bind]
  cases hread : readUntil close rest with
  | none => exact gives_ok Reads.none
  | some found =>
      obtain rfl := append_of_readUntil hread
      dsimp only
      rw [cutBefore_append]
      exact gives_ok (Reads.some _ ((hinner.behind found.1).tail hclose))

theorem gives_readPart (h : BeginsAt text rest offset) :
    Gives (readPart text offset) (Reads text (Sql.readPart rest)) := by
  rw [readPart, h.cutBehind_eq, ok_bind]
  cases rest with
  | nil => exact gives_ok Reads.none
  | cons c rest =>
      rw [Sql.readPart]
      dsimp only
      -- the three kinds of quotes, of which each is one byte, and a word
      split
      · obtain rfl := beq_iff_eq.1 ‹_›
        exact gives_readQuoted (by decide) (by decide) h
      · split
        · have hcode : c.toNat = 96 := beq_iff_eq.1 ‹_›
          exact gives_readQuoted (by omega) (by omega) h
        · split
          · obtain rfl := beq_iff_eq.1 ‹_›
            exact gives_readQuoted (by decide) (by decide) h
          · exact gives_readWord h

theorem readParts_of_readPart {part left : List Char} (h : Sql.readPart rest = some (part, left))
    (fuel : Nat) :
    readParts (fuel + 1) rest = if left.head? = some '.' then
        (readParts fuel left.tail).map fun found => (part :: found.1, found.2)
      else some ([part], left) := by
  rw [readParts, h, Option.bind_eq_bind, Option.bind_some]
  dsimp only
  split
  · rw [List.head?_cons, if_pos rfl, List.tail_cons, Option.map_eq_bind]
    rfl
  · rename_i hdot
    rw [if_neg fun hhead => ?_]
    · rfl
    · obtain ⟨more, rfl⟩ := List.head?_eq_some_iff.1 hhead
      exact hdot more rfl

/-- Parts are read until no dot follows, and each moves the offset forward. -/
theorem gives_readName (h : BeginsAt text rest offset) :
    Gives (readName text offset) (Reads text (Sql.readName rest)) := by
  -- The parts that have been read make up the name with those from the offset on.
  refine (gives_loop (fun state => ∃ fuel last, last.length ≤ fuel ∧ BeginsAt text last state.1 ∧
    Sql.readName rest = (readParts fuel last).map fun found =>
      (".".intercalate ((state.2 ++ found.1).map String.ofList), found.2))
    (fun state hstate => ?_) ⟨rest.length, rest, Nat.le_refl _, h, ?_⟩).1
  · obtain ⟨fuel, last, hfuel, hbegins, hname⟩ := hstate
    rw [hname]
    refine (gives_readPart hbegins).bind fun found hfound => ?_
    cases hpart : Sql.readPart last with
    | none =>
        rw [hpart] at hfound
        cases hfound
        cases fuel with
        | zero => exact gives_ok Reads.none
        | succ fuel =>
            rw [readParts, hpart]
            exact gives_ok Reads.none
    | some read =>
        have hshorter := length_of_readPart hpart
        rw [hpart] at hfound
        obtain _ | ⟨part, hleft⟩ := hfound
        obtain ⟨fuel, rfl⟩ : ∃ less, fuel = less + 1 :=
          Nat.exists_eq_succ_of_ne_zero (by omega)
        dsimp only
        rw [hleft.cutBehind_eq, ok_bind]
        rw [readParts_of_readPart hpart]
        split
        · obtain ⟨more, rfl⟩ := List.head?_eq_some_iff.1 ‹_›
          rw [List.length_cons] at hshorter
          have htail := hleft.tail (by decide)
          have hend := htail.add_width
          refine gives_ok ⟨⟨fuel, more, by omega, htail, ?_⟩, (hbegins.lt_iff htail).2 (by omega),
            by omega⟩
          rw [Option.map_map]
          simp [Function.comp_def]
        · exact gives_ok (Reads.some _ hleft)
  · rw [Sql.readName]
    cases readParts rest.length rest <;> rfl

end Names

/-! ## What follows a keyword -/

def skipWord (word : String) (text : List Char) (offset : Nat) : Checked Nat := do
  match ← readWord text offset with
  | none => return offset
  | some (found, stop) =>
    if found.map Char.toLower == word.toList then skipBlanks text stop else return offset

def skipAlias (text : List Char) (offset : Nat) : Checked Nat := do
  match ← readWord text offset with
  | none => return offset
  | some (word, stop) =>
    let lowered := lowercase (String.ofList word)
    if lowered == "as" then
      let afterAs ← skipBlanks text stop
      match ← readName text afterAs with
      | none => return afterAs
      | some (_, stop) => skipBlanks text stop
    else if clauseWords.contains lowered then return offset
    else skipBlanks text stop

/-- The end of a turn behind an item of a list: another item follows a comma. -/
def behindItem (text : List Char) (offset : Nat) (tables : List String) :
    Checked (Turn (Nat × List String) (List String)) := do
  let offset ← skipAlias text offset
  if (← cutBehind text offset).head? = some ',' then
    return .goOn (← skipBlanks text (offset + 1), tables)
  else return .stop tables

/-- A turn of the loop that reads a list of tables: the offset, and the tables found so far. -/
def itemTurn (text : List Char) (state : Nat × List String) :
    Checked (Turn (Nat × List String) (List String)) := do
  let offset ← skipWord "only" text state.1
  match ← readName text offset with
  | none => return .stop state.2
  | some (name, stop) =>
    let offset ← skipBlanks text stop
    if (← cutBehind text offset).head? = some '(' then
      match ← closing (locate ['(', ')'] ((bytes text).drop offset) offset) 0 with
      | none => return .stop state.2
      | some close => behindItem text (← skipBlanks text (close + 1)) state.2
    else behindItem text offset (state.2 ++ asTable name)

def tableList (text : List Char) (offset : Nat) : Checked (List String) :=
  loop (width text) Prod.fst (itemTurn text) (offset, [])

def singleTable (text : List Char) (offset : Nat) : Checked (List String) := do
  let offset ← skipWord "only" text offset
  match ← readName text offset with
  | none => return []
  | some (name, _) => return asTable name

section Lists

variable {text rest : List Char} {offset : Nat}

theorem gives_skipWord (word : String) (h : BeginsAt text rest offset) :
    Gives (skipWord word text offset) (BeginsAt text (Sql.skipWord word rest)) := by
  rw [Sql.skipWord]
  refine (gives_readWord h).bind fun found hfound => ?_
  generalize Sql.readWord rest = read at hfound ⊢
  cases hfound with
  | none => exact gives_ok h
  | some found hleft =>
      dsimp only
      split
      · exact gives_skipBlanks hleft
      · exact gives_ok h

theorem gives_skipAlias (h : BeginsAt text rest offset) :
    Gives (skipAlias text offset) (BeginsAt text (Sql.skipAlias rest)) := by
  rw [Sql.skipAlias]
  refine (gives_readWord h).bind fun found hfound => ?_
  generalize Sql.readWord rest = read at hfound ⊢
  cases hfound with
  | none => exact gives_ok h
  | some word hleft =>
      dsimp only
      -- behind `as` any name is taken, and without it a word that begins no clause
      split
      · refine (gives_skipBlanks hleft).bind fun afterAs hafterAs => ?_
        refine (gives_readName hafterAs).bind fun found hfound => ?_
        generalize Sql.readName _ = read at hfound ⊢
        cases hfound with
        | none => exact gives_ok hafterAs
        | some _ hmore => exact gives_skipBlanks hmore
      · split
        · exact gives_ok h
        · exact gives_skipBlanks hleft

/-- A turn ends the list with these tables, or goes on where the next item begins. -/
inductive Continues (text : List Char) (tables : List String) :
    Option (List Char) → Turn (Nat × List String) (List String) → Prop
  | stop : Continues text tables none (.stop tables)
  | goOn {next : List Char} {offset : Nat} (h : BeginsAt text next offset) :
      Continues text tables (some next) (.goOn (offset, tables))

theorem gives_behindItem (h : BeginsAt text rest offset) (tables : List String) :
    Gives (behindItem text offset tables) (Continues text tables (afterComma rest)) := by
  rw [afterComma]
  refine (gives_skipAlias h).bind fun stop hstop => ?_
  rw [hstop.cutBehind_eq, ok_bind]
  generalize Sql.skipAlias rest = left at hstop ⊢
  split
  · obtain ⟨more, rfl⟩ := List.head?_eq_some_iff.1 ‹_›
    exact (gives_skipBlanks (hstop.tail (by decide))).bind fun _ hnext => gives_ok (Continues.goOn hnext)
  · rename_i hcomma
    split
    · exact absurd rfl hcomma
    · exact gives_ok Continues.stop

/-- The parenthesis that closes a call is looked for from the one that opens it. -/
theorem gives_closing_of_call (h : BeginsAt text ('(' :: rest) offset) :
    Gives (closing (locate ['(', ')'] ((bytes text).drop offset) offset) 0)
      (Option.Rel (fun behind => BeginsAt text (')' :: behind)) (afterClosing 1 rest)) := by
  have hdrop : (bytes text).drop offset = bytes ('(' :: rest) := by
    obtain ⟨front, rfl, rfl⟩ := h
    rw [bytes_append, ← length_bytes, List.drop_left]
  rw [hdrop, locate_bytes_cons basic_of_mem_parentheses]
  exact gives_closing (h.behind ['(']) Nat.zero_lt_one

theorem gives_itemTurn (h : BeginsAt text rest offset) (tables : List String) :
    Gives (itemTurn text (offset, tables)) (Continues text
      (tables ++ (readItem rest).elim [] Prod.fst) ((readItem rest).bind Prod.snd)) := by
  have hends : Continues text (tables ++ []) none (.stop tables) := by
    rw [List.append_nil]
    exact .stop
  refine (gives_skipWord "only" h).bind fun start hstart => ?_
  refine (gives_readName hstart).bind fun found hfound => ?_
  cases hname : Sql.readName (Sql.skipWord "only" rest) with
  | none =>
      rw [hname] at hfound
      cases hfound
      rw [readItem, hname]
      exact gives_ok hends
  | some read =>
      rw [hname] at hfound
      obtain _ | ⟨name, hleft⟩ := hfound
      refine (gives_skipBlanks hleft).bind fun stop hstop => ?_
      rw [hstop.cutBehind_eq, ok_bind]
      split
      -- a call is no table: its arguments are passed over
      · obtain ⟨arguments, harguments⟩ := List.head?_eq_some_iff.1 ‹_›
        rw [readItem_of_call hname harguments]
        rw [harguments] at hstop
        refine (gives_closing_of_call hstop).bind fun close hclose => ?_
        generalize afterClosing 1 arguments = behind at hclose ⊢
        cases hclose with
        | none => exact gives_ok hends
        | some hbehind =>
            refine (gives_skipBlanks (hbehind.tail (by decide))).bind fun next hnext => ?_
            simpa using gives_behindItem hnext tables
      · rename_i hcall
        rw [readItem_of_name hname fun arguments harguments => hcall (by rw [harguments]; rfl)]
        exact gives_behindItem hstop _

/-- Items are read until no comma follows, and each of them moves the offset forward. -/
theorem gives_loop_itemTurn (h : BeginsAt text rest offset) :
    Gives (tableList text offset) (· = Sql.tableList rest.length rest) ∧
      MovesForward (width text) Prod.fst (itemTurn text) (offset, []) := by
  -- The tables that have been read make up the list with those from the offset on.
  refine gives_loop (fun state => ∃ fuel last, last.length ≤ fuel ∧ BeginsAt text last state.1 ∧
    state.2 ++ Sql.tableList fuel last = Sql.tableList rest.length rest)
    (fun state hstate => ?_) ⟨_, rest, Nat.le_refl _, h, rfl⟩
  obtain ⟨fuel, last, hfuel, hbegins, hresult⟩ := hstate
  obtain ⟨turn, hturn, hcontinues⟩ := gives_itemTurn hbegins state.2
  refine ⟨turn, hturn, ?_⟩
  rw [← hresult]
  cases fuel with
  | zero =>
      obtain rfl := List.length_eq_zero_iff.1 (Nat.le_zero.1 hfuel)
      cases hcontinues
      rfl
  | succ fuel =>
      rw [tableList_succ]
      cases hitem : readItem last with
      | none =>
          rw [hitem] at hcontinues
          cases hcontinues
          rfl
      | some item =>
          obtain ⟨found, next⟩ := item
          rw [hitem] at hcontinues
          cases hcontinues with
          | stop => exact congrArg _ (List.append_nil _).symm
          | goOn hnext =>
              have hshorter := length_of_readItem hitem
              have hend := hnext.add_width
              exact ⟨⟨fuel, _, by omega, hnext, List.append_assoc _ _ _⟩,
                (hbegins.lt_iff hnext).2 hshorter, by omega⟩

theorem gives_singleTable (h : BeginsAt text rest offset) :
    Gives (singleTable text offset) (· = Sql.singleTable rest) := by
  rw [Sql.singleTable]
  refine (gives_skipWord "only" h).bind fun start hstart => ?_
  refine (gives_readName hstart).bind fun found hfound => ?_
  generalize Sql.readName _ = read at hfound ⊢
  cases hfound with
  | none => exact gives_ok rfl
  | some name _ => exact gives_ok rfl

end Lists

/-! ## Where tables stand -/

def isTablePosition (text : List Char) (offset : Nat) : Checked Bool := do
  match ← enclosing text offset with
  | none => return true
  | some opening =>
    let inside ← cutBehind text (opening + 1)
    return "select".toList.isPrefixOf (lowerFrom [] (trimStart inside))

def tablesBehind (scan : Scanner) (read : List Char → Nat → Checked (List String))
    (text : List Char) : Checked (List String) := do
  let kept ← (occurrences scan text).filterM fun found =>
    isTablePosition text (found.start.offset text)
  return (← kept.mapM fun found => read text (found.stop.offset text)).flatten

def scannedTables (text : List Char) : Checked (List String) := do
  let listed ← tablesBehind fromKeyword tableList text
  return listed ++ (← tablesBehind singleTableKeyword singleTable text)

/-- The tables of a SQL text, found by its keywords. -/
def scanReferences (sql : String) (limit : Nat) :
    Checked (Except ExtractionError References) := do
  let (normalized, quote) ← normalForm sql.toList
  if normalized.isEmpty then return .error .empty
  else
    match quote with
    | some quote => return .error (.unterminated quote)
    | none =>
      let deepest := (← levels normalized).foldl max 0
      if deepest > limit then return .error (.parenthesesTooDeep deepest limit)
      else
        return .ok {
          tables := NameSet.ofList (← scannedTables normalized)
          cteNames := NameSet.ofList (cteNames (String.ofList normalized)) }

theorem gives_isTablePosition (front rest : List Char) :
    Gives (isTablePosition (front ++ rest) (width front))
      (· = Sql.isTablePosition ⟨front.reverse, rest⟩) := by
  rw [Sql.isTablePosition]
  refine (gives_enclosing front rest).bind fun found hfound => ?_
  dsimp only
  generalize insideParenthesis 0 rest front.reverse = inside at hfound ⊢
  cases hfound with
  | none => exact gives_ok rfl
  | some hopening =>
      dsimp only
      rw [(hopening.tail (by decide)).cutBehind_eq]
      exact gives_ok rfl

theorem tablesBehind_eq_ok {scan : Scanner}
    (hscan : ∀ place stop, stop ∈ scan place → stop.after <:+ place.after)
    {read : List Char → Nat → Checked (List String)} {result : List Char → List String}
    {text : List Char}
    (hread : ∀ rest offset, BeginsAt text rest offset → read text offset = .ok (result rest)) :
    tablesBehind scan read text = .ok (((occurrences scan text).filter
      (Sql.isTablePosition ·.start)).flatMap fun found => result found.stop.after) := by
  -- an occurrence starts at a place of the text, so what is before it can be cut off
  have hkept : (occurrences scan text).filterM
      (fun found => isTablePosition text (found.start.offset text))
        = .ok ((occurrences scan text).filter (Sql.isTablePosition ·.start)) := by
    refine filterM_eq_ok fun found hfound => ?_
    obtain ⟨passed, rest, rfl, hstart, -⟩ := exists_of_mem_occurrences hfound
    rw [hstart, Place.offset, width_append, Nat.add_sub_cancel_right]
    exact (gives_isTablePosition passed rest).eq_ok
  -- and it ends at one, since the scanner only moves on
  have hbehind : ∀ found ∈ (occurrences scan text).filter (Sql.isTablePosition ·.start),
      read text (found.stop.offset text) = .ok (result found.stop.after) := by
    intro found hfound
    obtain ⟨passed, rest, rfl, hstart, hstop⟩ :=
      exists_of_mem_occurrences (List.mem_of_mem_filter hfound)
    have hsuffix := hscan _ _ hstop
    rw [hstart] at hsuffix
    exact hread _ _ (Place.beginsAt (hsuffix.trans (List.suffix_append passed rest)))
  rw [tablesBehind, hkept, ok_bind, mapM_eq_ok hbehind, List.flatMap_def]
  rfl

theorem scannedTables_eq_ok (text : List Char) :
    scannedTables text = .ok (Sql.scannedTables text) := by
  have hfrom (place stop : Place) (h : stop ∈ fromKeyword place) : stop.after <:+ place.after := by
    obtain ⟨piece, gap, -, hafter⟩ := exists_of_mem_fromKeyword h
    exact ⟨piece ++ gap, hafter.symm⟩
  have hsingle (place stop : Place) (h : stop ∈ singleTableKeyword place) :
      stop.after <:+ place.after := by
    obtain ⟨piece, gap, -, hafter⟩ := exists_of_mem_singleTableKeyword h
    exact ⟨piece ++ gap, hafter.symm⟩
  rw [scannedTables, tablesBehind_eq_ok hfrom fun _ _ h => (gives_loop_itemTurn h).1.eq_ok, ok_bind,
    tablesBehind_eq_ok hsingle fun _ _ h => (gives_singleTable h).eq_ok]
  rfl

/-- Finding tables by offsets never goes wrong. -/
theorem scanReferences_eq_ok (sql : String) (limit : Nat) :
    scanReferences sql limit = .ok (Sql.scanReferences sql limit) := by
  have hempty : (normalize sql).isEmpty = (Sql.normalForm sql.toList).isEmpty := by
    rw [Bool.eq_iff_iff, String.isEmpty_iff, List.isEmpty_iff, ← toList_normalize,
      String.toList_eq_nil_iff]
  rw [scanReferences, normalForm_eq_ok, ok_bind, Sql.scanReferences, hempty, toList_normalize]
  dsimp only
  split
  · rfl
  · rw [openQuote]
    cases (scan sql.toList).mode.openQuote with
    | some quote => rfl
    | none =>
        -- the levels are listed by bytes here and by characters there, with the same greatest one
        have hdeepest := foldl_max_perByte .outermost (Sql.normalForm sql.toList) 0
        dsimp only
        rw [levels_eq_ok, ok_bind, Sql.levels, hdeepest]
        split
        · rw [deepestLevel, Sql.levels, if_pos ‹_›]
          rfl
        · rw [scannedTables_eq_ok, deepestLevel, Sql.levels, if_neg ‹_›]
          rfl

end RepoPolicy.Sql.ByOffset
