import RepoPolicy.Proofs.Sql.ByOffset.KeywordScan
import RepoPolicy.Proofs.Sql.SelectListScan

set_option autoImplicit false

/-! # Projected columns by offsets

The words around a select list and the commas between its items are told from others by the levels
at their offsets, and the list and its items are cut out between offsets. A word begins with a
character, so there is a level at its offset (`topLevel_eq_ok`); a comma is a byte by itself, so the
text can be cut before and behind it (`splitItems_eq_ok`). -/

namespace RepoPolicy.Sql.ByOffset

open RepoPolicy.Text RepoPolicy.Text.Scanner

/-! ## Outside parentheses -/

/-- The pieces of a text that are found outside all parentheses. -/
def topLevel (scan : Scanner) (text : List Char) : Checked (List Occurrence) := do
  let levels ← levels text
  (occurrences scan text).filterM fun found => do
    return (← nth levels (found.start.offset text)) == 0

/-- What a scanner reads begins with a character that closes no parenthesis. -/
def ClosesNothing (scan : Scanner) : Prop :=
  ∀ place stop, stop ∈ scan place → ∃ c rest, place.after = c :: rest ∧ c ≠ ')'

/-- The level at the offset of a piece is that of its first character. -/
theorem topLevel_eq_ok {scan : Scanner} (h : ClosesNothing scan) (text : List Char) :
    topLevel scan text = .ok (Sql.topLevel scan text) := by
  rw [topLevel, levels_eq_ok]
  refine filterM_eq_ok fun found hfound => ?_
  obtain ⟨passed, _, rfl, hstart, hstop⟩ := exists_of_mem_occurrences hfound
  obtain ⟨c, rest, hafter, hc⟩ := h _ _ hstop
  rw [hstart] at hafter ⊢
  obtain rfl := hafter
  have hlevel := nth_perByte .outermost passed c rest
  rw [levelOf_of_ne hc] at hlevel
  rw [Place.offset, width_append, Nat.add_sub_cancel_right, Sql.levels, hlevel, atTopLevel_reverse]
  rfl

theorem closesNothing_letters {word : String} (h : word.toList.head?.any (· != ')') = true) :
    ClosesNothing (letters word) := by
  intro place stop hstop
  obtain ⟨piece, hpiece, hafter, -⟩ := exists_of_mem_letters hstop
  rw [← hpiece] at h
  cases piece with
  | nil => cases h
  | cons c piece =>
      refine ⟨c, piece ++ stop.after, hafter, ?_⟩
      rintro rfl
      rw [List.map_cons, List.head?_cons] at h
      exact absurd h (by decide)

theorem closesNothing_wholeWord {word : String} (h : word.toList.head?.any (· != ')') = true) :
    ClosesNothing (wholeWord word) := by
  intro place stop hstop
  obtain ⟨ended, hended, -⟩ := mem_andThen.1 hstop
  obtain ⟨begun, hbegun, hletters⟩ := mem_andThen.1 hended
  obtain ⟨-, rfl⟩ := mem_wordEdge.1 hbegun
  exact closesNothing_letters h _ _ hletters

/-! ## The select list -/

def selectList? (normalized : List Char) : Checked (Option (List Char)) := do
  match (← topLevel (wholeWord "select") normalized).head? with
  | none => return none
  | some select =>
    let first := select.stop.offset normalized
    let ends ← topLevel (wholeWord "from") normalized
    let stop :=
      match (ends.filter (first < ·.start.offset normalized)).head? with
      | some found => found.start
      | none => ⟨[], []⟩
    let list := dropModifier (trim (← cutBetween normalized first (stop.offset normalized)))
    return if (trim list).isEmpty then none else some list

section SelectList

variable {text : List Char} {found : Occurrence} {word : String}

theorem beginsAt_start {scan : Scanner} (h : found ∈ Sql.topLevel scan text) :
    BeginsAt text found.start.after (found.start.offset text) := by
  obtain ⟨passed, rest, rfl, hstart, -⟩ := exists_of_mem_occurrences (List.mem_of_mem_filter h)
  exact Place.beginsAt (by rw [hstart]; exact List.suffix_append passed rest)

theorem beginsAt_stop {scan : Scanner}
    (hscan : ∀ place stop, stop ∈ scan place → stop.after <:+ place.after)
    (h : found ∈ Sql.topLevel scan text) :
    BeginsAt text found.stop.after (found.stop.offset text) := by
  obtain ⟨_, _, -, -, hstop⟩ := exists_of_mem_occurrences (List.mem_of_mem_filter h)
  exact Place.beginsAt ((hscan _ _ hstop).trans (beginsAt_start h).suffix)

/-- What lies between two places of a text is cut out at their offsets. -/
theorem cutBetween_upTo {first last : Place} (hfirst : BeginsAt text first.after (first.offset text))
    (hlast : BeginsAt text last.after (last.offset text))
    (h : last.after.length ≤ first.after.length) :
    cutBetween text (first.offset text) (last.offset text) = .ok (first.upTo last) := by
  obtain ⟨between, hbetween⟩ := List.suffix_of_suffix_length_le hlast.suffix hfirst.suffix h
  have hwhole := hfirst.add_width
  have hrest := hlast.add_width
  rw [← hbetween, width_append] at hwhole
  have hoffset : last.offset text = first.offset text + width between := by omega
  rw [upTo_of_append hbetween.symm, hoffset]
  exact BeginsAt.cutBetween_eq (hbetween ▸ hfirst)

theorem selectList?_eq_ok (normalized : List Char) :
    selectList? normalized = .ok (Sql.selectList? normalized) := by
  rw [selectList?, topLevel_eq_ok (closesNothing_wholeWord (by decide)), ok_bind, Sql.selectList?,
    selectWord?]
  cases hselect : (Sql.topLevel (wholeWord "select") normalized).head? with
  | none => rfl
  | some select =>
      have hfirst : BeginsAt normalized select.stop.after (select.stop.offset normalized) := by
        refine beginsAt_stop (fun place stop hstop => ?_) (List.mem_of_mem_head? hselect)
        obtain ⟨-, -, piece, rest, -, hafter, rfl⟩ := mem_wholeWord.1 hstop
        exact ⟨piece, hafter.symm⟩
      -- offsets are compared here and rests of the text there, which comes to the same
      have hfrom : ((Sql.topLevel (wholeWord "from") normalized).filter
          (select.stop.offset normalized < ·.start.offset normalized)).head?
            = fromWord? normalized select.stop := by
        rw [fromWord?, ← List.head?_filter]
        refine congrArg List.head? (List.filter_congr fun found hfound => ?_)
        exact decide_eq_decide.2 (hfirst.lt_iff (beginsAt_start hfound))
      dsimp only
      rw [topLevel_eq_ok (closesNothing_wholeWord (by decide)), ok_bind, hfrom,
        Option.bind_eq_bind, Option.bind_some, cutBetween_upTo hfirst, ok_bind]
      · rfl
      -- the list ends where the text does or at a word of it, and not before it begins
      · cases hend : fromWord? normalized select.stop with
        | none => exact Place.beginsAt (List.nil_suffix)
        | some found => exact beginsAt_start (List.mem_of_find?_eq_some hend)
      · cases hend : fromWord? normalized select.stop with
        | none => exact Nat.zero_le _
        | some found =>
            rw [fromWord?] at hend
            have hshorter := List.find?_some hend
            exact Nat.le_of_lt (of_decide_eq_true hshorter)

end SelectList

/-! ## Items -/

/-- The items of a list, cut out between its commas. These are the quotes and commas from the current
item on, `start` is the offset of the item, and `quoted` says whether a double quote is open. -/
def splitFrom (list : List Char) (levels : List Nat) :
    List (UInt8 × Nat) → (start : Nat) → (quoted : Bool) → Checked (List (List Char))
  | [], start, _ => do return [trim (← cutBehind list start)]
  | (byte, offset) :: rest, start, quoted => do
    if byte == '"'.toUInt8 then splitFrom list levels rest start (!quoted)
    else if quoted then splitFrom list levels rest start quoted
    else if (← nth levels offset) == 0 then
      let item ← cutBetween list start offset
      return trim item :: (← splitFrom list levels rest (offset + 1) quoted)
    else splitFrom list levels rest start quoted

def splitItems (list : List Char) : Checked (List (List Char)) := do
  splitFrom list (← levels list) (locate ['"', ','] (bytes list) 0) 0 false

/-- The items are what the commas separate. The text is read up to `rest`, `front` holds the items
that are complete and their commas, and `piece` what has been read of the current one. -/
theorem splitFrom_eq_ok {list : List Char} (front piece rest : List Char)
    (hlist : list = front ++ (piece ++ rest)) :
    splitFrom list (perByte list (Sql.levels list))
        (locate ['"', ','] (bytes rest) (width front + width piece)) (width front)
        (Nesting.after (front ++ piece)).quoted
      = .ok ((Sql.splitFrom (Nesting.after (front ++ piece)) piece.reverse rest).map trim) := by
  induction rest generalizing front piece with
  | nil =>
      have hcut := cutBehind_append front piece
      rw [hlist, List.append_nil, Sql.splitFrom, List.reverse_reverse]
      show (do return [trim (← cutBehind (front ++ piece) (width front))]) = _
      rw [hcut]
      rfl
  | cons c rest ih =>
      have hread (more : List Char) : Nesting.after (more ++ [c]) = (Nesting.after more).read c :=
        after_append_singleton more c
      -- What follows if the character does not end the item.
      have hpasses := ih front (piece ++ [c]) (by simpa using hlist)
      rw [← List.append_assoc, hread, width_append, List.reverse_concat, ← Nat.add_assoc, quoted_read]
        at hpasses
      rw [locate_bytes_cons (by simp), Sql.splitFrom]
      by_cases hquote : c = '"'
      · subst hquote
        exact hpasses
      rw [if_neg hquote] at hpasses
      by_cases hcomma : c = ','
      · subst hcomma
        have hwhole : list = (front ++ piece) ++ ',' :: rest := by rw [hlist, List.append_assoc]
        have hlevel : nth (perByte list (Sql.levels list)) (width front + width piece)
            = .ok (Nesting.after (front ++ piece)).depth := by
          rw [hwhole, ← width_append]
          exact nth_perByte .outermost (front ++ piece) ',' rest
        have hcut : cutBetween list (width front) (width front + width piece) = .ok piece :=
          BeginsAt.cutBetween_eq ⟨front, hlist, rfl⟩
        -- What follows if the comma ends the item.
        have hends := ih (front ++ piece ++ [',']) [] (by rw [hwhole]; simp)
        rw [List.append_nil, hread, quoted_read, if_neg hquote, width_append, width_append] at hends
        rw [if_pos (by decide), List.singleton_append, splitFrom, if_neg (by decide)]
        cases hquoted : (Nesting.after (front ++ piece)).quoted with
        | true =>
            rw [hquoted] at hpasses
            exact hpasses
        | false =>
            rw [hquoted] at hpasses hends
            rw [if_neg Bool.false_ne_true, hlevel, ok_bind]
            by_cases hdepth : (Nesting.after (front ++ piece)).depth = 0
            · rw [if_pos (by simpa using hdepth), if_pos (by simpa using hdepth), hcut, ok_bind,
                List.map_cons, List.reverse_reverse]
              exact congrArg (· >>= fun items => Except.ok (trim piece :: items)) hends
            · rw [if_neg (by simpa using hdepth), if_neg (by simpa using hdepth)]
              exact hpasses
      · rw [if_neg (by simp [hquote, hcomma]), if_neg (by simp [hcomma])]
        exact hpasses

theorem splitItems_eq_ok (list : List Char) : splitItems list = .ok (Sql.splitItems list) := by
  rw [splitItems, levels_eq_ok, ok_bind]
  exact splitFrom_eq_ok [] [] list rfl

/-! ## Names of items -/

/-- The alias after the last `AS` outside parentheses, if it is a single name. -/
def explicitAlias? (item : List Char) : Checked (Option (List Char)) := do
  match (← topLevel asWord item).getLast? with
  | none => return none
  | some found =>
    let given := trim (← cutBehind item (found.stop.offset item))
    return if (columnReference? given).isSome && !given.contains '.' then some given else none

def implicitAlias? (item : List Char) : Checked (Option (List Char)) := do
  match (occurrences trailingName item).head? with
  | none => return none
  | some found =>
    let given := found.start.after.drop 1
    let expression := trimEnd (← cutBefore item (found.start.offset item))
    if expression.getLast?.any closesExpression &&
        !expressionTailWords.contains (lowercase (String.ofList given)) then
      return if (← topLevel operatorWord expression).isEmpty then some given else none
    else return none

def classifyItem (item : List Char) : Checked ProjectedItem := do
  if isWildcard item then return .wildcard
  else
    match columnReference? item with
    | some name => return .column (columnName name)
    | none =>
      match ← explicitAlias? item with
      | some given => return .column (columnName given)
      | none =>
        match ← implicitAlias? item with
        | some given => return .column (columnName given)
        | none => return .complex (String.ofList item)

/-- The items that the outermost `SELECT` of a SQL text projects. -/
def projection (sql : String) : Checked (Option (List ProjectedItem)) := do
  let (normalized, _) ← normalForm sql.toList
  match ← selectList? normalized with
  | none => return none
  | some list => return some (← (← splitItems list).mapM classifyItem)

theorem explicitAlias?_eq_ok (item : List Char) :
    explicitAlias? item = .ok (Sql.explicitAlias? item) := by
  -- `as` is found with the blank before it, which closes no parenthesis
  have hcloses : ClosesNothing asWord := by
    intro place stop h
    obtain ⟨middle, hmiddle, -⟩ := mem_sequence_cons.1 h
    obtain ⟨c, gap, hc, -, hafter⟩ := exists_of_mem_blanks1 hmiddle
    exact ⟨c, gap ++ middle.after, hafter, fun hclose => absurd (hclose ▸ hc) (by decide)⟩
  rw [explicitAlias?, topLevel_eq_ok hcloses, ok_bind, Sql.explicitAlias?]
  cases hlast : (Sql.topLevel asWord item).getLast? with
  | none => rfl
  | some found =>
      have hstop : BeginsAt item found.stop.after (found.stop.offset item) := by
        refine beginsAt_stop (fun place stop h => ?_) (List.mem_of_getLast? hlast)
        obtain ⟨first, hfirst, h⟩ := mem_sequence_cons.1 h
        obtain ⟨second, hsecond, h⟩ := mem_sequence_cons.1 h
        obtain ⟨third, hthird, h⟩ := mem_sequence_cons.1 h
        obtain rfl := mem_sequence_nil.1 h
        obtain ⟨c, gap, -, -, hgap⟩ := exists_of_mem_blanks1 hfirst
        obtain ⟨piece, -, hpiece, -⟩ := exists_of_mem_letters hsecond
        obtain ⟨d, more, -, -, hmore⟩ := exists_of_mem_blanks1 hthird
        rw [hgap, hpiece, hmore]
        exact ⟨c :: gap ++ piece ++ d :: more, by simp⟩
      dsimp only
      rw [hstop.cutBehind_eq]
      rfl

theorem closesNothing_operatorWord : ClosesNothing operatorWord := by
  intro place stop h
  rw [operatorWord, mem_sequence_cons] at h
  obtain ⟨start, hstart, h⟩ := h
  obtain ⟨-, rfl⟩ := mem_wordEdge.1 hstart
  obtain ⟨middle, hmiddle, -⟩ := mem_sequence_cons.1 h
  obtain ⟨part, hpart, hletters⟩ := List.mem_flatMap.1 hmiddle
  obtain ⟨word, hword, rfl⟩ := List.mem_map.1 hpart
  have hall : ∀ word ∈ operatorWords, word.toList.head?.any (· != ')') = true := by decide
  exact closesNothing_letters (hall word hword) _ _ hletters

theorem implicitAlias?_eq_ok (item : List Char) :
    implicitAlias? item = .ok (Sql.implicitAlias? item) := by
  rw [implicitAlias?, Sql.implicitAlias?]
  cases hhead : (occurrences trailingName item).head? with
  | none => rfl
  | some found =>
      obtain ⟨passed, rest, hitem, hstart, -⟩ :=
        exists_of_mem_occurrences (List.mem_of_mem_head? hhead)
      -- what stands before the name is cut off at its start
      have hcut : cutBefore item (found.start.offset item) = .ok found.start.before.reverse := by
        rw [hstart, Place.offset, List.reverse_reverse, hitem, width_append, Nat.add_sub_cancel_right,
          cutBefore_append]
      rw [Option.bind_eq_bind, Option.bind_some]
      dsimp only
      rw [hcut, ok_bind, topLevel_eq_ok closesNothing_operatorWord, ok_bind]
      cases (trimEnd found.start.before.reverse).getLast? with
      | none => rfl
      | some last =>
          rw [Option.any_some, Option.bind_eq_bind, Option.bind_some]
          cases closesExpression last &&
              !expressionTailWords.contains (lowercase (String.ofList (found.start.after.drop 1))) with
          | false => rfl
          | true =>
              cases (Sql.topLevel operatorWord (trimEnd found.start.before.reverse)).isEmpty <;> rfl

theorem classifyItem_eq_ok (item : List Char) :
    classifyItem item = .ok (Sql.classifyItem item) := by
  rw [classifyItem, Sql.classifyItem, explicitAlias?_eq_ok, implicitAlias?_eq_ok]
  split
  · rfl
  · cases columnReference? item with
    | some name => rfl
    | none =>
        cases Sql.explicitAlias? item with
        | some given => rfl
        | none => cases Sql.implicitAlias? item <;> rfl

/-- Reading the projected columns by offsets never goes wrong. -/
theorem projection_eq_ok (sql : String) : projection sql = .ok (Sql.projection sql) := by
  rw [projection, normalForm_eq_ok, ok_bind, Sql.projection]
  dsimp only
  rw [selectList?_eq_ok, ok_bind]
  cases Sql.selectList? (Sql.normalForm sql.toList) with
  | none => rfl
  | some list =>
      dsimp only
      rw [splitItems_eq_ok, ok_bind, mapM_eq_ok fun item _ => classifyItem_eq_ok item]
      rfl

/-! ## All analyses -/

/-- No analysis of a text goes wrong. Whatever the text and the limit are, no index or difference is
out of bounds, no text is cut inside a character, and each analysis gives what is read off the
characters. The index of the normal form moves forward with each turn, through all its jumps, and so
does the offset of a list of tables, wherever in a text the list begins. -/
theorem text_analyses_never_fail (sql : String) (limit : Nat) :
    normalForm sql.toList = .ok (Sql.normalForm sql.toList, openQuote sql) ∧
      levels sql.toList = .ok (perByte sql.toList (Sql.levels sql.toList)) ∧
      scanReferences sql limit = .ok (Sql.scanReferences sql limit) ∧
      projection sql = .ok (Sql.projection sql) ∧
      MovesForward (sql.toList.length + 1) Cursor.index (turn sql.toList) .start ∧
      ∀ front list : List Char, MovesForward (width (front ++ list)) Prod.fst
        (itemTurn (front ++ list)) (width front, []) :=
  ⟨normalForm_eq_ok sql.toList, levels_eq_ok sql.toList, scanReferences_eq_ok sql limit,
    projection_eq_ok sql, (gives_loop_turn sql.toList).2,
    fun front _ => (gives_loop_itemTurn ⟨front, rfl, rfl⟩).2⟩

end RepoPolicy.Sql.ByOffset
