import RepoPolicy.Proofs.Sql.SelectListScan
import RepoPolicy.Sql.Walk

set_option autoImplicit false

/-! # Certified columns

The columns that a SELECT projects are read off the normal form of its text. They are the names of the
items in the tree of the text (`certified_columns_are_real`) if both readers see the text alike, the
select list is found where it is (`Frame.isFound`), and its items show their names
(`Frame.isNamed`). -/

namespace RepoPolicy.Sql

open RepoPolicy.Text RepoPolicy.Text.Scanner Grammar

/-! ## The leftmost select list among the marks -/

/-- The marks that a parser takes, and those that it leaves. -/
def spanRead {α : Type} (parser : Parser α) (list : List Mark) : Option (List Mark × List Mark) :=
  match parser (list.map Mark.token) with
  | .ok (_, rest) => some (list.splitAt (list.length - rest.length))
  | .error _ => none

/-- `ALL`, `DISTINCT` or `TOP` between `SELECT` and its list. -/
def modifiers (inner : Inner) : Parser Unit := do
  let _ ← distinct? inner
  let _ ← top? inner

namespace Frame

/-- The frame of the leftmost select list of a query, as the grammar reads it, unless that `SELECT`
stands in parentheses. -/
def of? (list : List Mark) : Option Frame := do
  let inner := level (depthLimit - 2)
  let (before, rest) ← spanRead (with? inner) list
  match rest with
  | [] => none
  | select :: rest =>
    if select.token.isKeyword "SELECT" then
      let (modifier, rest) ← spanRead (modifiers inner) rest
      let (list, after) ← spanRead (commaSeparated (selectItem inner)) rest
      return ⟨before, select, modifier, list, after⟩
    else none

/-- Whether every item of the list shows its name, and no comma of the list stands in square brackets
outside parentheses. -/
def isNamed (frame : Frame) : Bool :=
  !commaInSquare 0 0 (frame.list.map Mark.token) &&
    (pieces Mark.token 0 frame.list).all fun piece => carriesName (outside 0 (piece.map Mark.token))

end Frame

theorem exists_of_spanRead {α : Type} {parser : Parser α} (hparser : Balanced parser)
    {list used rest : List Mark} (h : spanRead parser list = some (used, rest)) :
    ∃ value shape, list = used ++ rest ∧
      parser (list.map Mark.token) = .ok (value, rest.map Mark.token) ∧
      Outline (used.map Mark.token) shape := by
  rw [spanRead] at h
  cases hrun : parser (list.map Mark.token) with
  | error cause =>
      rw [hrun] at h
      cases h
  | ok result =>
      obtain ⟨value, left⟩ := result
      rw [hrun] at h
      -- the parser leaves a rest of the tokens, so the marks are divided at its length
      obtain ⟨taken, shape, hlist, houtline, -⟩ := hparser _ _ _ hrun
      obtain ⟨first, second, rfl, rfl, rfl⟩ := List.map_eq_append_iff.1 hlist
      simp only [List.length_append, List.length_map, Nat.add_sub_cancel, List.splitAt_eq,
        List.take_left, List.drop_left, Option.some.injEq, Prod.mk.injEq] at h
      obtain ⟨rfl, rfl⟩ := h
      exact ⟨value, shape, rfl, rfl, houtline⟩

theorem balanced_modifiers {inner : Inner} (h : PhrasesAll inner) : Balanced (modifiers inner) :=
  (balanced_distinct? h).bind fun _ _ _ => (balanced_top? h).bind fun _ _ _ => balanced_pure _

theorem exists_first_of_with? {inner : Inner} {tokens rest : List Token} {select : Token}
    {ctes : List Cte} (h : with? inner tokens = .ok (ctes, select :: rest))
    (hselect : select.isKeyword "SELECT" = true) :
    ∃ first more, tokens = first :: more ∧
      (first.isKeyword "WITH" = true ∨ first.isKeyword "SELECT" = true) := by
  obtain ⟨isWith, left, hwith, hleft⟩ := bind_eq_ok_iff.1 h
  rcases of_keyword?_eq_ok hwith with ⟨rfl, first, rfl, hfirst⟩ | ⟨rfl, rfl⟩
  · exact ⟨first, left, rfl, .inl hfirst⟩
  · rw [if_neg Bool.false_ne_true] at hleft
    obtain ⟨-, rfl⟩ := Prod.mk.inj (Except.ok.inj hleft)
    exact ⟨select, rest, rfl, .inr hselect⟩

/-- What the frame of a list of marks is: its parts make up the marks and close the parentheses that
they open, and its list holds the items of the leftmost `SELECT`. -/
structure IsFrame (list : List Mark) (frame : Frame) : Prop where
  marks_eq : frame.marks = list
  select : frame.select.token.isKeyword "SELECT" = true
  before_closed : (frame.before.map Mark.token).foldl Token.nest 0 = 0
  middle_closed : ((frame.modifier ++ frame.list).map Mark.token).foldl Token.nest 0 = 0
  items : ∃ items, ItemTokens items (frame.list.map Mark.token) ∧
    ∀ found, statements (list.map Mark.token) = .ok [.query found] → found.leftmost? = some items

/-- The marks that a frame is made of, read part by part. -/
theorem isFrame_of_parts {inner : Inner} (hlevel : inner = level (depthLimit - 2))
    {before modifier list after : List Mark} {select : Mark} {ctes : List Cte}
    {items : List SelectItem} {shape shape' shape'' : List Token}
    (hbefore : Outline (before.map Mark.token) shape)
    (hmodifier : Outline (modifier.map Mark.token) shape')
    (hlist : Outline (list.map Mark.token) shape'')
    (hselect : select.token.isKeyword "SELECT" = true)
    (hwith : with? inner ((before ++ select :: (modifier ++ (list ++ after))).map Mark.token)
      = .ok (ctes, (select :: (modifier ++ (list ++ after))).map Mark.token))
    (hmodifiers : modifiers inner ((modifier ++ (list ++ after)).map Mark.token)
      = .ok ((), (list ++ after).map Mark.token))
    (hitems : commaSeparated (selectItem inner) ((list ++ after).map Mark.token)
      = .ok (items, after.map Mark.token)) :
    IsFrame (before ++ select :: (modifier ++ (list ++ after)))
      ⟨before, select, modifier, list, after⟩ := by
  have hinner : PhrasesAll inner := hlevel ▸ phrasesAll_level _
  -- nothing before the list leaves a parenthesis open, and the list is read as items
  refine ⟨by simp [Frame.marks], hselect, hbefore.foldl_nest 0, ?_, items, ?_, fun found hfound => ?_⟩
  · rw [List.map_append, List.foldl_append, hmodifier.foldl_nest, hlist.foldl_nest]
  · obtain ⟨used, hused, hitemTokens⟩ := itemTokens_of_selectList hinner hitems
    rw [List.map_append] at hused
    rwa [List.append_cancel_right hused]
  -- a statement of these tokens is a query, which is read part by part in the same way
  · obtain ⟨values, limited, hdistinct, hlimited⟩ := bind_eq_ok_iff.1 hmodifiers
    obtain ⟨quantity, listed, htop, hpure⟩ := bind_eq_ok_iff.1 hlimited
    obtain ⟨-, rfl⟩ := Prod.mk.inj (Except.ok.inj hpure)
    rw [List.map_cons] at hwith
    obtain ⟨first, more, hfirst, hkeyword⟩ := exists_first_of_with? hwith hselect
    rw [hfirst] at hfound hwith
    obtain ⟨rest, hquery⟩ := exists_query_of_statements hkeyword hfound
    rw [← hlevel] at hquery
    exact leftmost?_of_query hwith hselect hdistinct htop hitems hquery

theorem isFrame_of_eq_some {list : List Mark} {frame : Frame} (h : Frame.of? list = some frame) :
    IsFrame list frame := by
  have hinner : PhrasesAll (level (depthLimit - 2)) := phrasesAll_level _
  rw [Frame.of?] at h
  obtain ⟨⟨before, rest⟩, hbefore, hrest⟩ := Option.bind_eq_some_iff.1 h
  clear h
  -- the `WITH` clause, then the modifiers and the list behind `SELECT`
  obtain ⟨ctes, shape, rfl, hwith, houtline⟩ := exists_of_spanRead (balanced_with? hinner) hbefore
  cases rest with
  | nil => cases hrest
  | cons select rest =>
      simp only at hrest
      split at hrest
      · rename_i hselect
        obtain ⟨⟨modifier, listed⟩, hmodifier, hlisted⟩ := Option.bind_eq_some_iff.1 hrest
        clear hrest
        obtain ⟨⟨⟩, shape', rfl, hmodifiers, houtline'⟩ :=
          exists_of_spanRead (balanced_modifiers hinner) hmodifier
        obtain ⟨⟨list, after⟩, hlist, hframe⟩ := Option.bind_eq_some_iff.1 hlisted
        obtain ⟨items, shape'', rfl, hitems, houtline''⟩ :=
          exists_of_spanRead (balanced_commaSeparated (reads_selectItem hinner).balanced) hlist
        obtain rfl := Option.some.inj hframe
        exact isFrame_of_parts rfl houtline houtline' houtline'' hselect hwith hmodifiers hitems
      · cases hrest

/-! ## The names of the items -/

def textMarks (sql : String) : List Mark :=
  match lexemes sql.toList.length sql.toList with
  | .ok found => marks false found
  | .error _ => []

/-- Whether an item of a select list has a name, and a column is called so in lower case. -/
def IsNamedBy (item : SelectItem) (column : ProjectedItem) : Prop :=
  ∃ name, item.name? = some name ∧ column = .column (lowercase name)

theorem ne_nil_of_isNamed {frame : Frame} (h : frame.isNamed = true) : frame.list ≠ [] := by
  intro hnil
  rw [Frame.isNamed, hnil] at h
  exact absurd h (by decide)

/-- The items that are found in the pieces of a list have the names of the items that were read from
them. -/
theorem forall₂_isNamedBy {list : List Mark} {items : List SelectItem} (hlegible : Legible list)
    (hpieces : List.Forall₂ (IsPieceOf Mark.token) items (pieces Mark.token 0 list))
    (hcarries : ∀ piece ∈ pieces Mark.token 0 list,
      carriesName (outside 0 (piece.map Mark.token)) = true)
    (hcolumns : ∀ piece ∈ pieces Mark.token 0 list,
      ∃ name, classifyItem (written piece) = .column name) :
    List.Forall₂ IsNamedBy items
      ((pieces Mark.token 0 list).map fun piece => classifyItem (written piece)) := by
  rw [List.forall₂_map_right_iff]
  have hall : ∀ piece ∈ pieces Mark.token 0 list, Legible piece ∧
      carriesName (outside 0 (piece.map Mark.token)) = true ∧
      ∃ name, classifyItem (written piece) = .column name := by
    intro piece hmem
    obtain ⟨front, rest, rfl⟩ := mem_of_mem_pieces hmem
    exact ⟨hlegible.of_append_right.of_append_left, hcarries piece hmem, hcolumns piece hmem⟩
  -- what is known of each piece is put beside the item that it is read as
  have hboth := (List.forall₂_and_left _ _).2 ⟨hall, hpieces.flip⟩
  refine (hboth.imp ?_).flip
  rintro piece item ⟨⟨hpiece, hname, name, hclass⟩, hitem⟩
  obtain ⟨front, last, value, spelling, rfl, hlast, rfl⟩ := exists_last_of_classifyItem hpiece hclass
  exact ⟨value, IsPieceOf.name?_eq hitem hlast hname, hclass⟩

/-- What is known of the marks of a text that both readers see alike: they are legible, the normal form
is written for them, and the statements are those of their tokens. -/
theorem textMarks_spec {sql : String} (halike : readsAlike sql = true) :
    Legible (textMarks sql) ∧ normalForm sql.toList = written (textMarks sql) ∧
      parseStatements sql = statements ((textMarks sql).map Mark.token) := by
  rw [readsAlike] at halike
  rw [textMarks, parseStatements, tokenize, tokens_eq_map_lexemes]
  cases hfound : lexemes sql.toList.length sql.toList with
  | error cause =>
      rw [hfound] at halike
      cases halike
  | ok found =>
      rw [hfound] at halike
      refine ⟨legible_marks hfound (Nat.le_refl _) halike, normalForm_eq_written hfound halike, ?_⟩
      rw [map_token_marks]
      rfl

/-- The projection of a text, when its leftmost select list is found where it is. -/
theorem projection_eq {sql : String} {frame : Frame} (halike : readsAlike sql = true)
    (hframe : IsFrame (textMarks sql) frame) (hfound : frame.isFound = true) (hne : frame.list ≠ []) :
    projection sql
      = some ((pieces Mark.token 0 frame.list).map fun piece => classifyItem (written piece)) := by
  obtain ⟨hlegible, hform, -⟩ := textMarks_spec halike
  rw [← hframe.marks_eq] at hlegible hform
  have hwords := Frame.found_of_isFound hlegible hfound
  have hplain : ∀ mark ∈ frame.list, Plain mark :=
    fun mark hmem => hwords.plain mark (Frame.mem_reach_of_mem_middle (List.mem_append_right _ hmem))
  rw [projection, hform, selectList?_written hlegible hwords hframe.select hframe.before_closed
    hframe.middle_closed hne, Option.map_some, splitItems_written hlegible.frame_list hplain,
    List.map_map]
  rfl

/-- **Certified columns are the real ones.** If both readers see a query alike, the leftmost select
list is found where it is, its items show their names, and all of them are taken for columns, then
these columns are the names of the items, one by one. -/
theorem certified_columns_are_real {sql : String} {query : Query} {frame : Frame}
    {columns : List ProjectedItem} (hparse : parseStatements sql = .ok [.query query])
    (halike : readsAlike sql = true) (hframe : Frame.of? (textMarks sql) = some frame)
    (hfound : frame.isFound = true) (hnamed : frame.isNamed = true)
    (hprojection : projection sql = some columns)
    (hcolumns : ∀ column ∈ columns, ∃ name, column = .column name) :
    ∃ items, query.leftmost? = some items ∧ List.Forall₂ IsNamedBy items columns := by
  have hparts := isFrame_of_eq_some hframe
  obtain ⟨hlegible, -, hstatements⟩ := textMarks_spec halike
  obtain ⟨items, htokens, hleftmost⟩ := hparts.items
  refine ⟨items, hleftmost query (hstatements.symm.trans hparse), ?_⟩
  obtain rfl := Option.some.inj
    ((projection_eq halike hparts hfound (ne_nil_of_isNamed hnamed)).symm.trans hprojection)
  rw [Frame.isNamed, Bool.and_eq_true, Bool.not_eq_true', List.all_eq_true] at hnamed
  rw [← hparts.marks_eq] at hlegible
  refine forall₂_isNamedBy hlegible.frame_list (htokens.forall₂_pieces hnamed.1 rfl) hnamed.2
    fun piece hmem => ?_
  exact hcolumns _ (List.mem_map_of_mem hmem)

/-- The names of the items of the leftmost select list, if the statements are a single query. -/
def leftmostNames? : List Statement → Option (List (Option String))
  | [.query query] => query.leftmost?.map fun items => items.map SelectItem.name?
  | _ => none

theorem exists_query_of_leftmostNames? {sql : String} {names : List (Option String)}
    (h : (parseStatements sql).toOption.bind leftmostNames? = some names) :
    ∃ query, parseStatements sql = .ok [.query query] := by
  cases hparse : parseStatements sql with
  | error cause =>
      rw [hparse] at h
      cases h
  | ok statements =>
      rw [hparse] at h
      replace h : leftmostNames? statements = some names := h
      unfold leftmostNames? at h
      split at h
      · exact ⟨_, rfl⟩
      · cases h

/-- A query with a `WITH` clause, a modifier, a comment, a quoted name, a call and a set operator. -/
def annotatedUnion : String :=
  "WITH x AS (SELECT a FROM y) SELECT ALL x.\"A b\", f(a, 'from') /*,*/ C FROM x UNION SELECT 1, 2"

/-- The columns of that query are certified under their own names. -/
theorem certified_columns_of_annotatedUnion :
    ∃ query frame, parseStatements annotatedUnion = .ok [.query query] ∧
      readsAlike annotatedUnion = true ∧ Frame.of? (textMarks annotatedUnion) = some frame ∧
      frame.isFound = true ∧ frame.isNamed = true ∧
      projection annotatedUnion = some [.column "a b", .column "c"] ∧
      ∃ items, query.leftmost? = some items ∧
        List.Forall₂ IsNamedBy items [.column "a b", .column "c"] := by
  have hnames : (parseStatements annotatedUnion).toOption.bind leftmostNames?
      = some [some "A b", some "C"] := by
    decide +kernel
  have hall : (Frame.of? (textMarks annotatedUnion)).any
      (fun frame => frame.isFound && frame.isNamed) = true := by
    decide +kernel
  have halike : readsAlike annotatedUnion = true := by decide +kernel
  have hprojection : projection annotatedUnion
      = some [.column "a b", .column "c"] := by
    decide +kernel
  obtain ⟨query, hparse⟩ := exists_query_of_leftmostNames? hnames
  obtain ⟨frame, hframe, hplain⟩ := (Option.any_eq_true _ _).1 hall
  rw [Bool.and_eq_true] at hplain
  exact ⟨query, frame, hparse, halike, hframe, hplain.1, hplain.2, hprojection,
    certified_columns_are_real hparse halike hframe hplain.1 hplain.2 hprojection (by simp)⟩

/-- Behind a `SELECT` without `FROM`, the list of a later one is taken instead. -/
theorem union_certifies_the_wrong_column :
    (parseStatements "SELECT a UNION SELECT b FROM t").toOption.bind leftmostNames? = some [some "a"] ∧
      openQuote "SELECT a UNION SELECT b FROM t" = none ∧
      projection "SELECT a UNION SELECT b FROM t" = some [.column "b"] := by
  decide +kernel

end RepoPolicy.Sql
