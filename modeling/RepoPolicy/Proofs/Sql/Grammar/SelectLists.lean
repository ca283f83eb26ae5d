import Mathlib.Data.List.Forall2
import RepoPolicy.Proofs.Sql.Grammar.QueryReading

set_option autoImplicit false

/-! # Select lists and their tokens

The items of a select list are read from pieces of its tokens with commas between them
(`ItemTokens`). The pieces can be told from the tokens alone: they lie between the commas outside
parentheses (`pieces`), unless a comma stands in square brackets (`commaInSquare`). What stands
outside the brackets of a piece (`outside`) then says whether its item has a name, and the name is
the last token. -/

namespace RepoPolicy.Sql

/-- How many parentheses are open behind a token. -/
def Token.nest (depth : Nat) : Token → Nat
  | .symbol "(" => depth + 1
  | .symbol ")" => depth - 1
  | _ => depth

theorem Token.nest_open (depth : Nat) : (Token.symbol "(").nest depth = depth + 1 := rfl

theorem Token.nest_close (depth : Nat) : (Token.symbol ")").nest depth = depth - 1 := rfl

theorem Token.nest_square (depth : Nat) : (Token.symbol "[").nest depth = depth ∧
    (Token.symbol "]").nest depth = depth := ⟨rfl, rfl⟩

mutual

def Query.leftmost? : Query → Option (List SelectItem)
  | .mk _ body _ => body.leftmost?

def Body.leftmost? : Body → Option (List SelectItem)
  | .select items _ _ => some items
  | .combined left _ => left.leftmost?
  | .nested query => query.leftmost?
  | .values _ => none
  | .change _ => none

end

end RepoPolicy.Sql

namespace RepoPolicy.Sql.Grammar

/-! ## What stands outside brackets -/

/-- The tokens outside brackets when `depth` brackets are open, with the closing bracket in place of
a pair. -/
def outside : Nat → List Token → List Token
  | _, [] => []
  | depth, .symbol text :: rest =>
    if text == "(" || text == "[" then outside (depth + 1) rest
    else if text == ")" || text == "]" then
      if depth == 1 then .symbol text :: outside 0 rest else outside (depth - 1) rest
    else if depth == 0 then .symbol text :: outside depth rest
    else outside depth rest
  | depth, token :: rest => if depth == 0 then token :: outside depth rest else outside depth rest

theorem outside_symbol (depth : Nat) (text : String) (rest : List Token) :
    outside depth (.symbol text :: rest) =
      if text == "(" || text == "[" then outside (depth + 1) rest
      else if text == ")" || text == "]" then
        if depth == 1 then .symbol text :: outside 0 rest else outside (depth - 1) rest
      else if depth == 0 then .symbol text :: outside depth rest
      else outside depth rest := rfl

theorem outside_token {token : Token} (h : isBracket token = false) (depth : Nat)
    (rest : List Token) :
    outside depth (token :: rest) = if depth = 0 then token :: outside depth rest
      else outside depth rest := by
  cases token with
  | symbol text =>
      have hne : text ∉ ["(", ")", "[", "]"] := by simpa [isBracket] using h
      simp only [List.mem_cons, List.not_mem_nil, or_false, not_or] at hne
      obtain ⟨hopen, hclose, hopen', hclose'⟩ := hne
      simp [outside_symbol, hopen, hclose, hopen', hclose']
  | _ => cases depth <;> rfl

theorem outside_opening {opening closing : String} (h : Brackets opening closing) (depth : Nat)
    (rest : List Token) : outside depth (.symbol opening :: rest) = outside (depth + 1) rest := by
  cases h <;> simp [outside_symbol]

theorem outside_closing {opening closing : String} (h : Brackets opening closing) (depth : Nat)
    (rest : List Token) : outside (depth + 1) (.symbol closing :: rest)
      = if depth = 0 then .symbol closing :: outside 0 rest else outside depth rest := by
  cases h <;> simp [outside_symbol]

/-- Text with its brackets in pairs leaves its outline, or nothing if it is inside brackets. -/
theorem Outline.outside_append {tokens shape : List Token} (h : Outline tokens shape) (depth : Nat)
    (rest : List Token) :
    outside depth (tokens ++ rest) = (if depth = 0 then shape else []) ++ outside depth rest := by
  induction h generalizing depth rest with
  | nil => simp
  | token hplain _ ih =>
      rw [List.cons_append, outside_token hplain, ih]
      split <;> rfl
  | pair hpair _ _ ihinside ihrest =>
      rw [List.cons_append, outside_opening hpair, List.append_assoc, ihinside, List.cons_append,
        outside_closing hpair, if_neg (Nat.succ_ne_zero depth), List.nil_append, ihrest, ihrest]
      split
      · rename_i hdepth
        rw [hdepth, if_pos rfl]
        rfl
      · rfl

/-- **The outline of tokens with their brackets in pairs is what stands outside brackets.** -/
theorem Outline.outside_eq {tokens shape : List Token} (h : Outline tokens shape) :
    outside 0 tokens = shape := by
  have happend := h.outside_append 0 []
  rw [List.append_nil, if_pos rfl] at happend
  exact happend.trans (List.append_nil shape)

/-- The last token is outside brackets, or it closes them. -/
theorem Outline.getLast?_eq {tokens shape : List Token} (h : Outline tokens shape) :
    tokens.getLast? = shape.getLast? := by
  induction h with
  | nil => rfl
  | token _ _ ih => rw [List.getLast?_cons, List.getLast?_cons, ih]
  | pair _ _ _ _ ih =>
      rw [List.getLast?_cons, List.getLast?_append, List.getLast?_cons, List.getLast?_cons, ih]
      rfl

/-! ## Pieces between commas -/

/-- Whether a comma stands outside parentheses when `depth` of them are open. -/
def topComma : Nat → List Token → Bool
  | _, [] => false
  | depth, token :: rest =>
    (token == .symbol "," && depth == 0) || topComma (token.nest depth) rest

/-- What lies between the commas outside parentheses when `depth` of them are open. -/
def pieces {α : Type} (token : α → Token) : Nat → List α → List (List α)
  | _, [] => [[]]
  | depth, item :: rest =>
    if token item == .symbol "," && depth == 0 then [] :: pieces token depth rest
    else (pieces token ((token item).nest depth) rest).modifyHead (item :: ·)

section Pieces

variable {α : Type} {token : α → Token}

theorem pieces_append {front : List α} {depth : Nat} (h : topComma depth (front.map token) = false)
    (rest : List α) : pieces token depth (front ++ rest) =
      (pieces token ((front.map token).foldl Token.nest depth) rest).modifyHead (front ++ ·) := by
  induction front generalizing depth with
  | nil =>
      show pieces token depth rest = (pieces token depth rest).modifyHead ([] ++ ·)
      cases pieces token depth rest <;> rfl
  | cons item front ih =>
      rw [List.map_cons, topComma, Bool.or_eq_false_iff] at h
      rw [List.cons_append, pieces, if_neg (by simp [h.1]), ih h.2, List.map_cons, List.foldl_cons]
      cases pieces token _ rest <;> rfl

end Pieces

/-- A comma in square brackets and outside parentheses, when `round` parentheses and `square`
brackets are open. -/
def commaInSquare : Nat → Nat → List Token → Bool
  | _, _, [] => false
  | round, square, .symbol text :: rest =>
    if text == "[" then commaInSquare round (square + 1) rest
    else if text == "]" then commaInSquare round (square - 1) rest
    else (text == "," && round == 0 && square != 0) ||
      commaInSquare ((Token.symbol text).nest round) square rest
  | round, square, _ :: rest => commaInSquare round square rest

theorem commaInSquare_symbol (round square : Nat) (text : String) (rest : List Token) :
    commaInSquare round square (.symbol text :: rest) =
      if text == "[" then commaInSquare round (square + 1) rest
      else if text == "]" then commaInSquare round (square - 1) rest
      else (text == "," && round == 0 && square != 0) ||
        commaInSquare ((Token.symbol text).nest round) square rest := rfl

theorem nest_token {token : Token} (h : isBracket token = false) (depth : Nat) :
    token.nest depth = depth := by
  unfold Token.nest
  split
  · cases h
  · cases h
  · rfl

theorem nest_pair {opening closing : String} (h : Brackets opening closing) (depth : Nat) :
    (Token.symbol closing).nest ((Token.symbol opening).nest depth) = depth := by
  cases h <;> rfl

/-- Text with its brackets in pairs closes the parentheses that it opens. -/
theorem Outline.foldl_nest {tokens shape : List Token} (h : Outline tokens shape) (depth : Nat) :
    tokens.foldl Token.nest depth = depth := by
  induction h generalizing depth with
  | nil => rfl
  | token hplain _ ih => rw [List.foldl_cons, nest_token hplain, ih]
  | pair hpair _ _ ihinside ihrest =>
      rw [List.foldl_cons, List.foldl_append, ihinside, List.foldl_cons, nest_pair hpair, ihrest]

theorem topComma_append (depth : Nat) (front rest : List Token) :
    topComma depth (front ++ rest)
      = (topComma depth front || topComma (front.foldl Token.nest depth) rest) := by
  induction front generalizing depth with
  | nil => rfl
  | cons token front ih => rw [List.cons_append, topComma, ih, topComma, Bool.or_assoc]; rfl

/-- Inside parentheses no comma is outside them. -/
theorem Outline.topComma_succ {tokens shape : List Token} (h : Outline tokens shape) (depth : Nat) :
    topComma (depth + 1) tokens = false := by
  induction h generalizing depth with
  | nil => rfl
  | token hplain _ ih => simp [topComma, nest_token hplain, ih]
  | pair hpair hinside _ ihinside ihrest =>
      cases hpair <;>
        simp [topComma, topComma_append, Token.nest_open, Token.nest_close, Token.nest_square,
          hinside.foldl_nest, ihinside, ihrest]

theorem commaInSquare_token {token : Token} (h : isBracket token = false) (round square : Nat)
    (rest : List Token) : commaInSquare round square (token :: rest)
      = ((token == .symbol "," && round == 0 && square != 0) || commaInSquare round square rest) := by
  cases token with
  | symbol text =>
      have hne : text ∉ ["(", ")", "[", "]"] := by simpa [isBracket] using h
      simp only [List.mem_cons, List.not_mem_nil, or_false, not_or] at hne
      obtain ⟨-, -, hopen, hclose⟩ := hne
      have hcomma : (text == ",") = (Token.symbol text == .symbol ",") := by
        rw [Bool.eq_iff_iff]
        simp
      simp [commaInSquare_symbol, hopen, hclose, nest_token h, hcomma]
  | _ => rfl

/-- Text with its brackets in pairs leaves the brackets open that it finds open. -/
theorem Outline.commaInSquare_append {tokens shape : List Token} (h : Outline tokens shape)
    (round square : Nat) (rest : List Token) :
    commaInSquare round square (tokens ++ rest)
      = (commaInSquare round square tokens || commaInSquare round square rest) := by
  induction h generalizing round square rest with
  | nil => rfl
  | token hplain _ ih =>
      rw [List.cons_append, commaInSquare_token hplain, commaInSquare_token hplain, ih, Bool.or_assoc]
  | pair hpair _ _ ihinside ihrest =>
      cases hpair <;>
        simp [commaInSquare_symbol, Token.nest_open, Token.nest_close, ihinside, ihrest,
          Bool.or_assoc]

/-- A comma outside parentheses is outside all brackets, unless one stands in square brackets. -/
theorem Outline.topComma_zero {tokens shape : List Token} (h : Outline tokens shape) {square : Nat}
    (hsquare : commaInSquare 0 square tokens = false)
    (hfree : square ≠ 0 ∨ .symbol "," ∉ shape) : topComma 0 tokens = false := by
  induction h generalizing square with
  | nil => rfl
  | @token token tokens shape hplain _ ih =>
      rw [commaInSquare_token hplain, Bool.or_eq_false_iff] at hsquare
      have htoken : token ≠ .symbol "," := by
        rcases hfree with hopen | hfree
        · rintro rfl
          simp [hopen] at hsquare
        · rintro rfl
          exact hfree List.mem_cons_self
      rw [topComma, nest_token hplain, ih hsquare.2 (hfree.imp id fun h => List.not_mem_of_not_mem_cons h)]
      simpa using htoken
  | @pair opening closing inside outer tokens shape hpair hinside _ ihinside ihrest =>
      have hshape : square ≠ 0 ∨ .symbol "," ∉ shape :=
        hfree.imp id fun h => List.not_mem_of_not_mem_cons h
      cases hpair with
      | round =>
          have hparts : commaInSquare 1 square inside = false ∧
              commaInSquare 0 square tokens = false := by
            simpa [commaInSquare_symbol, Token.nest_open, Token.nest_close,
              hinside.commaInSquare_append] using hsquare
          simp [topComma, topComma_append, Token.nest_open, Token.nest_close, hinside.foldl_nest,
            hinside.topComma_succ, ihrest hparts.2 hshape]
      -- square brackets nest nothing, so the commas inside them are looked at as well
      | square =>
          have hparts : commaInSquare 0 (square + 1) inside = false ∧
              commaInSquare 0 square tokens = false := by
            simpa [commaInSquare_symbol, hinside.commaInSquare_append] using hsquare
          have hin := ihinside hparts.1 (.inl (Nat.succ_ne_zero square))
          simp [topComma, topComma_append, Token.nest_square, hinside.foldl_nest, hin,
            ihrest hparts.2 hshape]

/-! ## The items of a list -/

inductive ItemTokens : List SelectItem → List Token → Prop where
  | last {item : SelectItem} {tokens shape : List Token} (houtline : Outline tokens shape)
      (hitem : ItemShape item shape) : ItemTokens [item] tokens
  | more {item : SelectItem} {items : List SelectItem} {tokens shape rest : List Token}
      (houtline : Outline tokens shape) (hitem : ItemShape item shape)
      (hrest : ItemTokens items rest) : ItemTokens (item :: items) (tokens ++ .symbol "," :: rest)

theorem itemTokens_of_commaList {item : Parser SelectItem} (h : Reads ItemShape item) {fuel : Nat}
    {tokens rest : List Token} {items : List SelectItem}
    (hrun : commaList item fuel tokens = .ok (items, rest)) :
    ∃ used, tokens = used ++ rest ∧ ItemTokens items used := by
  induction fuel generalizing tokens items with
  | zero =>
      rw [commaList, fail_run] at hrun
      exact absurd hrun (by simp)
  | succ fuel ih =>
      obtain ⟨first, behind, hfirst, hmore⟩ := bind_eq_ok_iff.1 hrun
      obtain ⟨used, shape, rfl, houtline, hitem⟩ := h tokens first behind hfirst
      obtain ⟨isComma, behind', hcomma, hitems⟩ := bind_eq_ok_iff.1 hmore
      -- with a comma the list goes on, and without one it ends here
      rcases of_symbol?_eq_ok hcomma with ⟨rfl, rfl⟩ | ⟨rfl, rfl⟩
      · obtain ⟨others, left, hothers, hpure⟩ := bind_eq_ok_iff.1 hitems
        obtain ⟨rfl, rfl⟩ := Prod.mk.inj (Except.ok.inj hpure)
        obtain ⟨used', rfl, hused⟩ := ih hothers
        exact ⟨used ++ .symbol "," :: used', by simp, .more houtline hitem hused⟩
      · obtain ⟨rfl, rfl⟩ := Prod.mk.inj (Except.ok.inj hitems)
        exact ⟨used, rfl, .last houtline hitem⟩

theorem itemTokens_of_selectList {inner : Inner} (h : PhrasesAll inner) {tokens rest : List Token}
    {items : List SelectItem} (hrun : commaSeparated (selectItem inner) tokens = .ok (items, rest)) :
    ∃ used, tokens = used ++ rest ∧ ItemTokens items used :=
  itemTokens_of_commaList (reads_selectItem h) hrun

def IsPieceOf {α : Type} (token : α → Token) (item : SelectItem) (piece : List α) : Prop :=
  ∃ shape, Outline (piece.map token) shape ∧ ItemShape item shape

/-- **The items of a select list are read from the pieces between its commas**, if no comma outside
parentheses stands in square brackets. -/
theorem ItemTokens.forall₂_pieces {items : List SelectItem} {tokens : List Token}
    (h : ItemTokens items tokens) (hsquare : commaInSquare 0 0 tokens = false) {α : Type}
    {token : α → Token} {list : List α} (hlist : list.map token = tokens) :
    List.Forall₂ (IsPieceOf token) items (pieces token 0 list) := by
  induction h generalizing list with
  | last houtline hitem =>
      subst hlist
      have hcomma := houtline.topComma_zero hsquare (.inr hitem.commaFree)
      have hpieces := pieces_append hcomma []
      rw [List.append_nil] at hpieces
      rw [hpieces]
      exact .cons ⟨_, by simpa [pieces] using houtline, hitem⟩ .nil
  | @more item items front shape rest houtline hitem _ ih =>
      obtain ⟨first, behind, rfl, rfl, hbehind⟩ := List.map_eq_append_iff.1 hlist
      obtain ⟨comma, others, rfl, hcomma, rfl⟩ := List.map_eq_cons_iff.1 hbehind
      rw [houtline.commaInSquare_append, Bool.or_eq_false_iff] at hsquare
      -- the item has no comma of its own, so the first piece ends behind it
      have htop := houtline.topComma_zero hsquare.1 (.inr hitem.commaFree)
      have hrest : commaInSquare 0 0 (others.map token) = false := by
        simpa [commaInSquare_symbol, @nest_token (.symbol ",") rfl] using hsquare.2
      rw [pieces_append htop, houtline.foldl_nest, pieces, if_pos (by simp [hcomma])]
      exact .cons ⟨shape, by simpa using houtline, hitem⟩ (ih hrest rfl)

/-- **An item whose piece carries a name has it**: the name is the last token of the piece. -/
theorem IsPieceOf.name?_eq {α : Type} {token : α → Token} {item : SelectItem} {front : List α}
    {last : α} (h : IsPieceOf token item (front ++ [last])) {value spelling : String}
    (hlast : token last = .word value spelling)
    (hcarries : carriesName (outside 0 ((front ++ [last]).map token)) = true) :
    item.name? = some value := by
  obtain ⟨shape, houtline, hitem⟩ := h
  rw [houtline.outside_eq] at hcarries
  rcases hitem.spelled with ⟨before, token', name, rfl, htoken', hname⟩ | ⟨-, hnone⟩
  · have heq := houtline.getLast?_eq
    rw [List.map_append, List.map_singleton, List.getLast?_concat, List.getLast?_concat, hlast] at heq
    obtain rfl := Option.some.inj heq
    rw [hname]
    exact htoken'.symm
  · rw [hnone] at hcarries
    cases hcarries

/-! ## The leftmost list -/

section Leftmost

variable {inner : Inner}

theorem leftmost?_of_intersections (fuel : Nat) (left : Body) :
    Gives (intersections inner fuel left) fun found => found.leftmost? = left.leftmost? := by
  induction fuel generalizing left with
  | zero => exact gives_pure rfl
  | succ fuel ih =>
      refine Gives.after fun _ => gives_ite ?_ (gives_pure rfl)
      exact Gives.after fun _ => Gives.after fun right => ih (.combined left right)

theorem leftmost?_of_unions (fuel : Nat) (left : Body) :
    Gives (unions inner fuel left) fun found => found.leftmost? = left.leftmost? := by
  induction fuel generalizing left with
  | zero => exact gives_pure rfl
  | succ fuel ih =>
      refine Gives.after fun operator => ?_
      cases operator with
      | none => exact gives_pure rfl
      | some keyword =>
          exact Gives.after fun _ => Gives.after fun right => ih (.combined left right)

/-- The leftmost list of a body is that of its first part without set operators. -/
theorem exists_simpleBody_of_body {tokens rest : List Token} {found : Body}
    (h : body inner tokens = .ok (found, rest)) :
    ∃ first left, simpleBody inner tokens = .ok (first, left) ∧
      found.leftmost? = first.leftmost? := by
  obtain ⟨joined, left, hjoined, hunions⟩ := bind_eq_ok_iff.1 h
  obtain ⟨first, left', hfirst, hintersections⟩ := bind_eq_ok_iff.1 hjoined
  have hunion := Gives.after (fun tokens : List Token =>
    leftmost?_of_unions (tokens.length + 1) joined) left found rest hunions
  have hintersection := Gives.after (fun tokens : List Token =>
    leftmost?_of_intersections (tokens.length + 1) first) left' joined left hintersections
  exact ⟨first, left', hfirst, hunion.trans hintersection⟩

/-- The items that are read behind `SELECT` and its modifiers are those of the body. -/
theorem leftmost?_of_selectTail {modified limited listed behind rest : List Token}
    {values quantity : List Expr} {items : List SelectItem} {found : Body}
    (hdistinct : distinct? inner modified = .ok (values, limited))
    (htop : top? inner limited = .ok (quantity, listed))
    (hitems : commaSeparated (selectItem inner) listed = .ok (items, behind))
    (h : selectTail inner modified = .ok (found, rest)) : found.leftmost? = some items := by
  obtain ⟨values', limited', hvalues, hlimited⟩ := bind_eq_ok_iff.1 h
  obtain ⟨-, rfl⟩ := Prod.mk.inj (Except.ok.inj (hdistinct.symm.trans hvalues))
  obtain ⟨quantity', listed', hquantity, hlisted⟩ := bind_eq_ok_iff.1 hlimited
  obtain ⟨-, rfl⟩ := Prod.mk.inj (Except.ok.inj (htop.symm.trans hquantity))
  obtain ⟨items', behind', hitems', hbehind⟩ := bind_eq_ok_iff.1 hlisted
  obtain ⟨rfl, rfl⟩ := Prod.mk.inj (Except.ok.inj (hitems.symm.trans hitems'))
  -- what follows the list changes nothing about it
  refine (?_ : Gives _ fun found : Body => found.leftmost? = some items) behind found rest hbehind
  refine Gives.after fun _ => ?_
  extract_lets clauses from_
  have hclauses : ∀ sources, Gives (clauses sources) fun found => found.leftmost? = some items :=
    fun _ => Gives.after fun _ => Gives.after fun _ => Gives.after fun _ => Gives.after fun _ =>
      Gives.after fun _ => gives_pure rfl
  have hfrom : Gives (from_ ()) fun found => found.leftmost? = some items :=
    Gives.after fun _ => gives_ite (Gives.after hclauses) (Gives.after hclauses)
  refine gives_ite (Gives.after fun _ => Gives.after fun _ => Gives.after fun _ => ?_) hfrom
  exact Gives.after fun _ => hfrom

theorem isKeyword_eq_false {token : Token} {keyword other : String}
    (h : token.isKeyword keyword = true) (hne : keyword ≠ other) : token.isKeyword other = false := by
  cases token with
  | word value spelling =>
      obtain rfl := beq_iff_eq.1 h
      exact beq_eq_false_iff_ne.2 hne
  | _ => cases h

theorem keyword?_cons {token : Token} {keyword : String} {rest : List Token} :
    keyword? keyword (token :: rest)
      = if token.isKeyword keyword = true then .ok (true, rest) else .ok (false, token :: rest) := by
  change (if token.isKeyword keyword = true then (set rest >>= fun _ => pure true : Parser Bool)
    else pure false) (token :: rest) = _
  split <;> rfl

/-- The leftmost list of a query that has no parenthesis before its first `SELECT` outside its `WITH`
clause. -/
theorem leftmost?_of_query {tokens modified limited listed behind rest : List Token} {select : Token}
    {ctes : List Cte} {values quantity : List Expr} {items : List SelectItem} {found : Query}
    (hwith : with? inner tokens = .ok (ctes, select :: modified))
    (hselect : select.isKeyword "SELECT" = true)
    (hdistinct : distinct? inner modified = .ok (values, limited))
    (htop : top? inner limited = .ok (quantity, listed))
    (hitems : commaSeparated (selectItem inner) listed = .ok (items, behind))
    (h : query inner tokens = .ok (found, rest)) : found.leftmost? = some items := by
  obtain ⟨ctes', left, hctes, hleft⟩ := bind_eq_ok_iff.1 h
  obtain ⟨rfl, rfl⟩ := Prod.mk.inj (Except.ok.inj (hwith.symm.trans hctes))
  -- the first word is `SELECT`, so neither of the other two is taken
  have hnot : ∀ other, "SELECT" ≠ other →
      keyword? other (select :: modified) = .ok (false, select :: modified) := by
    intro other hother
    rw [keyword?_cons, isKeyword_eq_false hselect hother, if_neg Bool.false_ne_true]
  obtain ⟨isInsert, left, hinsert, hleft⟩ := bind_eq_ok_iff.1 hleft
  obtain ⟨rfl, rfl⟩ := Prod.mk.inj (Except.ok.inj ((hnot "INSERT" (by decide)).symm.trans hinsert))
  rw [if_neg Bool.false_ne_true] at hleft
  obtain ⟨isUpdate, left, hupdate, hleft⟩ := bind_eq_ok_iff.1 hleft
  obtain ⟨rfl, rfl⟩ := Prod.mk.inj (Except.ok.inj ((hnot "UPDATE" (by decide)).symm.trans hupdate))
  rw [if_neg Bool.false_ne_true] at hleft
  obtain ⟨whole, left, hbody, hleft⟩ := bind_eq_ok_iff.1 hleft
  obtain ⟨first, left', hfirst, hwhole⟩ := exists_simpleBody_of_body hbody
  -- what follows the body does not change its leftmost list
  have hfound : found.leftmost? = whole.leftmost? := by
    refine (?_ : Gives _ fun found : Query => found.leftmost? = whole.leftmost?) left found rest hleft
    exact Gives.after fun _ => Gives.after fun _ => Gives.after fun _ => Gives.after fun _ =>
      Gives.after fun _ => gives_pure rfl
  obtain ⟨isSelect, left, hkeyword, htail⟩ := bind_eq_ok_iff.1 hfirst
  rw [keyword?_cons, if_pos hselect] at hkeyword
  obtain ⟨rfl, rfl⟩ := Prod.mk.inj (Except.ok.inj hkeyword)
  rw [if_pos rfl] at htail
  rw [hfound, hwhole]
  exact leftmost?_of_selectTail hdistinct htop hitems htail

theorem statement_of_query {value spelling : String} {more : List Token}
    (h : ["SELECT", "WITH", "VALUES"].contains spelling = true) :
    statement (.word value spelling :: more)
      = (query (level (depthLimit - 2)) >>= fun found => pure (Statement.query found) : Parser Statement)
          (.word value spelling :: more) :=
  congrFun (if_pos h) (Token.word value spelling :: more)

theorem exists_of_statements_eq_ok {tokens : List Token} {found : List Statement}
    (h : statements tokens = .ok found) :
    ∃ rest, statementsFrom (tokens.length + 1) true tokens = .ok (found, rest) := by
  cases hrun : statementsFrom (tokens.length + 1) true tokens with
  | error cause =>
      have hfail : statements tokens = .error cause := by
        show (statementsFrom (tokens.length + 1) true tokens >>= _) = _
        rw [hrun]
        rfl
      exact absurd (hfail.symm.trans h) (by simp)
  | ok result =>
      have hfound : statements tokens = .ok result.1 := by
        show (statementsFrom (tokens.length + 1) true tokens >>= _) = _
        rw [hrun]
        rfl
      exact ⟨result.2, by rw [← Except.ok.inj (hfound.symm.trans h)]⟩

/-- A text that begins with `WITH` or `SELECT` is read as a query from its first token on. -/
theorem exists_query_of_statements {first : Token} {more : List Token} {found : Query}
    (hfirst : first.isKeyword "WITH" = true ∨ first.isKeyword "SELECT" = true)
    (h : statements (first :: more) = .ok [.query found]) :
    ∃ rest, query (level (depthLimit - 2)) (first :: more) = .ok (found, rest) := by
  cases first with
  | word value spelling =>
      have hquery : ["SELECT", "WITH", "VALUES"].contains spelling = true := by
        rcases hfirst with hfirst | hfirst <;> obtain rfl := beq_iff_eq.1 hfirst <;> decide
      obtain ⟨rest, hrun⟩ := exists_of_statements_eq_ok h
      -- there is a first token, so the statements are the one read here and the others behind it
      obtain ⟨one, left, hone, hothers⟩ := bind_eq_ok_iff.1
        (show (statement >>= fun one => statementsFrom (more.length + 1) false >>= fun others =>
          pure (one :: others)) (Token.word value spelling :: more) = _ from hrun)
      obtain ⟨others, left', -, hpure⟩ := bind_eq_ok_iff.1 hothers
      obtain ⟨rfl, -⟩ := List.cons.inj (Prod.mk.inj (Except.ok.inj hpure)).1
      rw [statement_of_query hquery] at hone
      obtain ⟨found', left'', hfound, hpure⟩ := bind_eq_ok_iff.1 hone
      obtain ⟨heq, rfl⟩ := Prod.mk.inj (Except.ok.inj hpure)
      obtain rfl := Statement.query.inj heq
      exact ⟨left'', hfound⟩
  | _ => rcases hfirst with hfirst | hfirst <;> cases hfirst

end Leftmost

end RepoPolicy.Sql.Grammar
