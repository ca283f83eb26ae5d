import RepoPolicy.Proofs.Sql.EnclosingParenthesis
import RepoPolicy.Proofs.Text.Offsets

set_option autoImplicit false

/-! # Parentheses by offsets

The levels of a text, the parenthesis that is open around a place, and the one that closes a call,
found in the bytes of the text. None of these searches goes wrong, and what they find is what is
found in the characters: a level stands once for each byte of its character (`levels_eq_ok`), and
the texts that begin with the parentheses begin at the offsets that are found (`gives_enclosing`,
`gives_closing`). -/

namespace RepoPolicy.Sql.ByOffset

open RepoPolicy.Text

/-! ## Levels -/

/-- The level of a character, found when it has been read: an opening parenthesis has been counted
already. -/
def levelBehind (nesting : Nesting) (c : Char) : Checked Nat :=
  if c == '(' && !nesting.quoted then minus nesting.depth 1 else .ok nesting.depth

/-- The level of each byte of a text, read in a state. -/
def levelsFrom (nesting : Nesting) : List Char → Checked (List Nat)
  | [] => .ok []
  | c :: rest => do
    let level ← levelBehind (nesting.read c) c
    return List.replicate c.utf8Size level ++ (← levelsFrom (nesting.read c) rest)

def levels (text : List Char) : Checked (List Nat) := levelsFrom .outermost text

/-- The levels of the characters of a text, each once for every byte of its character. -/
def perByte (text : List Char) (levels : List Nat) : List Nat :=
  (List.zipWith (fun c level => List.replicate c.utf8Size level) text levels).flatten

theorem perByte_cons (c : Char) (text : List Char) (level : Nat) (levels : List Nat) :
    perByte (c :: text) (level :: levels)
      = List.replicate c.utf8Size level ++ perByte text levels := by
  rw [perByte, List.zipWith_cons_cons, List.flatten_cons]
  rfl

theorem levelBehind_eq_ok (nesting : Nesting) (c : Char) :
    levelBehind (nesting.read c) c = .ok (nesting.levelOf c) := by
  by_cases hopen : c = '('
  · subst hopen
    obtain ⟨depth, quoted⟩ := nesting
    cases quoted with
    | true => rfl
    | false => exact minus_of_le (Nat.le_add_left 1 depth)
  · rw [levelBehind, if_neg (by simp [hopen]), Nesting.levelOf, Nesting.read]
    by_cases hquote : c = '"'
    · simp [hquote]
    · cases hquoted : nesting.quoted with
      | true => simp [hquote]
      | false => by_cases hclose : c = ')' <;> simp [hquote, hopen, hclose]

theorem levelsFrom_eq_ok (nesting : Nesting) (text : List Char) :
    levelsFrom nesting text = .ok (perByte text (Sql.levelsFrom nesting text)) := by
  induction text generalizing nesting with
  | nil => rfl
  | cons c text ih =>
      rw [levelsFrom, levelBehind_eq_ok, ih, Sql.levelsFrom, perByte_cons]
      rfl

theorem levels_eq_ok (text : List Char) : levels text = .ok (perByte text (Sql.levels text)) :=
  levelsFrom_eq_ok .outermost text

/-- The level of a character is found at its offset. -/
theorem nth_perByte (nesting : Nesting) (front : List Char) (c : Char) (back : List Char) :
    nth (perByte (front ++ c :: back) (Sql.levelsFrom nesting (front ++ c :: back))) (width front)
      = .ok ((front.foldl Nesting.read nesting).levelOf c) := by
  induction front generalizing nesting with
  | nil =>
      obtain ⟨size, hsize⟩ := Nat.exists_eq_succ_of_ne_zero c.utf8Size_pos.ne'
      rw [List.nil_append, Sql.levelsFrom, perByte_cons, hsize]
      rfl
  | cons d front ih =>
      have hlevels := ih (nesting.read d)
      rw [nth] at hlevels ⊢
      rw [List.cons_append, Sql.levelsFrom, perByte_cons, width_cons,
        List.getElem?_append_right (by rw [List.length_replicate]; exact Nat.le_add_right _ _),
        List.length_replicate, Nat.add_sub_cancel_left]
      exact hlevels

theorem foldl_max_replicate {size : Nat} (hpos : 0 < size) (first level : Nat) :
    (List.replicate size level).foldl max first = max first level := by
  induction size, hpos using Nat.le_induction generalizing first with
  | base => rfl
  | succ size _ ih => rw [List.replicate_succ, List.foldl_cons, ih, max_assoc, max_self]

/-- The greatest level of a byte is that of a character. -/
theorem foldl_max_perByte (nesting : Nesting) (text : List Char) (first : Nat) :
    (perByte text (Sql.levelsFrom nesting text)).foldl max first
      = (Sql.levelsFrom nesting text).foldl max first := by
  induction text generalizing nesting first with
  | nil => rfl
  | cons c text ih =>
      rw [Sql.levelsFrom, perByte_cons, List.foldl_append, foldl_max_replicate c.utf8Size_pos, ih,
        List.foldl_cons]

/-! ## The parenthesis around an offset -/

/-- The offset of the innermost parenthesis that is open behind these, the last of which comes first,
when so many closed ones have been passed. -/
def innermost : List (UInt8 × Nat) → Nat → Checked (Option Nat)
  | [], _ => .ok none
  | (byte, offset) :: rest, depth =>
    if byte == ')'.toUInt8 then innermost rest (depth + 1)
    else if depth = 0 then .ok (some offset)
    else do innermost rest (← minus depth 1)

/-- The offset of the innermost parenthesis that is open at an offset. -/
def enclosing (text : List Char) (offset : Nat) : Checked (Option Nat) := do
  innermost (locate ['(', ')'] (← slice (bytes text) 0 offset) 0).reverse 0

theorem basic_of_mem_parentheses : ∀ d ∈ ['(', ')'], d.toNat < 128 := by simp

theorem gives_innermost (depth : Nat) (before rest : List Char) :
    Gives (innermost (locate ['(', ')'] (bytes before.reverse) 0).reverse depth)
      (Option.Rel (fun inside => BeginsAt (before.reverse ++ rest) ('(' :: inside))
        (insideParenthesis depth rest before)) := by
  induction before generalizing depth rest with
  | nil => exact gives_ok Option.Rel.none
  | cons c before ih =>
      -- the bytes of the last character come first in what is searched backwards
      have hbytes : (locate ['(', ')'] (bytes (c :: before).reverse) 0).reverse
          = (locate ['(', ')'] (String.utf8EncodeChar c) (width before.reverse)).reverse
            ++ (locate ['(', ')'] (bytes before.reverse) 0).reverse := by
        have hlast : bytes [c] = String.utf8EncodeChar c := List.flatMap_singleton _ _
        rw [List.reverse_cons, bytes_append, hlast, locate_append, List.reverse_append, Nat.zero_add,
          length_bytes]
      rw [hbytes, List.reverse_cons, List.append_assoc, List.singleton_append]
      by_cases hclose : c = ')'
      · subst hclose
        exact ih (depth + 1) (')' :: rest)
      · by_cases hopen : c = '('
        · subst hopen
          cases depth with
          | zero => exact gives_ok (Option.Rel.some ⟨before.reverse, rfl, rfl⟩)
          | succ depth => exact ih depth ('(' :: rest)
        · rw [locate_of_not_mem basic_of_mem_parentheses (by simp [hopen, hclose]),
            insideParenthesis_cons_of_ne hopen hclose]
          exact ih depth (c :: rest)

/-- The parenthesis around a place is found at its offset. -/
theorem gives_enclosing (front rest : List Char) :
    Gives (enclosing (front ++ rest) (width front))
      (Option.Rel (fun inside => BeginsAt (front ++ rest) ('(' :: inside))
        (insideParenthesis 0 rest front.reverse)) := by
  have hslice := slice_append [] (bytes front) (bytes rest)
  rw [List.nil_append, List.length_nil, Nat.zero_add, length_bytes, ← bytes_append] at hslice
  have hgives := gives_innermost 0 front.reverse rest
  rw [List.reverse_reverse] at hgives
  rw [enclosing, hslice]
  exact hgives

/-! ## The parenthesis that closes a call -/

/-- The offset of the one of these parentheses that closes the last open one, when so many are
open. -/
def closing : List (UInt8 × Nat) → Nat → Checked (Option Nat)
  | [], _ => .ok none
  | (byte, offset) :: rest, depth =>
    if byte == '('.toUInt8 then closing rest (depth + 1)
    else do
      let depth ← minus depth 1
      if depth = 0 then return some offset else closing rest depth

theorem gives_closing {text rest : List Char} {offset depth : Nat} (h : BeginsAt text rest offset)
    (hpos : 0 < depth) :
    Gives (closing (locate ['(', ')'] (bytes rest) offset) depth)
      (Option.Rel (fun behind => BeginsAt text (')' :: behind)) (afterClosing depth rest)) := by
  induction rest generalizing offset depth with
  | nil => exact gives_ok Option.Rel.none
  | cons c rest ih =>
      have hrest : BeginsAt text rest (offset + c.utf8Size) := h.behind [c]
      rw [locate_bytes_cons basic_of_mem_parentheses]
      -- other characters have no parenthesis among their bytes, so only these two are counted
      by_cases hopen : c = '('
      · subst hopen
        exact ih hrest (Nat.succ_pos depth)
      · by_cases hclose : c = ')'
        · subst hclose
          have hstep : afterClosing depth (')' :: rest)
              = if depth ≤ 1 then some rest else afterClosing (depth - 1) rest := rfl
          rw [if_pos (by decide), List.singleton_append, closing, if_neg (by decide),
            minus_of_le hpos, ok_bind, hstep]
          by_cases hlast : depth ≤ 1
          · rw [if_pos (by omega), if_pos hlast]
            exact gives_ok (Option.Rel.some h)
          · rw [if_neg (by omega), if_neg hlast]
            exact ih hrest (by omega)
        · have hstep : afterClosing depth (c :: rest) = afterClosing depth rest := by
            rw [afterClosing, if_neg (by simpa using hopen), if_neg (by simpa using hclose)]
          rw [if_neg (by simp [hopen, hclose]), List.nil_append, hstep]
          exact ih hrest hpos

end RepoPolicy.Sql.ByOffset
