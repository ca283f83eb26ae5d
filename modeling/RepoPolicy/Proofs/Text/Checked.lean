set_option autoImplicit false

/-! # Reading with care

Programs that read by indices and offsets can go wrong: an index may lie behind the last element, an
offset behind the end of a text or inside a character, a difference below zero, and a loop may go
round without moving forward. `Checked` is the type of what may go wrong in one of these ways, and
`nth`, `slice`, `minus` and `loop` are steps in which it may. That nothing goes wrong, and what comes
out, is said by `Gives`, which is put together step by step (`Gives.bind`) and turn by turn
(`gives_loop`). -/

namespace RepoPolicy.Text

/-! ## What may go wrong -/

/-- A way in which reading by offsets goes wrong. -/
inductive Fault where
  /-- A text is cut behind its end or inside a character. -/
  | cut
  /-- There is no element with this index. -/
  | index
  /-- A difference would lie below zero. -/
  | difference
  /-- A turn of a loop has not moved forward, or has moved out of bounds. -/
  | standstill
  deriving DecidableEq, Repr

/-- A result, or the fault that has kept it from being found. -/
abbrev Checked (α : Type) : Type := Except Fault α

theorem ok_bind {α β : Type} (result : α) (next : α → Checked β) :
    (Except.ok result >>= next : Checked β) = next result := rfl

section Results

variable {α β : Type} {found : Checked α} {wanted : α → Prop}

/-- Nothing goes wrong, and the result is as wanted. -/
def Gives (found : Checked α) (wanted : α → Prop) : Prop :=
  ∃ result, found = .ok result ∧ wanted result

theorem gives_ok {result : α} (h : wanted result) : Gives (.ok result) wanted := ⟨result, rfl, h⟩

theorem Gives.eq_ok {result : α} (h : Gives found (· = result)) : found = .ok result := by
  obtain ⟨_, hfound, rfl⟩ := h
  exact hfound

theorem Gives.bind {next : α → Checked β} {after : β → Prop} (h : Gives found wanted)
    (hnext : ∀ result, wanted result → Gives (next result) after) : Gives (found >>= next) after := by
  obtain ⟨result, rfl, hresult⟩ := h
  exact hnext result hresult

end Results

/-! ## Elements and differences -/

section Lists

variable {α β : Type} {list : List α}

def nth (list : List α) (index : Nat) : Checked α :=
  match list[index]? with
  | some element => .ok element
  | none => .error .index

def slice (list : List α) (first last : Nat) : Checked (List α) :=
  if first ≤ last ∧ last ≤ list.length then .ok ((list.drop first).take (last - first))
  else .error .index

/-- A difference of numbers that are not negative. -/
def minus (first second : Nat) : Checked Nat :=
  if second ≤ first then .ok (first - second) else .error .difference

theorem nth_append (front : List α) (element : α) (back : List α) :
    nth (front ++ element :: back) front.length = .ok element := by
  rw [nth, List.getElem?_append_right (Nat.le_refl _), Nat.sub_self]
  rfl

theorem slice_append (front middle back : List α) :
    slice (front ++ (middle ++ back)) front.length (front.length + middle.length) = .ok middle := by
  rw [slice, if_pos (by simp only [List.length_append]; omega), List.drop_left,
    Nat.add_sub_cancel_left, List.take_left]

theorem minus_of_le {first second : Nat} (h : second ≤ first) :
    minus first second = .ok (first - second) := if_pos h

theorem mapM_eq_ok {f : α → Checked β} {g : α → β} (h : ∀ x ∈ list, f x = .ok (g x)) :
    list.mapM f = .ok (list.map g) := by
  induction list with
  | nil => rfl
  | cons x list ih =>
      rw [List.mapM_cons, h x List.mem_cons_self, ih fun y hy => h y (List.mem_cons_of_mem x hy)]
      rfl

theorem filterM_eq_ok {f : α → Checked Bool} {g : α → Bool} (h : ∀ x ∈ list, f x = .ok (g x)) :
    list.filterM f = .ok (list.filter g) := by
  have hkept : ∀ kept, list.filterAuxM f kept = .ok ((list.filter g).reverse ++ kept) := by
    induction list with
    | nil => exact fun _ => rfl
    | cons x list ih =>
        intro kept
        have hrest := ih fun y hy => h y (List.mem_cons_of_mem x hy)
        rw [List.filterAuxM, h x List.mem_cons_self, ok_bind]
        cases hx : g x with
        | true => simpa [hx] using hrest (x :: kept)
        | false => simpa [hx] using hrest kept
  rw [List.filterM, hkept, List.append_nil]
  exact congrArg Except.ok (List.reverse_reverse _)

end Lists

/-! ## Loops -/

/-- What a turn of a loop leads to: another turn in a new state, or the result. -/
inductive Turn (σ α : Type) where
  | goOn (state : σ)
  | stop (result : α)

/-- Turns from a state on until there is a result. Each turn must move the position forward and not
beyond the bound. -/
def loop {σ α : Type} (bound : Nat) (position : σ → Nat) (turn : σ → Checked (Turn σ α))
    (state : σ) : Checked α :=
  match turn state with
  | .error fault => .error fault
  | .ok (.stop result) => .ok result
  | .ok (.goOn next) =>
    if position state < position next ∧ position next ≤ bound then loop bound position turn next
    else .error .standstill
termination_by bound - position state
decreasing_by omega

section Loops

variable {σ α : Type} {bound : Nat} {position : σ → Nat} {turn : σ → Checked (Turn σ α)} {state : σ}

/-- The loop comes to an end, and until then each turn moves forward, and not beyond the bound. -/
inductive MovesForward (bound : Nat) (position : σ → Nat) (turn : σ → Checked (Turn σ α)) : σ → Prop
  | stop {state : σ} {result : α} (h : turn state = .ok (.stop result)) :
      MovesForward bound position turn state
  | goOn {state next : σ} (h : turn state = .ok (.goOn next))
      (hforward : position state < position next) (hbound : position next ≤ bound)
      (hnext : MovesForward bound position turn next) : MovesForward bound position turn state

/-- What a turn has to come to: an end with what is wanted, or a state further on in which the same
holds as before. -/
def Turn.Keeps (bound : Nat) (position : σ → Nat) (holds : σ → Prop) (wanted : α → Prop) (state : σ) :
    Turn σ α → Prop
  | .stop result => wanted result
  | .goOn next => holds next ∧ position state < position next ∧ position next ≤ bound

/-- A loop goes well if each of its turns does, and it moves forward. -/
theorem gives_loop (holds : σ → Prop) {wanted : α → Prop}
    (hturn : ∀ state, holds state →
      Gives (turn state) (Turn.Keeps bound position holds wanted state))
    {state : σ} (h : holds state) :
    Gives (loop bound position turn state) wanted ∧ MovesForward bound position turn state := by
  obtain ⟨next, hnext, hkeeps⟩ := hturn state h
  rw [loop, hnext]
  cases next with
  | stop result => exact ⟨gives_ok hkeeps, .stop hnext⟩
  | goOn next =>
      obtain ⟨hholds, hforward, hbound⟩ := hkeeps
      obtain ⟨hgives, hmoves⟩ := gives_loop holds hturn hholds
      exact ⟨by simpa [hforward, hbound] using hgives, .goOn hnext hforward hbound hmoves⟩
termination_by bound - position state

end Loops

end RepoPolicy.Text
