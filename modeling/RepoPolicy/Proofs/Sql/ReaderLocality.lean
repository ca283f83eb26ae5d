import RepoPolicy.Proofs.Sql.HiddenText
import RepoPolicy.Proofs.Sql.Lexemes

set_option autoImplicit false

/-! # How far the readers of tokens look

The reader of a token looks at what is behind it, but no further than a blank or a quote. So another
text may stand there if it begins alike (`Ahead`). Quoted text, dollar quotes, numbers, words and
symbols are then read again from the characters they were read from, and the other text is left. -/

namespace RepoPolicy.Sql

open RepoPolicy.Text

/-! ## What is behind a token -/

/-- Whatever the new text begins with, up to a space or the first quote, is what the text that was
left begins with. -/
def Ahead (left new : List Char) : Prop :=
  ∀ piece, ' ' ∉ piece → '\'' ∉ piece.dropLast → piece <+: new → piece <+: left

section Ahead

variable {left new : List Char}

theorem Ahead.head (h : Ahead left new) {c : Char} {rest : List Char} (hnew : new = c :: rest)
    (hc : c ≠ ' ') : ∃ more, left = c :: more := by
  obtain ⟨more, hmore⟩ := h [c] (by simpa using hc.symm) (by simp) ⟨rest, by rw [hnew]; rfl⟩
  exact ⟨more, hmore.symm⟩

theorem Ahead.head?_ne (h : Ahead left new) {c : Char} (hc : c ≠ ' ')
    (hleft : left.head? ≠ some c) : new.head? ≠ some c := by
  intro hnew
  obtain ⟨rest, hrest⟩ := List.head?_eq_some_iff.1 hnew
  obtain ⟨more, rfl⟩ := h.head hrest hc
  exact hleft rfl

theorem Ahead.append (h : Ahead left new) (used : List Char) :
    Ahead (used ++ left) (used ++ new) := by
  intro piece hspace hquote hpiece
  rcases Nat.le_total piece.length used.length with hshort | hlong
  · exact (List.prefix_of_prefix_length_le hpiece (List.prefix_append used new) hshort).trans
      (List.prefix_append used left)
  · -- the piece goes on behind what both have in common
    obtain ⟨more, rfl⟩ :=
      List.prefix_of_prefix_length_le (List.prefix_append used new) hpiece hlong
    rw [List.prefix_append_right_inj] at hpiece ⊢
    refine h more (fun hmem => hspace (List.mem_append_right used hmem)) ?_ hpiece
    intro hmem
    have hne : more ≠ [] := by
      rintro rfl
      exact absurd hmem (by simp)
    rw [List.dropLast_append_of_ne_nil hne] at hquote
    exact hquote (List.mem_append_right used hmem)

/-- A run of characters of one kind ends where it ended before. -/
theorem Ahead.takeWhile_append {p : Char → Bool} (hp : p ' ' = false) {text : List Char}
    (h : Ahead (text.dropWhile p) new) : (text.takeWhile p ++ new).takeWhile p = text.takeWhile p := by
  rw [List.takeWhile_append_of_pos fun c hc => List.all_eq_true.1 List.all_takeWhile c hc]
  suffices hnew : new.takeWhile p = [] by rw [hnew, List.append_nil]
  cases hcons : new with
  | nil => rfl
  | cons c rest =>
      rw [List.takeWhile_cons_of_neg]
      intro hc
      obtain ⟨more, hmore⟩ := h.head hcons (by rintro rfl; exact absurd (hc.symm.trans hp) (by decide))
      have hhead := List.head?_dropWhile_not p text
      rw [hmore] at hhead
      simp [hc] at hhead

theorem Ahead.dropWhile_append {p : Char → Bool} (hp : p ' ' = false) {text : List Char}
    (h : Ahead (text.dropWhile p) new) : (text.takeWhile p ++ new).dropWhile p = new := by
  have hwhole := List.takeWhile_append_dropWhile (p := p) (l := text.takeWhile p ++ new)
  rw [h.takeWhile_append hp] at hwhole
  exact List.append_cancel_left hwhole

end Ahead

/-! ## Readers that look no further -/

/-- The reader takes some characters, and takes the same ones off any text that goes on alike. -/
def Local {α : Type} (read : List Char → Lexed α) : Prop :=
  ∀ text value left, read text = .ok (value, left) →
    ∃ used, text = used ++ left ∧ ∀ new, Ahead left new → read (used ++ new) = .ok (value, new)

/-- A function that leaves characters out takes the same ones off any text that goes on alike. -/
def Skips (skip : List Char → List Char) : Prop :=
  ∀ text, ∃ used, text = used ++ skip text ∧
    ∀ new, Ahead (skip text) new → skip (used ++ new) = new

theorem Skips.comp {first second : List Char → List Char} (hsecond : Skips second)
    (hfirst : Skips first) : Skips fun text => second (first text) := by
  intro text
  obtain ⟨used, htext, hagain⟩ := hfirst text
  obtain ⟨used', htext', hagain'⟩ := hsecond (first text)
  refine ⟨used ++ used', by rw [List.append_assoc, ← htext', ← htext], fun new hnew => ?_⟩
  have hahead : Ahead (first text) (used' ++ new) := htext' ▸ hnew.append used'
  simp only [List.append_assoc, hagain _ hahead, hagain' new hnew]

theorem skips_dropWhile {p : Char → Bool} (hp : p ' ' = false) : Skips (List.dropWhile p) :=
  fun text => ⟨text.takeWhile p, List.takeWhile_append_dropWhile.symm,
    fun _ hnew => hnew.dropWhile_append hp⟩

/-! ## Quoted text -/

/-- A text in which every quote is written twice. -/
inductive Doubled (quote : Char) : List Char → Prop where
  | nil : Doubled quote []
  | twice {body : List Char} (hbody : Doubled quote body) : Doubled quote (quote :: quote :: body)
  | other {c : Char} {body : List Char} (hc : c ≠ quote) (hbody : Doubled quote body) :
      Doubled quote (c :: body)

theorem doubled_of_readQuoted {quote : Char} {text contents left : List Char}
    (h : readQuoted quote text = .ok (contents, left)) :
    ∃ body, text = body ++ quote :: left ∧ Doubled quote body ∧ left.head? ≠ some quote := by
  fun_induction readQuoted quote text generalizing contents left with
  | case1 => cases h
  -- a quote twice is part of the contents; alone it ends them
  | case2 c hc d rest hd ih =>
      obtain ⟨⟨contents', left'⟩, hread, heq⟩ := map_eq_ok h
      obtain ⟨-, rfl⟩ := Prod.mk.inj heq
      obtain ⟨body, rfl, hbody, hleft⟩ := ih hread
      obtain rfl := beq_iff_eq.1 hc
      obtain rfl := beq_iff_eq.1 hd
      exact ⟨_, rfl, hbody.twice, hleft⟩
  | case3 c hc d rest hd =>
      obtain ⟨-, rfl⟩ := Prod.mk.inj (Except.ok.inj h)
      obtain rfl := beq_iff_eq.1 hc
      exact ⟨[], rfl, .nil, by simpa using hd⟩
  | case4 c hc =>
      obtain ⟨-, rfl⟩ := Prod.mk.inj (Except.ok.inj h)
      obtain rfl := beq_iff_eq.1 hc
      exact ⟨[], rfl, .nil, by simp⟩
  | case5 c rest hc ih =>
      obtain ⟨⟨contents', left'⟩, hread, heq⟩ := map_eq_ok h
      obtain ⟨-, rfl⟩ := Prod.mk.inj heq
      obtain ⟨body, rfl, hbody, hleft⟩ := ih hread
      exact ⟨c :: body, rfl, hbody.other (by simpa using hc), hleft⟩

/-- Quoted text is read from such a text whatever is behind it, if it is no quote. -/
theorem Doubled.readQuoted_append {quote : Char} {body : List Char} (h : Doubled quote body) :
    ∃ contents, ∀ left, left.head? ≠ some quote →
      readQuoted quote (body ++ quote :: left) = .ok (contents, left) := by
  induction h with
  | nil =>
      refine ⟨[], fun left hleft => ?_⟩
      cases left with
      | nil => simp [readQuoted]
      | cons d rest =>
          have hd : (d == quote) = false := by simpa using hleft
          simp [readQuoted, hd]
  | twice hbody ih =>
      obtain ⟨contents, hcontents⟩ := ih
      exact ⟨quote :: contents, fun left hleft => by simp [readQuoted, hcontents left hleft, Except.map]⟩
  | @other c body hc hbody ih =>
      obtain ⟨contents, hcontents⟩ := ih
      refine ⟨c :: contents, fun left hleft => ?_⟩
      rw [List.cons_append, readQuoted.eq_def]
      simp [hc, hcontents left hleft, Except.map]

theorem local_readQuoted {quote : Char} (hquote : quote ≠ ' ') : Local (readQuoted quote) := by
  intro text contents left hread
  obtain ⟨body, rfl, hbody, hleft⟩ := doubled_of_readQuoted hread
  obtain ⟨contents', hcontents⟩ := hbody.readQuoted_append
  have hsame := (hcontents left hleft).symm.trans hread
  obtain ⟨rfl, -⟩ := Prod.mk.inj (Except.ok.inj hsame)
  refine ⟨body ++ [quote], by simp, fun new hnew => ?_⟩
  rw [List.append_assoc]
  exact hcontents new (hnew.head?_ne hquote hleft)

theorem Doubled.quotesPaired {body : List Char} (h : Doubled '\'' body) :
    quotesPaired false body = true := by
  induction h with
  | nil => rfl
  | twice hbody ih => simpa [Sql.quotesPaired] using ih
  | @other c body hc hbody ih =>
      cases body with
      | nil => simpa [Sql.quotesPaired] using hc
      | cons d body => simpa [Sql.quotesPaired, hc] using ih


theorem exists_append_of_upToDigits (digit? : Char → Option Nat) (base count value : Nat)
    (text : List Char) :
    ∃ used, text = used ++ (upToDigits digit? base count value text).2 ∧
      ∀ c ∈ used, (digit? c).isSome = true := by
  fun_induction upToDigits digit? base count value text with
  | case1 => exact ⟨[], rfl, by simp⟩
  | case2 => exact ⟨[], rfl, by simp⟩
  | case3 value count c rest d hd ih =>
      obtain ⟨used, hrest, hused⟩ := ih
      exact ⟨c :: used, by rw [List.cons_append, ← hrest], by simpa [hd] using hused⟩
  | case4 => exact ⟨[], rfl, by simp⟩

/-- What an escape takes behind its first character are digits, and so neither quotes nor
backslashes. -/
theorem exists_append_of_skipEscape {c : Char} {rest left : List Char}
    (h : skipEscape c rest = .ok left) :
    ∃ used, rest = used ++ left ∧ ∀ d ∈ used, d ≠ '\'' ∧ d ≠ '\\' := by
  have hdigits : ∀ {digit? : Char → Option Nat} {used : List Char}, digit? '\'' = none →
      digit? '\\' = none → (∀ d ∈ used, (digit? d).isSome = true) →
      ∀ d ∈ used, d ≠ '\'' ∧ d ≠ '\\' := by
    intro digit? used hquote hslash hused d hd
    have hsome := hused d hd
    constructor
    · rintro rfl
      simp [hquote] at hsome
    · rintro rfl
      simp [hslash] at hsome
  have hunicode : ∀ count, skipUnicodeEscape count rest = .ok left →
      ∃ used, rest = used ++ left ∧ ∀ d ∈ used, d ≠ '\'' ∧ d ≠ '\\' := by
    intro count hskip
    simp only [skipUnicodeEscape] at hskip
    split at hskip
    · rename_i hcheck
      simp only [Bool.and_eq_true, List.all_eq_true] at hcheck
      obtain rfl := Except.ok.inj hskip
      exact ⟨rest.take count, (List.take_append_drop count rest).symm,
        hdigits (by decide) (by decide) hcheck.1.2⟩
    · cases hskip
  have hbyte : ∀ {value : Nat} {after : List Char}, checkByte value after = .ok left →
      after = left := by
    intro value after hcheck
    simp only [checkByte] at hcheck
    split at hcheck
    · exact Except.ok.inj hcheck
    · cases hcheck
  -- the escapes in order: four digits, eight digits, hexadecimal, octal, and single characters
  unfold skipEscape at h
  split at h
  · exact hunicode 4 h
  split at h
  · exact hunicode 8 h
  split at h
  · cases rest with
    | nil => exact ⟨[], Except.ok.inj h, by simp⟩
    | cons d rest =>
        dsimp only at h
        split at h
        · obtain ⟨used, hused, hhex⟩ := exists_append_of_upToDigits hexDigit? 16 2 0 (d :: rest)
          rw [hbyte h] at hused
          exact ⟨used, hused, hdigits (by decide) (by decide) hhex⟩
        · exact ⟨[], Except.ok.inj h, by simp⟩
  split at h
  · rename_i hfirst
    obtain ⟨value, hvalue⟩ := Option.isSome_iff_exists.1 hfirst
    obtain ⟨used, hused, hoctal⟩ := exists_append_of_upToDigits octalDigit? 8 2 (0 * 8 + value) rest
    rw [upToDigits, hvalue] at h
    rw [hbyte h] at hused
    exact ⟨used, hused, hdigits (by decide) (by decide) hoctal⟩
  split at h
  · cases h
  · exact ⟨[], Except.ok.inj h, by simp⟩

theorem quotesPaired_append {escapes : Bool} {used : List Char}
    (h : ∀ c ∈ used, c ≠ '\'' ∧ c ≠ '\\') (body : List Char) :
    quotesPaired escapes (used ++ body) = quotesPaired escapes body := by
  induction used with
  | nil => rfl
  | cons c used ih =>
      obtain ⟨hquote, hslash⟩ := h c List.mem_cons_self
      have hmore := ih fun d hd => h d (List.mem_cons_of_mem c hd)
      rw [List.cons_append, ← hmore]
      cases used ++ body with
      | nil => simp [quotesPaired, hquote, hslash]
      | cons d rest => simp [quotesPaired, hquote, hslash]

theorem paired_of_skipEscaped {fuel : Nat} {text left : List Char}
    (h : skipEscaped fuel text = .ok left) :
    ∃ body, text = body ++ '\'' :: left ∧ quotesPaired true body = true ∧
      left.head? ≠ some '\'' := by
  fun_induction skipEscaped fuel text with
  | case1 => cases h
  | case2 => cases h
  | case3 fuel rest ih =>
      obtain ⟨body, rfl, hbody, hleft⟩ := ih h
      exact ⟨'\'' :: '\'' :: body, rfl, by simpa [quotesPaired] using hbody, hleft⟩
  | case4 fuel rest hsingle =>
      obtain rfl := Except.ok.inj h
      refine ⟨[], rfl, rfl, fun hhead => ?_⟩
      obtain ⟨more, rfl⟩ := List.head?_eq_some_iff.1 hhead
      exact hsingle more rfl
  | case5 fuel c rest ih =>
      -- an escape: the character behind the backslash and the digits that belong to it
      cases hskip : skipEscape c rest with
      | error cause => simp [hskip, bind, Except.bind] at h
      | ok after =>
          obtain ⟨used, rfl, hused⟩ := exists_append_of_skipEscape hskip
          rw [hskip] at h
          obtain ⟨body, rfl, hbody, hleft⟩ := ih after h
          refine ⟨'\\' :: c :: (used ++ body), by simp, ?_, hleft⟩
          simpa [quotesPaired, quotesPaired_append hused] using hbody
  | case6 => cases h
  | case7 fuel c rest _ hquote hescape _ ih =>
      obtain ⟨body, rfl, hbody, hleft⟩ := ih h
      have hslash : c ≠ '\\' := by
        intro hc
        cases body with
        | nil => exact hescape '\'' left hc rfl
        | cons d body => exact hescape d _ hc rfl
      refine ⟨c :: body, rfl, ?_, hleft⟩
      have hplain : ∀ d ∈ [c], d ≠ '\'' ∧ d ≠ '\\' := by simpa using ⟨hquote, hslash⟩
      exact (quotesPaired_append hplain body).trans hbody

/-! ## Dollar quotes and parameters -/

theorem exists_append_of_skipDollars {text left : List Char} (h : skipDollars text = .ok left) :
    ∃ used, text = used ++ left ∧ ∀ new, skipDollars (used ++ new) = .ok new := by
  suffices hfront : ∃ front, text = front ++ '$' :: '$' :: left ∧
      ∀ new, skipDollars (front ++ '$' :: '$' :: new) = .ok new by
    obtain ⟨front, rfl, hagain⟩ := hfront
    exact ⟨front ++ ['$', '$'], by simp, fun new => by simpa using hagain new⟩
  fun_induction skipDollars text with
  | case1 rest =>
      obtain rfl := Except.ok.inj h
      exact ⟨[], rfl, fun new => rfl⟩
  | case2 c rest hopen ih =>
      obtain ⟨front, rfl, hagain⟩ := ih h
      refine ⟨c :: front, rfl, fun new => ?_⟩
      rw [List.cons_append, skipDollars]
      · exact hagain new
      · -- two dollars here would have been two dollars before
        intro more hc hmore
        cases front with
        | nil => exact hopen _ hc rfl
        | cons d front => exact hopen _ hc (by rw [List.cons_append, (List.cons.inj hmore).1])
  | case3 => cases h

theorem exists_append_of_skipTagged {tag text left : List Char} {expected? : Option (List Char)}
    (h : skipTagged tag expected? text = .ok left) :
    ∃ used, text = used ++ left ∧ ∀ new, skipTagged tag expected? (used ++ new) = .ok new := by
  fun_induction skipTagged tag expected? text with
  | case1 => cases h
  | case2 c rest ih =>
      obtain ⟨used, rfl, hagain⟩ := ih h
      exact ⟨c :: used, rfl, fun new => hagain new⟩
  | case3 t expected c rest ih =>
      obtain ⟨used, rfl, hagain⟩ := ih h
      exact ⟨c :: used, rfl, fun new => hagain new⟩
  | case4 c rest hc =>
      obtain rfl := Except.ok.inj h
      exact ⟨[c], rfl, fun new => by simp [skipTagged, hc]⟩
  | case5 c rest hc ih =>
      obtain ⟨used, rfl, hagain⟩ := ih h
      exact ⟨c :: used, rfl, fun new => by simp [skipTagged, hc, hagain new]⟩

def namesTag (c : Char) : Bool := isAlphanumeric c || c == '_'

theorem readDollar_of_head?_ne {text : List Char} (h : text.head? ≠ some '$') :
    readDollar text =
      match text.dropWhile namesTag with
      | '$' :: rest =>
        (skipTagged (text.takeWhile namesTag) none rest).map fun rest => (.literal, rest)
      | rest => .ok (.parameter, rest) := by
  unfold readDollar
  split
  · exact absurd rfl h
  · rfl

theorem local_readDollar : Local readDollar := by
  intro text token left h
  by_cases hdollar : text.head? = some '$'
  · obtain ⟨rest, rfl⟩ := List.head?_eq_some_iff.1 hdollar
    obtain ⟨after, hskip, heq⟩ := map_eq_ok h
    obtain ⟨rfl, rfl⟩ := Prod.mk.inj heq
    obtain ⟨used, rfl, hagain⟩ := exists_append_of_skipDollars hskip
    exact ⟨'$' :: used, rfl, fun new _ => by simp [readDollar, hagain new, Except.map]⟩
  have hspace : namesTag ' ' = false := by decide
  have htext : text.takeWhile namesTag ++ text.dropWhile namesTag = text :=
    List.takeWhile_append_dropWhile
  rw [readDollar_of_head?_ne hdollar] at h
  split at h
  · -- a dollar quote
    rename_i rest hrest
    obtain ⟨after, hskip, heq⟩ := map_eq_ok h
    obtain ⟨rfl, rfl⟩ := Prod.mk.inj heq
    obtain ⟨used, rfl, hagain⟩ := exists_append_of_skipTagged hskip
    refine ⟨text.takeWhile namesTag ++ '$' :: used, ?_, fun new hnew => ?_⟩
    · rw [List.append_assoc, List.cons_append, ← hrest, htext]
    · have hbehind : Ahead (text.dropWhile namesTag) ('$' :: (used ++ new)) :=
        hrest ▸ hnew.append ('$' :: used)
      have hwhole := hbehind.append (text.takeWhile namesTag)
      rw [htext] at hwhole
      rw [List.append_assoc, List.cons_append,
        readDollar_of_head?_ne (hwhole.head?_ne (by decide) hdollar),
        hbehind.dropWhile_append hspace, hbehind.takeWhile_append hspace]
      simp only [hagain new, Except.map]
  · -- a parameter
    rename_i hopen
    obtain ⟨rfl, rfl⟩ := Prod.mk.inj (Except.ok.inj h)
    refine ⟨text.takeWhile namesTag, htext.symm, fun new hnew => ?_⟩
    have hwhole := hnew.append (text.takeWhile namesTag)
    rw [htext] at hwhole
    have hclosed : new.head? ≠ some '$' := by
      refine hnew.head?_ne (by decide) fun hhead => ?_
      obtain ⟨rest, hrest⟩ := List.head?_eq_some_iff.1 hhead
      exact hopen rest hrest
    rw [readDollar_of_head?_ne (hwhole.head?_ne (by decide) hdollar),
      hnew.dropWhile_append hspace]
    split
    · exact absurd rfl hclosed
    · rfl

/-! ## Numbers -/

theorem skips_skipSuffix : Skips readNumber.skipSuffix := by
  intro text
  by_cases hlong : text.head? = some 'L'
  · obtain ⟨rest, rfl⟩ := List.head?_eq_some_iff.1 hlong
    exact ⟨['L'], rfl, fun new _ => rfl⟩
  · have hstays : ∀ other : List Char, other.head? ≠ some 'L' → readNumber.skipSuffix other = other := by
      intro other hother
      unfold readNumber.skipSuffix
      split
      · exact absurd rfl hother
      · rfl
    refine ⟨[], (hstays text hlong).symm, fun new hnew => ?_⟩
    rw [hstays text hlong] at hnew
    exact hstays new (hnew.head?_ne (by decide) hlong)

def skipSign (text : List Char) : List Char :=
  match text with
  | '+' :: rest => rest
  | '-' :: rest => rest
  | _ => text

theorem exists_sign (text : List Char) :
    ∃ sign ∈ [[], ['+'], ['-']], text = sign ++ skipSign text := by
  unfold skipSign
  split
  · exact ⟨['+'], by simp, rfl⟩
  · exact ⟨['-'], by simp, rfl⟩
  · exact ⟨[], by simp, rfl⟩

theorem skipSign_append {sign rest : List Char} {d : Char} (hsign : sign ∈ [[], ['+'], ['-']])
    (hd : d.isDigit = true) : skipSign (sign ++ d :: rest) = d :: rest := by
  simp only [List.mem_cons, List.not_mem_nil, or_false] at hsign
  rcases hsign with rfl | rfl | rfl
  · rw [List.nil_append, skipSign]
    · intro more hmore
      obtain ⟨rfl, -⟩ := List.cons.inj hmore
      exact absurd hd (by decide)
    · intro more hmore
      obtain ⟨rfl, -⟩ := List.cons.inj hmore
      exact absurd hd (by decide)
  · rfl
  · rfl

/-- Whether an exponent begins here: its mark, a sign or none, and a digit. -/
def opensExponent : List Char → Bool
  | c :: rest => (c == 'e' || c == 'E') && (skipSign rest).head?.any Char.isDigit
  | [] => false

theorem opensExponent_iff {text : List Char} :
    opensExponent text = true ↔ ∃ mark ∈ ['e', 'E'], ∃ sign ∈ [[], ['+'], ['-']], ∃ d rest,
      d.isDigit = true ∧ text = mark :: (sign ++ d :: rest) := by
  constructor
  · intro h
    cases text with
    | nil => cases h
    | cons mark rest =>
        rw [opensExponent, Bool.and_eq_true, Option.any_eq_true] at h
        obtain ⟨hmark, d, hhead, hd⟩ := h
        obtain ⟨more, hmore⟩ := List.head?_eq_some_iff.1 hhead
        obtain ⟨sign, hsign, hrest⟩ := exists_sign rest
        exact ⟨mark, by simpa using hmark, sign, hsign, d, more, hd, by rw [← hmore, ← hrest]⟩
  · rintro ⟨mark, hmark, sign, hsign, d, rest, hd, rfl⟩
    have hmark' : (mark == 'e' || mark == 'E') = true := by simpa using hmark
    simp [opensExponent, hmark', skipSign_append hsign hd, hd]

theorem skipExponent_eq (text : List Char) :
    skipExponent text =
      if opensExponent text then (skipSign text.tail).dropWhile Char.isDigit else text := by
  cases text with
  | nil => rfl
  | cons c rest =>
      -- the inner match is stated by itself, so that both sides split on the same sign
      have hunfold : skipExponent (c :: rest) =
          if (c == 'e' || c == 'E') = true then
            match skipSign rest with
            | d :: _ =>
              if d.isDigit then (skipSign rest).dropWhile Char.isDigit else c :: rest
            | [] => c :: rest
          else c :: rest := rfl
      rw [hunfold, opensExponent, List.tail_cons]
      by_cases hmark : (c == 'e' || c == 'E') = true
      · rw [if_pos hmark, hmark, Bool.true_and]
        cases skipSign rest with
        | nil => rfl
        | cons d more => rfl
      · rw [if_neg hmark]
        simp [hmark]

theorem skips_skipExponent : Skips skipExponent := by
  intro text
  rw [skipExponent_eq]
  by_cases hopens : opensExponent text = true
  · obtain ⟨mark, hmark, sign, hsign, d, rest, hd, rfl⟩ := opensExponent_iff.1 hopens
    rw [if_pos hopens, List.tail_cons, skipSign_append hsign hd]
    let digits := rest.takeWhile Char.isDigit
    have hdigits : (d :: rest).takeWhile Char.isDigit = d :: digits := List.takeWhile_cons_of_pos hd
    refine ⟨mark :: (sign ++ d :: digits), ?_, fun new hnew => ?_⟩
    · rw [← hdigits, List.cons_append, List.append_assoc, List.takeWhile_append_dropWhile]
    · have hagain := hnew.dropWhile_append (by decide)
      rw [hdigits] at hagain
      have hstart : mark :: (sign ++ d :: digits) ++ new = mark :: (sign ++ d :: (digits ++ new)) := by
        simp
      have hopens' : opensExponent (mark :: (sign ++ d :: (digits ++ new))) = true :=
        opensExponent_iff.2 ⟨mark, hmark, sign, hsign, d, digits ++ new, hd, rfl⟩
      rw [hstart, skipExponent_eq, if_pos hopens', List.tail_cons, skipSign_append hsign hd]
      exact hagain
  · rw [if_neg hopens]
    refine ⟨[], rfl, fun new hnew => ?_⟩
    rw [List.nil_append, skipExponent_eq, if_neg]
    -- an exponent in the new text would be one in the old text
    intro hnewOpens
    apply hopens
    obtain ⟨mark, hmark, sign, hsign, d, rest, hd, rfl⟩ := opensExponent_iff.1 hnewOpens
    have hpiece : mark :: (sign ++ [d]) <+: text := by
      have hd' : d ≠ ' ' := by
        rintro rfl
        exact absurd hd (by decide)
      apply hnew
      · simp only [List.mem_cons, List.not_mem_nil, or_false] at hmark hsign
        rcases hmark with rfl | rfl <;> rcases hsign with rfl | rfl | rfl <;> simpa using hd'.symm
      · simp only [List.mem_cons, List.not_mem_nil, or_false] at hmark hsign
        rcases hmark with rfl | rfl <;> rcases hsign with rfl | rfl | rfl <;> simp
      · exact ⟨rest, by simp⟩
    obtain ⟨more, rfl⟩ := hpiece
    exact opensExponent_iff.2 ⟨mark, hmark, sign, hsign, d, more, hd, by simp⟩

def skipNumberEnd (text : List Char) : List Char := readNumber.skipSuffix (skipExponent text)

theorem skips_skipNumberEnd : Skips skipNumberEnd := skips_skipSuffix.comp skips_skipExponent

/-- The number that begins with some digits, or the point that looks like the start of one. -/
def numberBehind (whole after : List Char) : Token × List Char :=
  match whole, after with
  | ['0'], 'x' :: rest => (.literal, rest.dropWhile fun c => (hexDigit? c).isSome)
  | [], '.' :: rest =>
    match rest with
    | d :: _ =>
      if d.isDigit then (.number, skipNumberEnd (rest.dropWhile Char.isDigit))
      else (.symbol ".", rest)
    | [] => (.symbol ".", [])
  | _, '.' :: rest => (.number, skipNumberEnd (rest.dropWhile Char.isDigit))
  | _, rest => (.number, skipNumberEnd rest)

theorem readNumber_eq (text : List Char) :
    readNumber text = numberBehind (text.takeWhile Char.isDigit) (text.dropWhile Char.isDigit) := rfl

theorem numberBehind_point (rest : List Char) :
    numberBehind [] ('.' :: rest) =
      if rest.head?.any Char.isDigit then (.number, skipNumberEnd (rest.dropWhile Char.isDigit))
      else (.symbol ".", rest) := by
  cases rest <;> rfl

theorem numberBehind_fraction {whole : List Char} (h : whole ≠ []) (rest : List Char) :
    numberBehind whole ('.' :: rest) = (.number, skipNumberEnd (rest.dropWhile Char.isDigit)) := by
  unfold numberBehind
  split <;> simp_all

theorem numberBehind_of_head?_ne {whole after : List Char} (hpoint : after.head? ≠ some '.')
    (hhex : whole = ['0'] → after.head? ≠ some 'x') :
    numberBehind whole after = (.number, skipNumberEnd after) := by
  unfold numberBehind
  split <;> simp_all

theorem numberBehind_append {whole after left : List Char} {token : Token}
    (h : numberBehind whole after = (token, left)) :
    ∃ used, after = used ++ left ∧ (after.head? = some '.' → used ≠ []) ∧
      ∀ new, Ahead left new → numberBehind whole (used ++ new) = (token, new) := by
  have hdigit : Char.isDigit ' ' = false := by decide
  have hfraction : Skips fun text => skipNumberEnd (text.dropWhile Char.isDigit) :=
    skips_skipNumberEnd.comp (skips_dropWhile hdigit)
  by_cases hpoint : after.head? = some '.'
  · obtain ⟨rest, rfl⟩ := List.head?_eq_some_iff.1 hpoint
    by_cases hwhole : whole = []
    · subst hwhole
      rw [numberBehind_point] at h
      split at h
      · -- digits behind a point
        rename_i hhead
        obtain ⟨rfl, rfl⟩ := Prod.mk.inj h
        obtain ⟨d, hd, hdigits⟩ := (Option.any_eq_true _ _).1 hhead
        obtain ⟨more, rfl⟩ := List.head?_eq_some_iff.1 hd
        obtain ⟨used, hrest, hagain⟩ := skips_skipNumberEnd ((d :: more).dropWhile Char.isDigit)
        refine ⟨'.' :: ((d :: more).takeWhile Char.isDigit ++ used), ?_, by simp,
          fun new hnew => ?_⟩
        · rw [List.cons_append, List.append_assoc, ← hrest, List.takeWhile_append_dropWhile]
        · have hbehind : Ahead ((d :: more).dropWhile Char.isDigit) (used ++ new) :=
            hrest ▸ hnew.append used
          have hfirst : ((d :: more).takeWhile Char.isDigit ++ (used ++ new)).head?.any Char.isDigit
              = true := by
            rw [List.takeWhile_cons_of_pos hdigits]
            exact hdigits
          rw [List.cons_append, List.append_assoc, numberBehind_point, if_pos hfirst,
            hbehind.dropWhile_append hdigit, hagain new hnew]
      · -- the point alone
        rename_i hhead
        obtain ⟨rfl, rfl⟩ := Prod.mk.inj h
        refine ⟨['.'], rfl, by simp, fun new hnew => ?_⟩
        rw [List.singleton_append, numberBehind_point, if_neg]
        intro hnewHead
        obtain ⟨d, hd, hdigits⟩ := (Option.any_eq_true _ _).1 hnewHead
        obtain ⟨more, rfl⟩ := List.head?_eq_some_iff.1 hd
        have hspace : d ≠ ' ' := by
          rintro rfl
          exact absurd hdigits (by decide)
        obtain ⟨others, rfl⟩ := hnew.head rfl hspace
        exact hhead hdigits
    · rw [numberBehind_fraction hwhole] at h
      obtain ⟨rfl, rfl⟩ := Prod.mk.inj h
      obtain ⟨used, hrest, hagain⟩ := hfraction rest
      refine ⟨'.' :: used, by rw [List.cons_append, ← hrest], by simp, fun new hnew => ?_⟩
      rw [List.cons_append, numberBehind_fraction hwhole]
      exact congrArg (Prod.mk _) (hagain new hnew)
  by_cases hhex : whole = ['0'] ∧ after.head? = some 'x'
  · obtain ⟨rfl, hx⟩ := hhex
    obtain ⟨rest, rfl⟩ := List.head?_eq_some_iff.1 hx
    obtain ⟨rfl, rfl⟩ := Prod.mk.inj h
    obtain ⟨used, hrest, hagain⟩ :=
      skips_dropWhile (p := fun c => (hexDigit? c).isSome) (by decide) rest
    refine ⟨'x' :: used, by rw [List.cons_append, ← hrest], by simp, fun new hnew => ?_⟩
    exact congrArg (Prod.mk _) (hagain new hnew)
  · have hhex' : whole = ['0'] → after.head? ≠ some 'x' := fun hwhole hx => hhex ⟨hwhole, hx⟩
    rw [numberBehind_of_head?_ne hpoint hhex'] at h
    obtain ⟨rfl, rfl⟩ := Prod.mk.inj h
    obtain ⟨used, hrest, hagain⟩ := skips_skipNumberEnd after
    refine ⟨used, hrest, fun hhead => absurd hhead hpoint, fun new hnew => ?_⟩
    have hbehind : Ahead after (used ++ new) := by
      rw [hrest]
      exact hnew.append used
    rw [numberBehind_of_head?_ne (hbehind.head?_ne (by decide) hpoint)
      (fun hwhole => hbehind.head?_ne (by decide) (hhex' hwhole)), hagain new hnew]

theorem readNumber_append {c : Char} {rest left : List Char} {token : Token}
    (hc : c.isDigit = true ∨ c = '.') (h : readNumber (c :: rest) = (token, left)) :
    ∃ used, rest = used ++ left ∧
      ∀ new, Ahead left new → readNumber (c :: (used ++ new)) = (token, new) := by
  suffices hused : ∃ used, c :: rest = used ++ left ∧ used ≠ [] ∧
      ∀ new, Ahead left new → readNumber (used ++ new) = (token, new) by
    obtain ⟨used, htext, hne, hagain⟩ := hused
    obtain ⟨d, used, rfl⟩ := List.exists_cons_of_ne_nil hne
    obtain ⟨rfl, hrest⟩ := List.cons.inj htext
    exact ⟨used, hrest, hagain⟩
  rw [readNumber_eq] at h
  obtain ⟨used, hafter, hpoint, hagain⟩ := numberBehind_append h
  refine ⟨(c :: rest).takeWhile Char.isDigit ++ used, ?_, ?_, fun new hnew => ?_⟩
  · rw [List.append_assoc, ← hafter, List.takeWhile_append_dropWhile]
  -- something is taken: a digit before the point, or the point
  · rcases hc with hc | rfl
    · simp [List.takeWhile_cons_of_pos hc]
    · simpa using hpoint rfl
  · have hbehind : Ahead ((c :: rest).dropWhile Char.isDigit) (used ++ new) :=
      hafter ▸ hnew.append used
    rw [List.append_assoc, readNumber_eq, hbehind.takeWhile_append (by decide),
      hbehind.dropWhile_append (by decide), hagain new hnew]

/-- Only a hexadecimal number is a literal. -/
theorem head?_of_readNumber_literal {c : Char} {rest left : List Char}
    (h : readNumber (c :: rest) = (.literal, left)) : rest.head? = some 'x' := by
  have hliteral : ∀ {whole after : List Char}, numberBehind whole after = (.literal, left) →
      whole = ['0'] ∧ after.head? = some 'x' := by
    intro whole after hread
    refine Decidable.byContradiction fun hhex => ?_
    by_cases hpoint : after.head? = some '.'
    · obtain ⟨more, rfl⟩ := List.head?_eq_some_iff.1 hpoint
      by_cases hwhole : whole = []
      · rw [hwhole, numberBehind_point] at hread
        split at hread <;> simp at hread
      · simp [numberBehind_fraction hwhole] at hread
    · simp [numberBehind_of_head?_ne hpoint fun hwhole hx => hhex ⟨hwhole, hx⟩] at hread
  -- the digits before the `x` are the `0` alone, which is the first character
  obtain ⟨hwhole, hx⟩ := hliteral (readNumber_eq _ ▸ h)
  obtain ⟨more, hmore⟩ := List.head?_eq_some_iff.1 hx
  have htext := List.takeWhile_append_dropWhile (p := Char.isDigit) (l := c :: rest)
  rw [hwhole, hmore] at htext
  rw [← (List.cons.inj htext).2]
  rfl

/-! ## Words and symbols -/

/-- Whether a letter and what is behind it begin a literal. -/
def opensLiteral (c : Char) (rest : List Char) : Bool :=
  match rest with
  | '\'' :: _ => ['e', 'E', 'n', 'N', 'x', 'X', 'b', 'B', 'r', 'R'].contains c
  | '"' :: _ => ['b', 'B', 'r', 'R'].contains c
  | '&' :: '\'' :: _ => c == 'u' || c == 'U'
  | _ => false

theorem readWordOrLiteral_of_opensLiteral_eq_false {c : Char} {rest : List Char}
    (h : opensLiteral c rest = false) :
    readWordOrLiteral c rest = .ok (.ofWord (c :: rest.takeWhile continuesIdentifier),
      rest.dropWhile continuesIdentifier) := by
  unfold readWordOrLiteral
  dsimp only
  split
  · simp [opensLiteral] at h
    simp [h]
  · simp [opensLiteral] at h
    simp [h]
  · simp [opensLiteral] at h
    simp [h]
  · rfl

theorem opensLiteral_of_ahead {c : Char} {rest new : List Char} (hnew : Ahead rest new)
    (h : opensLiteral c rest = false) : opensLiteral c new = false := by
  rw [Bool.eq_false_iff] at h ⊢
  intro hopens
  apply h
  unfold opensLiteral at hopens
  split at hopens
  · obtain ⟨more, rfl⟩ := hnew.head rfl (by decide)
    exact hopens
  · obtain ⟨more, rfl⟩ := hnew.head rfl (by decide)
    exact hopens
  · obtain ⟨more, rfl⟩ := hnew ['&', '\''] (by decide) (by decide) ⟨_, rfl⟩
    exact hopens
  · cases hopens

theorem find?_eq_some_of_imp {α : Type} {p q : α → Bool} {l : List α} {a : α}
    (h : l.find? p = some a) (ha : q a = true) (himp : ∀ b ∈ l, q b = true → p b = true) :
    l.find? q = some a := by
  obtain ⟨hp, before, after, rfl, hbefore⟩ := List.find?_eq_some_iff_append.1 h
  refine List.find?_eq_some_iff_append.2 ⟨ha, before, after, rfl, fun b hb => ?_⟩
  have hnot := hbefore b hb
  rw [Bool.not_eq_true'] at hnot ⊢
  rw [Bool.eq_false_iff] at hnot ⊢
  exact fun hq => hnot (himp b (List.mem_append_left _ hb) hq)

theorem of_mem_longSymbols :
    ∀ s ∈ longSymbols, ' ' ∉ s.toList ∧ '\'' ∉ s.toList ∧ 2 ≤ s.toList.length := by decide

theorem exists_longSymbol_of_startsOperator {c : Char} {rest : List Char}
    (h : startsOperator c rest = true) : ∃ s ∈ longSymbols, s.toList <+: c :: rest := by
  unfold startsOperator at h
  split at h
  · simp only [Bool.or_eq_true, beq_iff_eq] at h
    rcases h with rfl | rfl
    · exact ⟨"@>", by decide, _, rfl⟩
    · exact ⟨"@?", by decide, _, rfl⟩
  · simp only [Bool.or_eq_true, beq_iff_eq] at h
    rcases h with (rfl | rfl) | rfl
    · exact ⟨"#>", by decide, _, rfl⟩
    · exact ⟨"#-", by decide, _, rfl⟩
    · exact ⟨"##", by decide, _, rfl⟩
  · cases h

/-- An operator is told from a word by the character behind its first one. -/
theorem startsOperator_eq (c : Char) (rest : List Char) :
    startsOperator c rest = rest.head?.any fun d =>
      c == '@' && (d == '>' || d == '?') || c == '#' && (d == '>' || d == '-' || d == '#') := by
  unfold startsOperator
  split
  · simp
  · simp
  · rename_i hat hhash
    cases rest with
    | nil => rfl
    | cons d rest =>
        have hc : c ≠ '@' ∧ c ≠ '#' := ⟨fun hc => hat d rest hc rfl, fun hc => hhash d rest hc rfl⟩
        simp [hc]

theorem startsOperator_of_ahead {c : Char} {rest new : List Char} (hnew : Ahead rest new)
    (h : startsOperator c rest = false) : startsOperator c new = false := by
  rw [Bool.eq_false_iff] at h ⊢
  intro hstarts
  apply h
  rw [startsOperator_eq, Option.any_eq_true] at hstarts ⊢
  obtain ⟨d, hd, hoperator⟩ := hstarts
  obtain ⟨more, hmore⟩ := List.head?_eq_some_iff.1 hd
  have hspace : d ≠ ' ' := by
    rintro rfl
    exact absurd hoperator (by simp)
  obtain ⟨others, rfl⟩ := hnew.head hmore hspace
  exact ⟨d, rfl, hoperator⟩

/-- A symbol is read again, and whether it begins like a word is said by its own characters. -/
theorem readSymbol_append {c : Char} {rest left : List Char} {token : Token}
    (h : readSymbol c rest = (token, left)) :
    ∃ used, rest = used ++ left ∧ (startsOperator c rest = true → used ≠ []) ∧
      ∀ new, Ahead left new → readSymbol c (used ++ new) = (token, new) := by
  -- a long symbol that the new text begins with is one that the old text began with
  have hstarts : ∀ {text text' : List Char}, Ahead text text' → ∀ s ∈ longSymbols,
      s.toList.isPrefixOf text' = true → s.toList.isPrefixOf text = true := by
    intro text text' hahead s hs hfront
    obtain ⟨hspace, hquote, -⟩ := of_mem_longSymbols s hs
    rw [List.isPrefixOf_iff_prefix] at hfront ⊢
    exact hahead s.toList hspace (fun hmem => hquote ((List.dropLast_sublist _).subset hmem)) hfront
  unfold readSymbol at h
  split at h
  · rename_i s hfind
    obtain ⟨rfl, rfl⟩ := Prod.mk.inj h
    obtain ⟨-, -, hlength⟩ := of_mem_longSymbols s (List.mem_of_find?_eq_some hfind)
    have hfront := List.find?_some hfind
    rw [List.isPrefixOf_iff_prefix] at hfront
    obtain ⟨left, hleft⟩ := hfront
    obtain ⟨used, hs⟩ : ∃ used, s.toList = c :: used := by
      cases htext : s.toList with
      | nil => simp [htext] at hlength
      | cons d used =>
          rw [htext] at hleft
          exact ⟨used, by rw [(List.cons.inj hleft).1]⟩
    have hdrop : (c :: rest).drop s.length = left := by
      rw [← hleft, ← String.length_toList, List.drop_left]
    rw [hs] at hlength
    rw [hs, List.cons_append] at hleft
    obtain ⟨-, rfl⟩ := List.cons.inj hleft
    refine ⟨used, by rw [hdrop], fun _ hnil => by simp [hnil] at hlength, fun new hnew => ?_⟩
    have hahead : Ahead (c :: (used ++ left)) (c :: (used ++ new)) :=
      (hdrop ▸ hnew).append (c :: used)
    have hfind' : longSymbols.find? (fun s => s.toList.isPrefixOf (c :: (used ++ new))) = some s :=
      find?_eq_some_of_imp hfind
        (List.isPrefixOf_iff_prefix.2 ⟨new, by rw [hs]; rfl⟩) (hstarts hahead)
    unfold readSymbol
    rw [hfind']
    simp [← String.length_toList, hs]
  · rename_i hfind
    obtain ⟨rfl, rfl⟩ := Prod.mk.inj h
    rw [List.find?_eq_none] at hfind
    refine ⟨[], rfl, fun hstarts => ?_, fun new hnew => ?_⟩
    · obtain ⟨s, hs, hfront⟩ := exists_longSymbol_of_startsOperator hstarts
      exact absurd (List.isPrefixOf_iff_prefix.2 hfront) (hfind s hs)
    · have hfind' : longSymbols.find? (fun s => s.toList.isPrefixOf (c :: new)) = none := by
        rw [List.find?_eq_none]
        exact fun s hs hfront => hfind s hs (hstarts (hnew.append [c]) s hs hfront)
      unfold readSymbol
      rw [List.nil_append, hfind']

end RepoPolicy.Sql
