import Mathlib.Data.Prod.Lex
import Mathlib.Data.String.Basic
import RepoPolicy.Finding.Violation

set_option autoImplicit false

/-! # The order of violations in a report

`sortKey` collects what reports are sorted by, and `precedes` compares these keys
lexicographically (`precedes_iff`). The key leaves out the fingerprint only, and a violation that is
`Made` has the fingerprint of its rule, file and symbol. So sorting brings made violations into one
order, however they were found (`sort_eq_of_perm`). -/

namespace RepoPolicy

/-! ## Sorting by keys -/

theorem pairwise_mergeSort_of_key {α κ : Type} [LinearOrder κ] (key : α → κ) {le : α → α → Bool}
    (hle : ∀ a b, le a b = true ↔ key a ≤ key b) (items : List α) :
    (items.mergeSort le).Pairwise fun a b => key a ≤ key b := by
  have htrans : ∀ a b c, le a b = true → le b c = true → le a c = true := by
    intro a b c hab hbc
    rw [hle] at *
    exact hab.trans hbc
  have htotal : ∀ a b, (le a b || le b a) = true := by
    intro a b
    rw [Bool.or_eq_true, hle, hle]
    exact le_total _ _
  exact (List.pairwise_mergeSort htrans htotal items).imp fun {a b} => (hle a b).1

/-! ## Positions of rules and severities -/

theorem Rule.getElem?_all_index (rule : Rule) : all[rule.index]? = some rule := by
  cases rule <;> rfl

theorem Rule.index_inj {rule other : Rule} (h : rule.index = other.index) : rule = other := by
  have hrule := rule.getElem?_all_index
  rw [h, other.getElem?_all_index] at hrule
  exact (Option.some.inj hrule).symm

theorem Severity.index_inj {severity other : Severity} (h : severity.index = other.index) :
    severity = other := by
  cases severity <;> cases other <;> simp_all [index]

namespace Violation

/-! ## Keys -/

/-- What reports are sorted by: the position of the rule, the file, the symbol, the position of the
severity and the message. -/
def sortKey (v : Violation) : Nat ×ₗ String ×ₗ String ×ₗ Nat ×ₗ String :=
  toLex (v.rule.index, toLex (v.filePath, toLex (v.symbol, toLex (v.severity.index, v.message))))

theorem compareText_eq_lt {a b : String} : compareText a b = .lt ↔ a < b := by
  rw [compareText]
  by_cases hlt : a < b
  · simp only [hlt, if_true]
  · rw [if_neg hlt]
    by_cases heq : a = b <;> simp only [hlt, heq, if_true, if_false, reduceCtorEq, lt_irrefl]

theorem compareText_eq_eq {a b : String} : compareText a b = .eq ↔ a = b := by
  rw [compareText]
  by_cases hlt : a < b
  · simp only [hlt, if_true, ne_of_lt hlt, reduceCtorEq]
  · rw [if_neg hlt]
    by_cases heq : a = b <;> simp only [heq, if_true, if_false, reduceCtorEq]

theorem compareText_isLE {a b : String} : (compareText a b).isLE = true ↔ a ≤ b := by
  rw [Ordering.isLE_iff_eq_lt_or_eq_eq, compareText_eq_lt, compareText_eq_eq, le_iff_lt_or_eq]

/-- **Violations are ordered by their keys.** -/
theorem precedes_iff {v w : Violation} : precedes v w = true ↔ v.sortKey ≤ w.sortKey := by
  simp only [precedes, order, Ordering.isLE_then_iff_or, Nat.compare_eq_lt, Nat.compare_eq_eq,
    compareText_eq_lt, compareText_eq_eq, compareText_isLE, sortKey, Prod.Lex.toLex_le_toLex]

/-! ## Sorting -/

theorem sort_perm (violations : List Violation) : (sort violations).Perm violations :=
  List.mergeSort_perm _ _

theorem mem_sort {v : Violation} {violations : List Violation} :
    v ∈ sort violations ↔ v ∈ violations :=
  (sort_perm violations).mem_iff

theorem pairwise_sort (violations : List Violation) :
    (sort violations).Pairwise fun v w => v.sortKey ≤ w.sortKey :=
  pairwise_mergeSort_of_key sortKey (fun _ _ => precedes_iff) violations

/-! ## Violations that are made -/

def Made (v : Violation) : Prop := v = new v.rule v.filePath v.symbol v.severity v.message

theorem made_new (rule : Rule) (filePath symbol : String) (severity : Severity)
    (message : String) : (new rule filePath symbol severity message).Made := rfl

/-- The key of a made violation determines it. -/
theorem eq_of_sortKey_eq {v w : Violation} (hv : v.Made) (hw : w.Made)
    (h : v.sortKey = w.sortKey) : v = w := by
  simp only [sortKey, EmbeddingLike.apply_eq_iff_eq, Prod.mk.injEq] at h
  obtain ⟨hrule, hfile, hsymbol, hseverity, hmessage⟩ := h
  rw [hv, hw, Rule.index_inj hrule, hfile, hsymbol, Severity.index_inj hseverity, hmessage]

/-- **The order of a report does not depend on how the violations were found.** -/
theorem sort_eq_of_perm {violations others : List Violation}
    (hmade : ∀ v ∈ violations, v.Made) (h : violations.Perm others) :
    sort violations = sort others := by
  have hperm : (sort violations).Perm (sort others) :=
    (sort_perm violations).trans (h.trans (sort_perm others).symm)
  refine hperm.eq_of_pairwise ?_ (pairwise_sort violations) (pairwise_sort others)
  intro v w hv hw hvw hwv
  have hmember : w ∈ violations := h.mem_iff.2 (mem_sort.1 hw)
  exact eq_of_sortKey_eq (hmade v (mem_sort.1 hv)) (hmade w hmember) (le_antisymm hvw hwv)

end Violation

end RepoPolicy
