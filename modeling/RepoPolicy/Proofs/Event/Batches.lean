import Mathlib.Data.Rat.Floor
import RepoPolicy.Event.Batch

set_option autoImplicit false

/-! # Batches lose nothing

`chunks` cuts a list into consecutive pieces, and `buildBatches` numbers them. Put together again,
the pieces are the list (`flatten_chunks`), so the payloads of the batches are those of the
violations, in their order (`payloads_buildBatches`), and the sizes add up to the number of
violations (`sum_batchSize_buildBatches`). The number of batches is announced by a division that
knows nothing of the cutting, and the two agree (`length_chunks`). `NumberedFrom` says what the
batches say about themselves, and `Divides` what they make of a list of violations
(`batches_divide_violations`). -/

namespace RepoPolicy

/-! ## Pieces -/

section Pieces

variable {α : Type}

/-- Each piece takes an item off the list, so the fuel suffices when it is the length. -/
theorem flatten_chunksFrom {size : Nat} (hsize : 0 < size) :
    ∀ (fuel : Nat) (items : List α), items.length ≤ fuel →
      (chunksFrom size fuel items).flatten = items := by
  intro fuel
  induction fuel with
  | zero =>
      intro items hfuel
      have : items = [] := List.length_eq_zero_iff.1 (by omega)
      rw [this]
      rfl
  | succ fuel ih =>
      intro items hfuel
      cases items with
      | nil => rfl
      | cons x rest =>
          -- a piece has at least one item, so less fuel is enough for what is left
          have hdrop : ((x :: rest).drop size).length ≤ fuel := by
            simp only [List.length_drop, List.length_cons] at hfuel ⊢
            omega
          rw [chunksFrom, List.flatten_cons, ih _ hdrop, List.take_append_drop]
          simp

theorem flatten_chunks (size : Nat) (items : List α) : (chunks size items).flatten = items :=
  flatten_chunksFrom (by omega) items.length items (Nat.le_refl _)

/-- The piece at a position is what stands there in the list, and there is one as long as the list
goes on. -/
theorem getElem?_chunksFrom {size : Nat} (hsize : 0 < size) {fuel : Nat} {items : List α}
    (hfuel : items.length ≤ fuel) (k : Nat) :
    (chunksFrom size fuel items)[k]?
      = if k * size < items.length then some ((items.drop (k * size)).take size) else none := by
  induction fuel generalizing items k with
  | zero =>
      have hitems : items = [] := List.length_eq_zero_iff.1 (by omega)
      simp [hitems, chunksFrom]
  | succ fuel ih =>
      cases items with
      | nil => simp [chunksFrom]
      | cons x rest =>
          have hdrop : ((x :: rest).drop size).length ≤ fuel := by
            simp only [List.length_drop, List.length_cons] at hfuel ⊢
            omega
          rw [chunksFrom]
          · cases k with
            | zero => simp
            | succ k =>
                -- positions in the rest of the pieces are counted from the second piece
                have hnext : k * size < ((x :: rest).drop size).length ↔
                    (k + 1) * size < (x :: rest).length := by
                  rw [List.length_drop, Nat.succ_mul]
                  omega
                rw [List.getElem?_cons_succ, ih hdrop, List.drop_drop, Nat.succ_mul,
                  Nat.add_comm size]
                simp only [hnext, Nat.succ_mul]
          · simp

theorem getElem?_chunks (size : Nat) (items : List α) (k : Nat) :
    (chunks size items)[k]?
      = if k * max size 1 < items.length then
          some ((items.drop (k * max size 1)).take (max size 1))
        else none :=
  getElem?_chunksFrom (by omega) (Nat.le_refl _) k

theorem chunkCount_le_iff {size length count : Nat} :
    chunkCount size length ≤ count ↔ length ≤ count * max size 1 := by
  rw [chunkCount, Nat.div_le_iff_le_mul_add_pred (by omega), Nat.mul_comm]
  omega

/-- Cutting a list and dividing its length agree about the number of pieces. -/
theorem length_chunks (size : Nat) (items : List α) :
    (chunks size items).length = chunkCount size items.length := by
  apply eq_of_forall_ge_iff
  intro count
  rw [chunkCount_le_iff, ← List.getElem?_eq_none_iff, getElem?_chunks]
  simp

theorem chunkCount_eq_ceil (size length : Nat) :
    chunkCount size length = ⌈(length : ℚ) / (max size 1 : Nat)⌉₊ := by
  apply eq_of_forall_ge_iff
  intro count
  have hsize : (0 : ℚ) < (max size 1 : Nat) := by
    rw [Nat.cast_pos]
    omega
  rw [chunkCount_le_iff, Nat.ceil_le, div_le_iff₀ hsize, ← Nat.cast_mul, Nat.cast_le]

theorem length_chunks_le (size : Nat) (items : List α) :
    (chunks size items).length ≤ items.length := by
  rw [length_chunks, chunkCount_le_iff]
  exact Nat.le_mul_of_pos_right _ (by omega)

end Pieces

/-! ## What batches say about themselves -/

/-- The batches belong to a run, are numbered from `index` on, agree that there are `total` of them,
and carry as many violations as they say. -/
def NumberedFrom (run : RunId) (total : Nat) : Nat → List ViolationsBatch → Prop
  | _, [] => True
  | index, batch :: rest =>
    batch.runId = run ∧ batch.batchIndex = index ∧ batch.totalBatches = total ∧
      batch.batchSize = batch.violations.length ∧ NumberedFrom run total (index + 1) rest

section Built

variable (runId : RunId) (repoId : String)

theorem numberedFrom_map_zipIdx (total : Nat) (pieces : List (List Violation)) (index : Nat) :
    NumberedFrom runId total index
      ((pieces.zipIdx index).map fun (piece, index) =>
        { runId, repoId
          batchIndex := index
          batchSize := piece.length
          totalBatches := total
          violations := piece.map ViolationPayload.ofViolation }) := by
  induction pieces generalizing index with
  | nil => trivial
  | cons piece rest ih =>
      rw [List.zipIdx_cons, List.map_cons]
      exact ⟨rfl, rfl, rfl, by simp, ih (index + 1)⟩

variable (violations : List Violation) (batchSize : Nat)

theorem length_buildBatches :
    (buildBatches runId repoId violations batchSize).length
      = (chunks batchSize violations).length := by
  simp [buildBatches]

theorem numberedFrom_buildBatches :
    NumberedFrom runId (buildBatches runId repoId violations batchSize).length 0
      (buildBatches runId repoId violations batchSize) := by
  rw [length_buildBatches, length_chunks]
  exact numberedFrom_map_zipIdx runId repoId _ _ 0

/-- **Batches carry the violations in order.** -/
theorem payloads_buildBatches :
    (buildBatches runId repoId violations batchSize).flatMap ViolationsBatch.violations
      = violations.map ViolationPayload.ofViolation := by
  have hpieces : ∀ (pieces : List (List Violation)) (index : Nat),
      (pieces.zipIdx index).flatMap (fun found => found.1.map ViolationPayload.ofViolation)
        = pieces.flatten.map ViolationPayload.ofViolation := by
    intro pieces
    induction pieces with
    | nil => intro index; rfl
    | cons piece rest ih =>
        intro index
        rw [List.zipIdx_cons, List.flatMap_cons, ih, List.flatten_cons, List.map_append]
  rw [buildBatches, List.flatMap_map]
  rw [hpieces, flatten_chunks]

end Built

/-- The sizes that numbered batches declare add up to the violations that they carry. -/
theorem NumberedFrom.sum_batchSize {run : RunId} {total index : Nat}
    {batches : List ViolationsBatch} (h : NumberedFrom run total index batches) :
    (batches.map ViolationsBatch.batchSize).sum
      = (batches.flatMap ViolationsBatch.violations).length := by
  induction batches generalizing index with
  | nil => rfl
  | cons batch rest ih =>
      obtain ⟨-, -, -, hsize, hrest⟩ := h
      rw [List.map_cons, List.sum_cons, List.flatMap_cons, List.length_append, hsize, ih hrest]

theorem sum_batchSize_buildBatches (runId : RunId) (repoId : String)
    (violations : List Violation) (batchSize : Nat) :
    ((buildBatches runId repoId violations batchSize).map ViolationsBatch.batchSize).sum
      = violations.length := by
  rw [(numberedFrom_buildBatches runId repoId violations batchSize).sum_batchSize,
    payloads_buildBatches, List.length_map]

/-! ## What batches make of a list of violations -/

/-- The batches divide the payloads into pieces of a size: there are as many as it takes, they carry
all payloads in order, each says its position, their number and what it carries, all but the last
are full, and the last one is not empty. -/
structure Divides (size : Nat) (payloads : List ViolationPayload) (batches : List ViolationsBatch) :
    Prop where
  count : batches.length = ⌈(payloads.length : ℚ) / size⌉₊
  carried : batches.flatMap ViolationsBatch.violations = payloads
  numbered : ∀ (k : Nat) (batch : ViolationsBatch), batches[k]? = some batch →
    batch.batchIndex = k ∧ batch.totalBatches = batches.length ∧
      batch.batchSize = batch.violations.length
  full : ∀ (k : Nat) (batch : ViolationsBatch), batches[k]? = some batch →
    k + 1 < batches.length → batch.violations.length = size
  last : ∀ (k : Nat) (batch : ViolationsBatch), batches[k]? = some batch →
    k + 1 = batches.length → 1 ≤ batch.violations.length ∧ batch.violations.length ≤ size

section Divided

variable {runId : RunId} {repoId : String} {violations : List Violation} {batchSize : Nat}

/-- The batch at a position carries the violations that stand there. -/
theorem eq_of_getElem?_buildBatches {k : Nat} {batch : ViolationsBatch}
    (h : (buildBatches runId repoId violations batchSize)[k]? = some batch) :
    k * max batchSize 1 < violations.length ∧
      batch = {
        runId, repoId
        batchIndex := k
        batchSize := min (max batchSize 1) (violations.length - k * max batchSize 1)
        totalBatches := chunkCount batchSize violations.length
        violations := ((violations.drop (k * max batchSize 1)).take (max batchSize 1)).map
          ViolationPayload.ofViolation } := by
  rw [buildBatches, List.getElem?_map, List.getElem?_zipIdx, getElem?_chunks] at h
  by_cases hk : k * max batchSize 1 < violations.length
  · rw [if_pos hk] at h
    refine ⟨hk, (Option.some.inj h).symm.trans ?_⟩
    simp
  · simp [hk] at h

/-- **Batching loses, duplicates and reorders nothing.** The batches divide the violations into
pieces of the given size, where 0 is taken for 1; without violations there are none. -/
theorem batches_divide_violations (runId : RunId) (repoId : String) (violations : List Violation)
    (batchSize : Nat) :
    Divides (max batchSize 1) (violations.map ViolationPayload.ofViolation)
        (buildBatches runId repoId violations batchSize) ∧
      buildBatches runId repoId [] batchSize = [] := by
  have hcount : (buildBatches runId repoId violations batchSize).length
      = chunkCount batchSize violations.length := by
    rw [length_buildBatches, length_chunks]
  refine ⟨⟨?_, ?_, ?_, ?_, ?_⟩, rfl⟩
  · rw [hcount, chunkCount_eq_ceil, List.length_map]
  · exact payloads_buildBatches runId repoId violations batchSize
  · intro k batch hbatch
    obtain ⟨-, rfl⟩ := eq_of_getElem?_buildBatches hbatch
    simp [hcount]
  · intro k batch hbatch hnext
    obtain ⟨-, rfl⟩ := eq_of_getElem?_buildBatches hbatch
    -- one more batch follows, so the list reaches beyond the end of this one
    have hmore : ¬violations.length ≤ (k + 1) * max batchSize 1 := by
      rw [← chunkCount_le_iff, ← hcount]
      omega
    rw [Nat.succ_mul] at hmore
    simp only [List.length_map, List.length_take, List.length_drop]
    omega
  · intro k batch hbatch _
    obtain ⟨hk, rfl⟩ := eq_of_getElem?_buildBatches hbatch
    simp only [List.length_map, List.length_take, List.length_drop]
    omega

end Divided

end RepoPolicy
