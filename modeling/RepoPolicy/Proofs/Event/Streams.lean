import RepoPolicy.Event.Stream
import RepoPolicy.Proofs.Event.Batches

set_option autoImplicit false

/-! # Streams that are accepted

A run publishes that it has started, numbered batches, and that it is complete with as many
violations as the batches declare. The check of a stream finds nothing wrong with such a list
(`checkStream_numbered`), as long as counts stay below the size of a word.

The check carries a state from event to event. `StreamState.afterBatches` is the state after so
many batches of a good stream; `step_batch` says that one more good batch leads from one such state
to the next without a problem, and `steps_batches` follows by induction on the batches. -/

namespace RepoPolicy

namespace StreamState

/-! ## The states of a good stream -/

/-- The state after the first `count` batches of `total`, which have declared `batched` violations
so far. -/
def afterBatches (total count batched : Nat) : StreamState where
  expected := count
  total := if count = 0 then none else some total
  batched := batched
  indexes := List.range count

theorem insertIndex_of_forall_lt {index : Nat} :
    ∀ {indexes : List Nat}, (∀ i ∈ indexes, i < index) →
      insertIndex index indexes = indexes ++ [index] := by
  intro indexes
  induction indexes with
  | nil => intro _; rfl
  | cons first rest ih =>
      intro h
      have hfirst : first < index := h first (by simp)
      rw [insertIndex, if_neg (by omega), if_neg (by omega), ih (fun i hi => h i (by simp [hi]))]
      rfl

theorem insertIndex_range (count : Nat) :
    insertIndex count (List.range count) = List.range (count + 1) := by
  rw [insertIndex_of_forall_lt (fun i hi => List.mem_range.1 hi), List.range_succ]

theorem addBounded_of_lt {a b : Nat} (h : a + b < Document.wordSize) : addBounded a b = a + b := by
  rw [addBounded]
  omega

/-- **One good batch.** It has no problems, and the state after it counts one batch more. -/
theorem step_batch {run : RunId} {total count batched : Nat} {batch : ViolationsBatch}
    (position : Nat) (hrun : batch.runId = run) (hindex : batch.batchIndex = count)
    (htotal : batch.totalBatches = total) (hsize : batch.batchSize = batch.violations.length)
    (hcount : count < total) (hbound : total < Document.wordSize)
    (hsum : batched + batch.batchSize < Document.wordSize) :
    (afterBatches total count batched).step run position (.batch batch)
      = ([], afterBatches total (count + 1) (batched + batch.batchSize)) := by
  have htotals : (afterBatches total count batched).total.getD total = total := by
    simp only [afterBatches]
    split <;> rfl
  have hproblems : (afterBatches total count batched).batchProblems batch = [] := by
    -- The first batch is the only one that meets no number of batches declared before it.
    by_cases hzero : count = 0
    · have hsome : total ≠ 0 := by omega
      simp [batchProblems, afterBatches, hindex, htotal, ← hsize, hzero, hsome]
    · simp [batchProblems, afterBatches, hindex, htotal, ← hsize, hzero, hcount]
  have hstate : (afterBatches total count batched).afterBatch batch
      = afterBatches total (count + 1) (batched + batch.batchSize) := by
    rw [afterBatch, hindex, htotal, htotals]
    simp only [afterBatches, insertIndex_range, addBounded_of_lt hsum,
      addBounded_of_lt (show count + 1 < Document.wordSize by omega)]
    rw [if_neg (by omega)]
  have hsame : (LifecycleEvent.batch batch).runId = run := hrun
  rw [step, if_neg (by simp [hsame])]
  simp only [hproblems, hstate]

/-- **The batches and the completion of a good stream have no problems.** -/
theorem steps_batches {run : RunId} {total : Nat} {done : RunCompleted} (hdone : done.runId = run)
    (hbound : total < Document.wordSize) :
    ∀ (batches : List ViolationsBatch) (count batched position : Nat),
      NumberedFrom run total count batches → count + batches.length = total →
      batched + (batches.map ViolationsBatch.batchSize).sum < Document.wordSize →
      steps run (afterBatches total count batched) position
          (batches.map .batch ++ [.completed done])
        = ([], { afterBatches total total
              (batched + (batches.map ViolationsBatch.batchSize).sum) with
            completions := [(position + batches.length, done.counts.total)] }) := by
  intro batches
  induction batches with
  | nil =>
      intro count batched position _ hcount _
      have hsame : (LifecycleEvent.completed done).runId = run := hdone
      have : count = total := by simpa using hcount
      subst this
      simp [steps, step, hsame, afterBatches]
  | cons batch rest ih =>
      intro count batched position hnumbered hcount hsum
      obtain ⟨hrun, hindex, htotal, hsize, hrest⟩ := hnumbered
      simp only [List.map_cons, List.sum_cons, List.length_cons] at hcount hsum ⊢
      -- the sums stay below the bound, so the counters are exact at every batch
      have hstep := step_batch position hrun hindex htotal hsize
        (show count < total by omega) hbound (show batched + batch.batchSize < _ by omega)
      have hmore := ih (count + 1) (batched + batch.batchSize) (position + 1) hrest (by omega)
        (by omega)
      rw [List.cons_append, steps, hstep]
      simp only [hmore, List.nil_append]
      rw [show position + 1 + rest.length = position + (rest.length + 1) by omega,
        Nat.add_assoc batched]

/-- Nothing is missing at the end of a good stream. -/
theorem endProblems_afterBatches (total batched position : Nat) :
    endProblems { afterBatches total total batched with completions := [(position, batched)] }
      (position + 1) = [] := by
  have htotal : (afterBatches total total batched).total.getD 0 = total := by
    by_cases hzero : total = 0
    · simp [afterBatches, hzero]
    · simp [afterBatches, hzero]
  simp only [endProblems, htotal]
  rw [if_neg (by simp [afterBatches])]
  simp [afterBatches]

end StreamState

/-! ## The whole stream -/

theorem checkStream_isValid {first : LifecycleEvent} {rest : List LifecycleEvent}
    (h : streamProblems first.runId (first :: rest) = []) :
    (checkStream (first :: rest)).isValid = true := by
  simp [checkStream, h, SequenceReport.ofViolations]

/-- **A start, numbered batches and a completion that agrees with them are accepted**, if there are
fewer batches and violations than a word can count. -/
theorem checkStream_numbered {start : RunStarted} {batches : List ViolationsBatch}
    {done : RunCompleted} (hnumbered : NumberedFrom start.runId batches.length 0 batches)
    (hdone : done.runId = start.runId)
    (htotal : done.counts.total = (batches.map ViolationsBatch.batchSize).sum)
    (hcount : batches.length < Document.wordSize)
    (hsum : (batches.map ViolationsBatch.batchSize).sum < Document.wordSize) :
    (checkStream (.started start :: (batches.map .batch ++ [.completed done]))).isValid = true := by
  apply checkStream_isValid
  have hstart : ({} : StreamState).step start.runId 0 (.started start)
      = ([], StreamState.afterBatches batches.length 0 0) := by
    simp [StreamState.step, LifecycleEvent.runId, StreamState.afterBatches]
  -- behind the start, at position 1, the batches are counted from 0
  have hsteps := StreamState.steps_batches hdone hcount batches 0 0 1 hnumbered (by omega)
    (by omega)
  have hend := StreamState.endProblems_afterBatches batches.length
    (batches.map ViolationsBatch.batchSize).sum (1 + batches.length)
  have hlength : (LifecycleEvent.started start :: (batches.map LifecycleEvent.batch
      ++ [LifecycleEvent.completed done])).length = 1 + batches.length + 1 := by
    simp
    omega
  have hrun : (LifecycleEvent.started start).runId = start.runId := rfl
  rw [streamProblems, hlength, hrun, StreamState.steps, hstart]
  simp only [Nat.zero_add, htotal] at hsteps
  simp only [Nat.zero_add, hsteps, hend, List.append_nil]

end RepoPolicy
