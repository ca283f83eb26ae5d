import RepoPolicy.Event.Codec
import RepoPolicy.Proofs.Document.Decoding
import RepoPolicy.Proofs.Event.Streams

set_option autoImplicit false

/-! # Accepted streams have the shape of a run

`IsRunStream` says what the stream of a run looks like, without a word about how it is checked: a
start, batches that are numbered from 0 on, and a completion that reports as many violations as the
batches declare. `checkStream` accepts exactly these streams (`checkStream_accepts_iff`).

That they are accepted is `checkStream_numbered`. For the converse, `of_step` says all that an event
can be when the check finds nothing wrong with it: a batch or a completion. Behind a completion there
is only room for more completions (`length_completions_steps`), which the end of the check rules
out; so the good batches come first, and `exists_of_steps` collects them along the states
`afterBatches` of a good stream. -/

namespace RepoPolicy

/-! ## The shape -/

/-- How many violations an event says that it carries. -/
def LifecycleEvent.declaredSize : LifecycleEvent → Nat
  | .batch event => event.batchSize
  | _ => 0

/-- The number of batches that an event declares, if any, is a word of 64 bits. -/
def LifecycleEvent.FitsWord : LifecycleEvent → Prop
  | .batch event => event.totalBatches < Document.wordSize
  | _ => True

theorem ViolationsBatch.totalBatches_of_decode {f : Document.Fields} {batch : ViolationsBatch}
    (h : decode f = some batch) : batch.totalBatches < Document.wordSize := by
  simp only [decode, Option.bind_eq_bind, Option.bind_eq_some_iff, Option.pure_def,
    Option.some.injEq] at h
  obtain ⟨_, -, _, -, _, -, _, -, total, htotal, _, -, rfl⟩ := h
  obtain ⟨_, hvalue⟩ := Document.Fields.of_required_eq_some htotal
  exact Document.Decoder.natBelow_lt hvalue

/-- Every event that is read from a document fits. -/
theorem LifecycleEvent.fitsWord_of_decode {value : Document.Value} {event : LifecycleEvent}
    (h : decode value = some event) : event.FitsWord := by
  cases event with
  | started _ => trivial
  | completed _ => trivial
  | batch batch =>
      simp only [decode, Option.bind_eq_bind, Option.bind_eq_some_iff] at h
      obtain ⟨f, -, kind, -, hkind⟩ := h
      split at hkind
      all_goals
        simp only [Option.bind_eq_some_iff, Option.pure_def, Option.some.injEq, reduceCtorEq,
          and_false, exists_false] at hkind
      obtain ⟨_, hbatch, heq⟩ := hkind
      cases heq
      exact ViolationsBatch.totalBatches_of_decode hbatch

/-- The stream of a run: it starts, its batches follow, each with its position, the number of all
batches and the number of violations it carries, and it is complete with as many violations as the
batches declare together. All events belong to one run. -/
def IsRunStream (events : List LifecycleEvent) : Prop :=
  ∃ (start : RunStarted) (batches : List ViolationsBatch) (done : RunCompleted),
    events = .started start :: (batches.map .batch ++ [.completed done]) ∧
    done.runId = start.runId ∧
    (∀ (k : Nat) (batch : ViolationsBatch), batches[k]? = some batch →
      batch.runId = start.runId ∧ batch.batchIndex = k ∧ batch.totalBatches = batches.length ∧
        batch.batchSize = batch.violations.length) ∧
    done.counts.total = (batches.map ViolationsBatch.batchSize).sum

/-- Numbered batches, by their positions. -/
theorem numberedFrom_iff {run : RunId} {total index : Nat} {batches : List ViolationsBatch} :
    NumberedFrom run total index batches ↔
      ∀ (k : Nat) (batch : ViolationsBatch), batches[k]? = some batch →
        batch.runId = run ∧ batch.batchIndex = index + k ∧ batch.totalBatches = total ∧
          batch.batchSize = batch.violations.length := by
  induction batches generalizing index with
  | nil => simp [NumberedFrom]
  | cons first rest ih =>
      rw [NumberedFrom, ih]
      -- the batch at a position is the first one, or one of the rest counted from one further
      constructor
      · rintro ⟨hrun, hindex, htotal, hsize, hrest⟩ k batch hk
        cases k with
        | zero =>
            obtain rfl : first = batch := by simpa using hk
            exact ⟨hrun, by omega, htotal, hsize⟩
        | succ k =>
            obtain ⟨hrun, hindex, htotal, hsize⟩ := hrest k batch (by simpa using hk)
            exact ⟨hrun, by omega, htotal, hsize⟩
      · intro h
        obtain ⟨hrun, hindex, htotal, hsize⟩ := h 0 first rfl
        refine ⟨hrun, by omega, htotal, hsize, ?_⟩
        intro k batch hk
        obtain ⟨hrun, hindex, htotal, hsize⟩ := h (k + 1) batch (by simpa using hk)
        exact ⟨hrun, by omega, htotal, hsize⟩

namespace StreamState

/-! ## One event -/

/-- A batch has no problems exactly if nothing is complete yet, it is the next one, it agrees with
the batches before it on their number, which exceeds its index, and it carries what it declares. -/
theorem batchProblems_eq_nil_iff {state : StreamState} {batch : ViolationsBatch} :
    state.batchProblems batch = [] ↔
      state.completions = [] ∧ batch.batchIndex ∉ state.indexes ∧
        batch.batchIndex = state.expected ∧ batch.batchIndex < batch.totalBatches ∧
        (∀ total, state.total = some total → total = batch.totalBatches) ∧
        batch.batchSize = batch.violations.length := by
  have hcompletions : (if state.completions.isEmpty then ([] : List StreamProblem)
      else [.batchAfterCompletion batch.batchIndex]) = [] ↔ state.completions = [] := by
    cases state.completions <;> simp
  have hrange : (if batch.batchIndex ≥ batch.totalBatches then
      [StreamProblem.indexOutOfRange batch.batchIndex batch.totalBatches] else []) = [] ↔
        batch.batchIndex < batch.totalBatches := by
    simp
  simp only [batchProblems, List.append_eq_nil_iff, hcompletions, hrange]
  cases htotal : state.total with
  | none => grind
  | some total => grind

/-- **What an event behind the first one can be** when the check finds nothing wrong with it: a good
batch, or a completion. -/
theorem of_step {run : RunId} {state : StreamState} {position : Nat} {event : LifecycleEvent}
    (hposition : 0 < position) (h : (state.step run position event).1 = []) :
    (∃ batch, event = .batch batch ∧ batch.runId = run ∧ state.batchProblems batch = []) ∨
      ∃ done, event = .completed done ∧ done.runId = run := by
  by_cases hrun : event.runId = run
  · cases event with
    | started start => simp [step, hrun, hposition] at h
    | batch batch =>
        have hgood : state.batchProblems batch = [] := by simpa [step, hrun] using h
        exact .inl ⟨batch, rfl, hrun, hgood⟩
    | completed done => exact .inr ⟨done, rfl, hrun⟩
  · simp [step, hrun] at h

theorem step_completed {run : RunId} (state : StreamState) (position : Nat) {done : RunCompleted}
    (hrun : done.runId = run) :
    state.step run position (.completed done)
      = ([], { state with completions := state.completions ++ [(position, done.counts.total)] }) := by
  have hsame : (LifecycleEvent.completed done).runId = run := hrun
  rw [step, if_neg (by simp [hsame])]

/-! ## Many events -/

theorem steps_cons (run : RunId) (state : StreamState) (position : Nat) (event : LifecycleEvent)
    (events : List LifecycleEvent) :
    steps run state position (event :: events)
      = ((state.step run position event).1
            ++ (steps run (state.step run position event).2 (position + 1) events).1,
          (steps run (state.step run position event).2 (position + 1) events).2) := rfl

theorem steps_cons_eq_nil_iff {run : RunId} {state : StreamState} {position : Nat}
    {event : LifecycleEvent} {events : List LifecycleEvent} :
    (steps run state position (event :: events)).1 = [] ↔
      (state.step run position event).1 = [] ∧
        (steps run (state.step run position event).2 (position + 1) events).1 = [] := by
  rw [steps_cons, List.append_eq_nil_iff]

/-- Behind a completion only completions have no problems, and each of them is counted. -/
theorem length_completions_steps {run : RunId} :
    ∀ (events : List LifecycleEvent) (state : StreamState) (position : Nat), 0 < position →
      state.completions ≠ [] → (steps run state position events).1 = [] →
      (steps run state position events).2.completions.length
        = state.completions.length + events.length := by
  intro events
  induction events with
  | nil =>
      intro state position _ _ _
      rfl
  | cons event rest ih =>
      intro state position hposition hsome hnone
      obtain ⟨hfirst, hrest⟩ := steps_cons_eq_nil_iff.1 hnone
      obtain ⟨batch, rfl, -, hbatch⟩ | ⟨done, rfl, hrun⟩ := of_step hposition hfirst
      -- a batch behind a completion is a problem, so the event is a completion
      · exact absurd (batchProblems_eq_nil_iff.1 hbatch).1 hsome
      · rw [step_completed state position hrun] at hrest
        have hmore := ih _ (position + 1) (by omega) (by simp) hrest
        rw [steps_cons, step_completed state position hrun]
        simp only [List.length_append, List.length_cons, List.length_nil] at hmore ⊢
        omega

/-- Nothing is wrong at the end exactly if the batches are all there and the one completion, which
comes last, reports what they declare. -/
theorem endProblems_eq_nil_iff {state : StreamState} {length : Nat} :
    state.endProblems length = [] ↔
      (state.indexes.length = state.total.getD 0 ∧ ∀ i ∈ state.indexes, i < state.total.getD 0) ∧
        ∃ position, position + 1 = length ∧ state.completions = [(position, state.batched)] := by
  have hcoverage : (if state.indexes.length ≠ state.total.getD 0 ∨
      state.indexes.any (state.total.getD 0 ≤ ·) = true then
        [StreamProblem.indexesMissing state.indexes (state.total.getD 0)] else []) = [] ↔
      state.indexes.length = state.total.getD 0 ∧ ∀ i ∈ state.indexes, i < state.total.getD 0 := by
    simp [not_or]
  rw [endProblems, List.append_eq_nil_iff, hcoverage, and_congr_right_iff]
  intro _
  -- no completion, one, or several: only one leaves nothing to report
  rcases state.completions with _ | ⟨⟨position, reported⟩, _ | ⟨second, others⟩⟩
  · simp
  · simp only [List.append_eq_nil_iff, List.cons.injEq, Prod.mk.injEq, and_true]
    constructor
    · rintro ⟨hlast, hreported⟩
      exact ⟨position, by simpa using hlast, rfl, by simpa using hreported⟩
    · rintro ⟨_, hlast, rfl, hreported⟩
      simp [hlast, hreported]
  · simp

/-- The number of batches counts only once there is a batch. -/
theorem afterBatches_congr {total total' count : Nat} (batched : Nat)
    (h : 0 < count → total = total') :
    afterBatches total count batched = afterBatches total' count batched := by
  by_cases hzero : count = 0
  · simp [afterBatches, hzero]
  · rw [h (by omega)]

/-- **A good stream goes on with numbered batches and ends with one completion.** The induction is on
the events; the state is always one of `afterBatches`. -/
theorem exists_of_steps {run : RunId} :
    ∀ (events : List LifecycleEvent) (total count batched position : Nat), 0 < position →
      (∀ event ∈ events, event.FitsWord) →
      batched + (events.map LifecycleEvent.declaredSize).sum < Document.wordSize →
      (steps run (afterBatches total count batched) position events).1 = [] →
      (steps run (afterBatches total count batched) position events).2.endProblems
        (position + events.length) = [] →
      ∃ (batches : List ViolationsBatch) (done : RunCompleted),
        events = batches.map .batch ++ [.completed done] ∧ done.runId = run ∧
          NumberedFrom run (count + batches.length) count batches ∧
          (0 < count → count + batches.length = total) ∧
          done.counts.total = batched + (batches.map ViolationsBatch.batchSize).sum := by
  intro events
  induction events with
  | nil =>
      intro total count batched position _ _ _ _ hend
      obtain ⟨-, _, -, hcompletions⟩ := endProblems_eq_nil_iff.1 hend
      simp [steps, afterBatches] at hcompletions
  | cons event rest ih =>
      intro total count batched position hposition hfits hsum hnone hend
      obtain ⟨hfirst, hrest⟩ := steps_cons_eq_nil_iff.1 hnone
      obtain ⟨batch, rfl, hrun, hbatch⟩ | ⟨done, rfl, hrun⟩ := of_step hposition hfirst
      · obtain ⟨-, -, hindex, hrange, htotals, hsize⟩ := batchProblems_eq_nil_iff.1 hbatch
        have hsame : 0 < count → total = batch.totalBatches := by
          intro hcount
          apply htotals
          simp only [afterBatches]
          rw [if_neg (by omega)]
        have hcount : batch.batchIndex = count := hindex
        have hword : batch.totalBatches < Document.wordSize := hfits (.batch batch) (by simp)
        simp only [List.map_cons, List.sum_cons, LifecycleEvent.declaredSize] at hsum
        rw [afterBatches_congr batched hsame] at hrest hend
        rw [step_batch position hrun hcount rfl hsize (by omega) hword (by omega)] at hrest
        rw [steps_cons, step_batch position hrun hcount rfl hsize (by omega) hword (by omega),
          List.length_cons, show position + (rest.length + 1) = position + 1 + rest.length by omega]
          at hend
        obtain ⟨batches, done, rfl, hdone, hnumbered, hall, hreported⟩ :=
          ih batch.totalBatches (count + 1) (batched + batch.batchSize) (position + 1) (by omega)
            (fun event hevent => hfits event (by simp [hevent])) (by omega) hrest hend
        have hlength := hall (by omega)
        refine ⟨batch :: batches, done, rfl, hdone, ?_, ?_, ?_⟩
        · rw [List.length_cons, show count + (batches.length + 1) = count + 1 + batches.length by omega]
          exact ⟨hrun, hcount, hlength.symm, hsize, hnumbered⟩
        · intro hpositive
          rw [List.length_cons, hsame hpositive]
          omega
        · rw [List.map_cons, List.sum_cons, hreported]
          omega
      · rw [step_completed _ position hrun] at hrest
        rw [steps_cons, step_completed _ position hrun] at hend
        dsimp only at hrest hend
        obtain ⟨⟨hlength, -⟩, last, -, hcompletions⟩ := endProblems_eq_nil_iff.1 hend
        -- A second completion would be counted.
        have hone : rest = [] := by
          have hmany := length_completions_steps rest _ (position + 1) (by omega) (by simp) hrest
          simp only [hcompletions, List.length_cons, List.length_append, List.length_nil] at hmany
          exact List.length_eq_zero_iff.1 (by omega)
        subst hone
        simp only [steps, afterBatches, List.nil_append, List.cons.injEq, Prod.mk.injEq,
          and_true] at hcompletions
        refine ⟨[], done, rfl, hrun, trivial, ?_, ?_⟩
        · intro hpositive
          simp only [steps, afterBatches, List.length_range] at hlength
          rw [if_neg (by omega)] at hlength
          simpa using hlength
        · simpa using hcompletions.2

end StreamState

/-! ## The whole stream -/

theorem checkStream_isValid_iff {first : LifecycleEvent} {rest : List LifecycleEvent} :
    (checkStream (first :: rest)).isValid = true ↔
      streamProblems first.runId (first :: rest) = [] := by
  simp [checkStream, SequenceReport.ofViolations]

/-- A stream without problems begins with its start. -/
theorem exists_started_of_streamProblems {run : RunId} {first : LifecycleEvent}
    {rest : List LifecycleEvent} (h : streamProblems run (first :: rest) = []) :
    ∃ start, first = .started start := by
  cases first with
  | started start => exact ⟨start, rfl⟩
  | batch batch => simp [streamProblems] at h
  | completed done => simp [streamProblems] at h

/-- **The check of a stream accepts exactly the streams of runs**, as long as the sizes of the
batches can be added up. The numbers of batches fit a word in all events that are read
(`LifecycleEvent.fitsWord_of_decode`). -/
theorem checkStream_accepts_iff (events : List LifecycleEvent)
    (hfits : ∀ event ∈ events, event.FitsWord)
    (hsum : (events.map LifecycleEvent.declaredSize).sum < Document.wordSize) :
    (checkStream events).isValid = true ↔ IsRunStream events := by
  constructor
  · intro hvalid
    cases events with
    | nil => simp [checkStream, SequenceReport.ofViolations] at hvalid
    | cons first rest =>
        have hnone := checkStream_isValid_iff.1 hvalid
        obtain ⟨start, rfl⟩ := exists_started_of_streamProblems hnone
        have hstart : ({} : StreamState).step start.runId 0 (.started start)
            = ([], StreamState.afterBatches 0 0 0) := by
          simp [StreamState.step, LifecycleEvent.runId, StreamState.afterBatches]
        have hrun : (LifecycleEvent.started start).runId = start.runId := rfl
        simp only [hrun, streamProblems, StreamState.steps, hstart, List.nil_append,
          List.append_eq_nil_iff, Nat.zero_add, List.length_cons] at hnone
        obtain ⟨batches, done, rfl, hdone, hnumbered, -, htotal⟩ :=
          StreamState.exists_of_steps rest 0 0 0 1 (by omega)
            (fun event hevent => hfits event (by simp [hevent]))
            (by simpa [LifecycleEvent.declaredSize] using hsum) hnone.1
            (by rw [Nat.add_comm]; exact hnone.2)
        refine ⟨start, batches, done, rfl, hdone, ?_, by omega⟩
        intro k batch hk
        simpa using numberedFrom_iff.1 hnumbered k batch hk
  · rintro ⟨start, batches, done, rfl, hdone, hbatches, htotal⟩
    have hnumbered : NumberedFrom start.runId batches.length 0 batches := by
      rw [numberedFrom_iff]
      simpa using hbatches
    have hsizes : (batches.map ViolationsBatch.batchSize).sum < Document.wordSize := by
      have hmap : (batches.map LifecycleEvent.batch).map LifecycleEvent.declaredSize
          = batches.map ViolationsBatch.batchSize := by
        rw [List.map_map]
        rfl
      simp only [List.map_cons, List.map_append, List.sum_cons, List.sum_append, hmap] at hsum
      omega
    -- The number of batches is what the first of them declares.
    have hcount : batches.length < Document.wordSize := by
      cases hcases : batches with
      | nil => decide
      | cons batch rest =>
          have hfirst := (hbatches 0 batch (by rw [hcases]; rfl)).2.2.1
          rw [← hcases, ← hfirst]
          exact hfits (.batch batch) (by simp [hcases])
    exact checkStream_numbered hnumbered hdone htotal hcount hsizes

/-- A run with two batches of one violation each, numbered as given. -/
def twoBatches (first second : Nat) : List LifecycleEvent :=
  [.started ⟨"run", "repo", ".", "strict", [.contractSchemaValid], false⟩, .batch (batch first),
    .batch (batch second), .completed ⟨"run", .failed, { total := 2, errors := 2, new := 2 }⟩]
where
  batch (index : Nat) : ViolationsBatch :=
    { runId := "run"
      repoId := "repo"
      batchIndex := index
      batchSize := 1
      totalBatches := 2
      violations := [⟨.error, "missing", "contract_schema_valid", none⟩] }

/-- The batches of a run come in their order. -/
theorem twoBatches_in_order : IsRunStream (twoBatches 0 1) ∧ ¬ IsRunStream (twoBatches 1 0) := by
  have hfits : ∀ first second, ∀ event ∈ twoBatches first second, event.FitsWord := by
    intro first second event hevent
    simp only [twoBatches, List.mem_cons, List.not_mem_nil, or_false] at hevent
    rcases hevent with rfl | rfl | rfl | rfl
    all_goals simp [LifecycleEvent.FitsWord, twoBatches.batch, Document.wordSize]
  rw [← checkStream_accepts_iff (twoBatches 0 1) (hfits 0 1) (by decide),
    ← checkStream_accepts_iff (twoBatches 1 0) (hfits 1 0) (by decide)]
  exact ⟨by decide, by decide⟩

end RepoPolicy
