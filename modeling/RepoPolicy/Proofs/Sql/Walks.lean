import RepoPolicy.Proofs.Text.NameSets
import RepoPolicy.Sql.Walk

set_option autoImplicit false

/-! # What is found on a walk

A collector sees the steps of a walk and nothing of the tree that the walk goes through. So what it
finds is said of any list of steps in which every step out comes after a step in and a call is
followed at once by its name (`Orderly`). The walk is stopped if and only if some part of it that
starts at the beginning has gone in more often than out by more than the limit. Else the tables are
the names of the relations that are passed, without those of the calls (`collect_of_orderly`). Which
kinds of statements there are plays no part in this. -/

namespace RepoPolicy.Sql

open RepoPolicy.Text

/-! ## Lists of steps -/

/-- The step after a call passes the name of the call. -/
def CallsNamed (steps : List Step) : Prop :=
  ∀ front back, steps = front ++ .source true :: back → ∃ name, back.head? = some (.relation name)

/-- What a walk through a syntax tree of any kind looks like. No step leads out of what has not been
entered, and every call is named. -/
structure Orderly (steps : List Step) : Prop where
  nested : ∀ front, front <+: steps → front.count .leave ≤ front.count .enter
  callsNamed : CallsNamed steps

/-- At no point is a walk inside of more queries and expressions than the limit. -/
def StaysWithin (limit : Nat) (steps : List Step) : Prop :=
  ∀ front, front <+: steps → front.count .enter ≤ front.count .leave + limit

/-- The names of the relations that a walk passes. The name that follows a call is none of them. -/
def relationNames : List Step → List (List String)
  | .source true :: .relation _ :: steps => relationNames steps
  | .relation name :: steps => name :: relationNames steps
  | _ :: steps => relationNames steps
  | [] => []

/-! ### Calls and relations -/

theorem callsNamed_nil : CallsNamed [] := by simp [CallsNamed]

theorem callsNamed_cons_iff {step : Step} {steps : List Step} :
    CallsNamed (step :: steps) ↔
      (step = .source true → ∃ name rest, steps = .relation name :: rest) ∧ CallsNamed steps := by
  constructor
  · intro h
    refine ⟨?_, ?_⟩
    · rintro rfl
      obtain ⟨name, hname⟩ := h [] steps rfl
      exact ⟨name, List.head?_eq_some_iff.1 hname⟩
    · rintro front back rfl
      exact h (step :: front) back rfl
  · rintro ⟨hstep, hsteps⟩ front back hsplit
    rcases List.cons_eq_append_iff.1 hsplit with ⟨rfl, hback⟩ | ⟨middle, rfl, rfl⟩
    · obtain ⟨rfl, rfl⟩ := List.cons.inj hback
      obtain ⟨name, rest, rfl⟩ := hstep rfl
      exact ⟨name, rfl⟩
    · exact hsteps middle back rfl

theorem CallsNamed.append {first second : List Step} (hfirst : CallsNamed first)
    (hsecond : CallsNamed second) : CallsNamed (first ++ second) := by
  induction first with
  | nil => exact hsecond
  | cons step first ih =>
      obtain ⟨hstep, hrest⟩ := callsNamed_cons_iff.1 hfirst
      refine callsNamed_cons_iff.2 ⟨?_, ih hrest⟩
      intro hcall
      obtain ⟨name, rest, rfl⟩ := hstep hcall
      exact ⟨name, rest ++ second, rfl⟩

theorem CallsNamed.tail {step : Step} {steps : List Step} (h : CallsNamed (step :: steps)) :
    CallsNamed steps :=
  (callsNamed_cons_iff.1 h).2

theorem CallsNamed.ne_call {step : Step} {steps : List Step} (h : CallsNamed (step :: steps))
    (hname : ∀ name rest, step = .source true → steps = .relation name :: rest → False) :
    step ≠ .source true := by
  intro hcall
  obtain ⟨name, rest, hrest⟩ := (callsNamed_cons_iff.1 h).1 hcall
  exact hname name rest hcall hrest

theorem relationNames_append {first : List Step} (h : CallsNamed first) (second : List Step) :
    relationNames (first ++ second) = relationNames first ++ relationNames second := by
  fun_induction relationNames first with
  | case1 name steps ih => exact ih h.tail.tail
  | case2 name steps ih => exact congrArg (name :: ·) (ih h.tail)
  | case3 step steps hname hrelation ih =>
      rw [← ih h.tail, List.cons_append, relationNames]
      · exact fun name rest hcall _ => h.ne_call hname hcall
      · exact hrelation
  | case4 => rfl

/-! ### Depth -/

theorem prefix_append_iff {α : Type} {front first second : List α} :
    front <+: first ++ second ↔
      front <+: first ∨ ∃ rest, front = first ++ rest ∧ rest <+: second := by
  constructor
  · intro h
    rcases List.prefix_or_prefix_of_prefix h (List.prefix_append first second) with
      hfront | ⟨rest, rfl⟩
    · exact .inl hfront
    · exact .inr ⟨rest, rfl, (List.prefix_append_right_inj first).1 h⟩
  · rintro (hfront | ⟨rest, rfl, hrest⟩)
    · exact hfront.trans (List.prefix_append first second)
    · exact (List.prefix_append_right_inj first).2 hrest

theorem Orderly.append {first second : List Step} (hfirst : Orderly first)
    (hsecond : Orderly second) : Orderly (first ++ second) where
  nested := by
    intro front hfront
    rcases prefix_append_iff.1 hfront with hfront | ⟨rest, rfl, hrest⟩
    · exact hfirst.nested front hfront
    · rw [List.count_append, List.count_append]
      exact Nat.add_le_add (hfirst.nested first List.prefix_rfl) (hsecond.nested rest hrest)
  callsNamed := hfirst.callsNamed.append hsecond.callsNamed

/-- After a walk that ends where it began, another one has as much room as the first had. -/
theorem staysWithin_append_iff {limit : Nat} {first second : List Step}
    (hclosed : first.count .enter = first.count .leave) :
    StaysWithin limit (first ++ second) ↔ StaysWithin limit first ∧ StaysWithin limit second := by
  have hcount (rest : List Step) :
      (first ++ rest).count .enter ≤ (first ++ rest).count .leave + limit ↔
        rest.count .enter ≤ rest.count .leave + limit := by
    rw [List.count_append, List.count_append]
    omega
  simp only [StaysWithin, prefix_append_iff, or_imp, forall_and, forall_exists_index, and_imp]
  refine and_congr_right fun _ => ⟨fun h rest hrest => ?_, ?_⟩
  · exact (hcount rest).1 (h _ rest rfl hrest)
  · rintro h _ rest rfl hrest
    exact (hcount rest).2 (h rest hrest)

/-- A walk into something and out of it again. -/
theorem Orderly.level {steps : List Step} (h : Orderly steps)
    (hclosed : steps.count .enter = steps.count .leave) : Orderly (.enter :: steps ++ [.leave]) where
  nested := by
    intro front hfront
    rcases List.prefix_concat_iff.1 hfront with rfl | hfront
    · simp [hclosed]
    · rcases List.prefix_cons_iff.1 hfront with rfl | ⟨rest, rfl, hrest⟩
      · simp
      · rw [List.count_cons_self, List.count_cons_of_ne (by simp)]
        exact Nat.le_succ_of_le (h.nested rest hrest)
  callsNamed :=
    (callsNamed_cons_iff.2 ⟨by simp, h.callsNamed⟩).append
      (callsNamed_cons_iff.2 ⟨by simp, callsNamed_nil⟩)

/-- Inside of something there is room for one level less. -/
theorem staysWithin_level_iff {limit : Nat} {steps : List Step}
    (hclosed : steps.count .enter = steps.count .leave) :
    StaysWithin limit (.enter :: steps ++ [.leave]) ↔ 1 ≤ limit ∧ StaysWithin (limit - 1) steps := by
  constructor
  · intro h
    have hone : 1 ≤ limit := by simpa using h [.enter] (by simp)
    refine ⟨hone, fun front hfront => ?_⟩
    have hinside := h (.enter :: front)
      (List.prefix_concat_iff.2 (.inr (List.cons_prefix_cons.2 ⟨rfl, hfront⟩)))
    rw [List.count_cons_self, List.count_cons_of_ne (by simp)] at hinside
    omega
  · rintro ⟨hone, hwithin⟩ front hfront
    rcases List.prefix_concat_iff.1 hfront with rfl | hfront
    · simp [hclosed]
    · rcases List.prefix_cons_iff.1 hfront with rfl | ⟨rest, rfl, hrest⟩
      · simp
      · have hinside := hwithin rest hrest
        rw [List.count_cons_self, List.count_cons_of_ne (by simp)]
        omega

/-! ## Following a walk -/

namespace Collector

variable {limit : Nat} {found next : Collector} {step : Step}

/-- What a step that is taken does. -/
inductive Takes (limit : Nat) (found : Collector) : Step → Collector → Prop where
  | enter (hdepth : found.depth < limit) :
      Takes limit found .enter { found with depth := found.depth + 1 }
  | leave : Takes limit found .leave { found with depth := found.depth - 1 }
  | source (isCall : Bool) : Takes limit found (.source isCall) { found with atCall := isCall }
  | callName (name : List String) (hcall : found.atCall = true) :
      Takes limit found (.relation name) { found with atCall := false }
  | relation (name : List String) (hcall : found.atCall = false) :
      Takes limit found (.relation name)
        { found with tables := NameSet.insert (".".intercalate name) found.tables }
  | binding (name : String) :
      Takes limit found (.binding name)
        { found with cteNames := NameSet.insert (lowercase name) found.cteNames }

theorem take_eq_some_iff : found.take limit step = some next ↔ Takes limit found step next := by
  constructor
  · intro h
    cases step with
    | enter =>
        simp only [take] at h
        split at h
        · exact absurd h (by simp)
        · rename_i hdepth
          obtain rfl := Option.some.inj h
          exact .enter (Nat.lt_of_not_le hdepth)
    | leave =>
        obtain rfl := Option.some.inj h
        exact .leave
    | source isCall =>
        obtain rfl := Option.some.inj h
        exact .source isCall
    | relation name =>
        simp only [take] at h
        split at h <;> rename_i hcall <;> obtain rfl := Option.some.inj h
        · exact .callName name hcall
        · exact .relation name (Bool.eq_false_of_not_eq_true hcall)
    | binding name =>
        obtain rfl := Option.some.inj h
        exact .binding name
  · rintro (hdepth | _ | isCall | ⟨name, hcall⟩ | ⟨name, hcall⟩ | name)
    · exact if_neg (Nat.not_le_of_lt hdepth)
    · rfl
    · rfl
    · exact if_pos hcall
    · exact if_neg (Bool.eq_false_iff.1 hcall)
    · rfl

/-- Only a step into a query or an expression can be refused. -/
theorem exists_take_iff :
    (∃ next, found.take limit step = some next) ↔ (step = .enter → found.depth < limit) := by
  simp only [take_eq_some_iff]
  constructor
  · rintro ⟨next, hdepth | _⟩ <;> simp [*]
  · intro h
    cases step with
    | enter => exact ⟨_, .enter (h rfl)⟩
    | leave => exact ⟨_, .leave⟩
    | source isCall => exact ⟨_, .source isCall⟩
    | relation name =>
        cases hcall : found.atCall with
        | false => exact ⟨_, .relation name hcall⟩
        | true => exact ⟨_, .callName name hcall⟩
    | binding name => exact ⟨_, .binding name⟩

/-- A step that is taken under a limit is taken under every higher one. -/
theorem Takes.mono {higher : Nat} (hle : limit ≤ higher) (h : Takes limit found step next) :
    Takes higher found step next := by
  cases h with
  | enter hdepth => exact .enter (Nat.lt_of_lt_of_le hdepth hle)
  | leave => exact .leave
  | source isCall => exact .source isCall
  | callName name hcall => exact .callName name hcall
  | relation name hcall => exact .relation name hcall
  | binding name => exact .binding name

/-- The depth is the number of steps in less the number of steps out. -/
theorem Takes.depth_eq (h : Takes limit found step next) (hleave : step = .leave → 0 < found.depth) :
    next.depth + [step].count .leave = found.depth + [step].count .enter := by
  cases h with
  | leave => exact Nat.sub_add_cancel (hleave rfl)
  | _ => rfl

theorem Takes.depth_le (h : Takes limit found step next) (hdepth : found.depth ≤ limit) :
    next.depth ≤ limit := by
  cases h with
  | enter hless => exact hless
  | leave => exact Nat.le_trans (Nat.sub_le _ _) hdepth
  | _ => exact hdepth

theorem Takes.depth_le_succ (h : Takes limit found step next) : next.depth ≤ found.depth + 1 := by
  cases h with
  | leave => exact Nat.le_succ_of_le (Nat.sub_le _ _)
  | enter => exact Nat.le_refl _
  | _ => exact Nat.le_succ _

/-- A step past anything but a relation or a call leaves the tables as they are, and no call is
pending after it if none was before. -/
theorem Takes.tables_eq (h : Takes limit found step next) (hcall : found.atCall = false)
    (hrelation : ∀ name, step ≠ .relation name) (hsource : step ≠ .source true) :
    next.tables = found.tables ∧ next.atCall = false := by
  cases h with
  | enter | leave | binding => exact ⟨rfl, hcall⟩
  | callName name | relation name => exact absurd rfl (hrelation name)
  | source isCall =>
      cases isCall with
      | false => exact ⟨rfl, rfl⟩
      | true => exact absurd rfl hsource

theorem Takes.mem_cteNames (h : Takes limit found step next) (bound : String) :
    bound ∈ next.cteNames ↔
      bound ∈ found.cteNames ∨ ∃ name, step = .binding name ∧ bound = lowercase name := by
  cases h with
  | binding name => simp [NameSet.mem_insert, or_comm]
  | _ => simp

/-- Names stay in increasing order, each of them once. -/
theorem Takes.pairwise (h : Takes limit found step next)
    (hsorted : found.tables.Pairwise (· < ·) ∧ found.cteNames.Pairwise (· < ·)) :
    next.tables.Pairwise (· < ·) ∧ next.cteNames.Pairwise (· < ·) := by
  cases h with
  | relation name => exact ⟨NameSet.pairwise_insert hsorted.1, hsorted.2⟩
  | binding name => exact ⟨hsorted.1, NameSet.pairwise_insert hsorted.2⟩
  | _ => exact hsorted

end Collector

section Runs

variable {limit : Nat} {steps : List Step} {found last : Collector}

theorem collect_cons_eq_some_iff {step : Step} :
    collect limit found (step :: steps) = some last ↔
      ∃ next, found.Takes limit step next ∧ collect limit next steps = some last := by
  have hcons : collect limit found (step :: steps)
      = (found.take limit step).bind (collect limit · steps) := List.foldlM_cons
  simp only [hcons, Option.bind_eq_some_iff, Collector.take_eq_some_iff]

/-- A walk that is not stopped under a limit finds the same under every higher one. -/
theorem collect_mono {higher : Nat} (hle : limit ≤ higher)
    (h : collect limit found steps = some last) : collect higher found steps = some last := by
  induction steps generalizing found with
  | nil => exact h
  | cons step steps ih =>
      obtain ⟨next, hstep, hrest⟩ := collect_cons_eq_some_iff.1 h
      exact collect_cons_eq_some_iff.2 ⟨next, hstep.mono hle, ih hrest⟩

theorem pairwise_of_collect (h : collect limit found steps = some last)
    (hsorted : found.tables.Pairwise (· < ·) ∧ found.cteNames.Pairwise (· < ·)) :
    last.tables.Pairwise (· < ·) ∧ last.cteNames.Pairwise (· < ·) := by
  induction steps generalizing found with
  | nil =>
      obtain rfl := Option.some.inj h
      exact hsorted
  | cons step steps ih =>
      obtain ⟨next, hstep, hrest⟩ := collect_cons_eq_some_iff.1 h
      exact ih hrest (hstep.pairwise hsorted)

theorem mem_cteNames_of_collect (h : collect limit found steps = some last) (bound : String) :
    bound ∈ last.cteNames ↔
      bound ∈ found.cteNames ∨ ∃ name, .binding name ∈ steps ∧ bound = lowercase name := by
  induction steps generalizing found with
  | nil =>
      obtain rfl := Option.some.inj h
      simp
  | cons step steps ih =>
      obtain ⟨next, hstep, hrest⟩ := collect_cons_eq_some_iff.1 h
      rw [ih hrest, hstep.mem_cteNames, or_assoc]
      simp only [List.mem_cons, or_and_right, exists_or, eq_comm]

theorem mem_tables_of_collect (h : collect limit found steps = some last)
    (hcall : found.atCall = false) (hnamed : CallsNamed steps) (table : String) :
    table ∈ last.tables ↔
      table ∈ found.tables ∨ ∃ name ∈ relationNames steps, table = ".".intercalate name := by
  -- along the recursion of `relationNames`, a call is pending only at the name of the call
  induction steps using relationNames.induct generalizing found with
  | case1 name steps ih =>
      obtain ⟨_, ⟨⟩, hnext⟩ := collect_cons_eq_some_iff.1 h
      obtain ⟨next, hstep, hrest⟩ := collect_cons_eq_some_iff.1 hnext
      cases hstep with
      | callName => exact (ih hrest rfl hnamed.tail.tail :)
      | relation _ hnone => exact absurd hnone (by simp)
  | case2 name steps ih =>
      obtain ⟨next, hstep, hrest⟩ := collect_cons_eq_some_iff.1 h
      cases hstep with
      | callName _ hpending => exact absurd hpending (by simp [hcall])
      | relation =>
          rw [ih hrest hcall hnamed.tail]
          simp [relationNames, NameSet.mem_insert, or_assoc, or_left_comm]
  | case3 step steps hname hrelation ih =>
      obtain ⟨next, hstep, hrest⟩ := collect_cons_eq_some_iff.1 h
      obtain ⟨htables, hcall'⟩ := hstep.tables_eq hcall hrelation (hnamed.ne_call hname)
      rw [ih hrest hcall' hnamed.tail, htables, relationNames.eq_3 _ _ hname hrelation]
  | case4 =>
      obtain rfl := Option.some.inj h
      simp [relationNames]

/-- A walk that starts at some depth is stopped if and only if it goes deeper than the limit. -/
theorem exists_collect_iff
    (hnested : ∀ front, front <+: steps → front.count .leave ≤ found.depth + front.count .enter)
    (hdepth : found.depth ≤ limit) :
    (∃ last, collect limit found steps = some last) ↔
      ∀ front, front <+: steps → found.depth + front.count .enter ≤ front.count .leave + limit := by
  induction steps generalizing found with
  | nil => simp [collect, hdepth]
  | cons step steps ih =>
      have hleave : step = .leave → 0 < found.depth := by
        rintro rfl
        have hone : 1 ≤ found.depth := by simpa using hnested [.leave] (by simp)
        exact hone
      have hcount (front : List Step) (kind : Step) :
          (step :: front).count kind = [step].count kind + front.count kind := by
        rw [← List.count_append, List.singleton_append]
      -- after the step the counts are those of the whole walk, less the one of the step
      have hrest {next : Collector} (hstep : found.Takes limit step next) (hle : next.depth ≤ limit) :
          (∃ last, collect limit next steps = some last) ↔ ∀ front, front <+: steps →
            found.depth + (step :: front).count .enter ≤ (step :: front).count .leave + limit := by
        have hnext := hstep.depth_eq hleave
        rw [ih _ hle]
        · refine forall₂_congr fun front _ => ?_
          rw [hcount front .enter, hcount front .leave]
          omega
        · intro front hfront
          have := hnested (step :: front) (List.cons_prefix_cons.2 ⟨rfl, hfront⟩)
          rw [hcount front .enter, hcount front .leave] at this
          omega
      constructor
      · rintro ⟨last, hlast⟩ front hfront
        obtain ⟨next, hstep, hlast⟩ := collect_cons_eq_some_iff.1 hlast
        rcases List.prefix_cons_iff.1 hfront with rfl | ⟨rest, rfl, htail⟩
        · simpa using hdepth
        · exact (hrest hstep (hstep.depth_le hdepth)).1 ⟨last, hlast⟩ rest htail
      · intro hwithin
        have hroom : step = .enter → found.depth < limit := by
          rintro rfl
          have hone : found.depth + 1 ≤ limit := by simpa using hwithin [.enter] (by simp)
          exact hone
        obtain ⟨next, hstep⟩ := Collector.exists_take_iff.2 hroom
        rw [Collector.take_eq_some_iff] at hstep
        obtain ⟨last, hlast⟩ := (hrest hstep (hstep.depth_le hdepth)).2 fun front hfront =>
          hwithin (step :: front) (List.cons_prefix_cons.2 ⟨rfl, hfront⟩)
        exact ⟨last, collect_cons_eq_some_iff.2 ⟨next, hstep, hlast⟩⟩

/-- A walk is never deeper than it is long. -/
theorem exists_collect_of_length_le (hlimit : found.depth + steps.length ≤ limit) :
    ∃ last, collect limit found steps = some last := by
  induction steps generalizing found with
  | nil => exact ⟨found, rfl⟩
  | cons step steps ih =>
      rw [List.length_cons] at hlimit
      have hroom : found.depth < limit := by omega
      obtain ⟨next, hstep⟩ := Collector.exists_take_iff.2 fun _ : step = .enter => hroom
      rw [Collector.take_eq_some_iff] at hstep
      have hdepth := hstep.depth_le_succ
      obtain ⟨last, hlast⟩ := ih (by omega : next.depth + steps.length ≤ limit)
      exact ⟨last, collect_cons_eq_some_iff.2 ⟨next, hstep, hlast⟩⟩

/-- What has been found at the end of a walk: the relations that it has passed and the names that it
has seen bound, in increasing order and each of them once. -/
structure Collector.HasFound (last : Collector) (steps : List Step) : Prop where
  mem_tables : ∀ table, table ∈ last.tables ↔
    ∃ name ∈ relationNames steps, table = ".".intercalate name
  mem_cteNames : ∀ bound, bound ∈ last.cteNames ↔
    ∃ name, .binding name ∈ steps ∧ bound = lowercase name
  sorted : last.tables.Pairwise (· < ·) ∧ last.cteNames.Pairwise (· < ·)

/-- **What is found on an orderly walk.** It is stopped if and only if it goes deeper than the limit,
and else finds what it passes, under every higher limit too. -/
theorem collect_of_orderly (h : Orderly steps) (limit : Nat) :
    ((∃ last, collect limit .start steps = some last) ↔ StaysWithin limit steps) ∧
    ∀ last, collect limit .start steps = some last →
      last.HasFound steps ∧ ∀ higher, limit ≤ higher → collect higher .start steps = some last := by
  have hstart (kind : Step) (front : List Step) :
      Collector.start.depth + front.count kind = front.count kind := Nat.zero_add _
  refine ⟨?_, ?_⟩
  · rw [exists_collect_iff (by simpa only [hstart] using h.nested) (Nat.zero_le _)]
    simp only [hstart, StaysWithin]
  · intro last hlast
    refine ⟨?_, fun higher hle => collect_mono hle hlast⟩
    exact {
      mem_tables := by
        intro table
        rw [mem_tables_of_collect hlast rfl h.callsNamed]
        simp [Collector.start]
      mem_cteNames := by
        intro bound
        rw [mem_cteNames_of_collect hlast]
        simp [Collector.start]
      sorted := pairwise_of_collect hlast ⟨.nil, .nil⟩ }

end Runs

end RepoPolicy.Sql
