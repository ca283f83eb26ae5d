import RepoPolicy.Proofs.Baseline.Saving

set_option autoImplicit false

/-! # Baselines through any run of operations

Each way to make a baseline keeps the first entry with each fingerprint, in the order of the entries
it is given (`firstOccurrences`). Only the set of fingerprints is asked whether an entry is new, and
the entries show the same (`InStep`), since one entry leaves the two in step. An operation that fails
changes nothing. So all that holds of one baseline after one operation holds after every run of them
(`reached_baselines_are_in_step`). -/

namespace RepoPolicy.Baseline

open RepoPolicy.Document RepoPolicy.Text

/-! ## First occurrences -/

/-- The entries before which none has the same fingerprint, in their order. -/
def firstOccurrences : List BaselineEntry → List BaselineEntry
  | [] => []
  | entry :: rest =>
    entry :: (firstOccurrences rest).filter fun other => other.fingerprint != entry.fingerprint

theorem mem_map_firstOccurrences {fingerprint : String} (entries : List BaselineEntry) :
    fingerprint ∈ (firstOccurrences entries).map (·.fingerprint) ↔
      fingerprint ∈ entries.map (·.fingerprint) := by
  induction entries with
  | nil => rfl
  | cons entry rest ih =>
      rw [firstOccurrences, List.map_cons, List.map_cons, List.mem_cons, List.mem_cons, ← ih]
      by_cases heq : fingerprint = entry.fingerprint
      · simp [heq]
      · simp only [heq, false_or, List.mem_map, List.mem_filter, bne_iff_ne]
        constructor
        · rintro ⟨other, ⟨hother, -⟩, rfl⟩
          exact ⟨other, hother, rfl⟩
        · rintro ⟨other, hother, rfl⟩
          exact ⟨other, ⟨hother, heq⟩, rfl⟩

/-- Of the entries with a fingerprint it is the first one that is kept. -/
theorem find?_firstOccurrences (fingerprint : String) (entries : List BaselineEntry) :
    (firstOccurrences entries).find? (·.fingerprint == fingerprint)
      = entries.find? (·.fingerprint == fingerprint) := by
  induction entries with
  | nil => rfl
  | cons entry rest ih =>
      rw [firstOccurrences, List.find?_cons, List.find?_cons, ← ih]
      by_cases heq : entry.fingerprint = fingerprint
      · simp [heq]
      · rw [beq_eq_false_iff_ne.2 heq, List.find?_filter]
        refine congrArg (List.find? · _) (funext fun other => ?_)
        by_cases hother : other.fingerprint = fingerprint
        · simp [hother, Ne.symm heq]
        · simp [hother]

/-- **Adding entries one by one keeps their first occurrences**, except for what is known before. -/
theorem entries_foldl_insert (entries : List BaselineEntry) :
    ∀ baseline : Baseline, (entries.foldl insert baseline).entries
      = baseline.entries ++
        (firstOccurrences entries).filter fun entry => entry.fingerprint ∉ baseline.fingerprints := by
  induction entries with
  | nil =>
      intro baseline
      exact (List.append_nil _).symm
  | cons entry rest ih =>
      intro baseline
      rw [List.foldl_cons, ih, firstOccurrences]
      by_cases hknown : entry.fingerprint ∈ baseline.fingerprints
      -- a known fingerprint changes nothing now, and later ones like it are left out for the same
      -- reason
      · rw [insert_of_mem hknown, List.filter_cons_of_neg (by simp [hknown]), List.filter_filter]
        refine congrArg (baseline.entries ++ ·) (List.filter_congr fun other _ => ?_)
        by_cases heq : other.fingerprint = entry.fingerprint
        · simp [heq, hknown]
        · simp [heq]
      -- a new entry is known from here on, which leaves out exactly those like it
      · rw [entries_insert hknown, List.filter_cons_of_pos (by simp [hknown]), List.filter_filter,
          List.append_assoc, List.singleton_append]
        refine congrArg (baseline.entries ++ entry :: ·) (List.filter_congr fun other _ => ?_)
        rw [Bool.eq_iff_iff]
        simp [mem_fingerprints_insert, and_comm]

theorem Tracks.foldl_insert {baseline : Baseline} (h : baseline.Tracks)
    (entries : List BaselineEntry) : (entries.foldl Baseline.insert baseline).Tracks := by
  induction entries generalizing baseline with
  | nil => exact h
  | cons entry rest ih => exact ih (h.insert entry)

theorem foldl_insert_empty (entries : List BaselineEntry) :
    entries.foldl insert .empty = holding (firstOccurrences entries) := by
  have hentries := entries_foldl_insert entries .empty
  have hall : (firstOccurrences entries).filter
      (fun entry => entry.fingerprint ∉ empty.fingerprints) = firstOccurrences entries :=
    List.filter_eq_self.2 fun _ _ => rfl
  rw [hall] at hentries
  rw [(WellFormed.empty.tracks.foldl_insert entries).eq_holding, hentries]
  rfl

theorem ofViolations_eq (violations : List Violation) :
    ofViolations violations = holding (firstOccurrences (violations.map entryOf)) :=
  foldl_insert_empty _

/-! ## Malformed entries -/

/-- Entries are added until one is malformed. -/
theorem foldlM_insertChecked_eq (entries : List BaselineEntry) :
    ∀ baseline : Baseline, entries.foldlM insertChecked baseline
      = match entries.find? fun entry => !Digest.isFingerprint entry.fingerprint with
        | some entry => .error (.invalidFingerprint entry.fingerprint)
        | none => .ok (entries.foldl insert baseline) := by
  induction entries with
  | nil => exact fun _ => rfl
  | cons entry rest ih =>
      intro baseline
      rw [foldlM_insertChecked_cons, insertChecked, List.find?_cons]
      by_cases hentry : Digest.isFingerprint entry.fingerprint = true
      · rw [if_pos hentry, hentry]
        exact ih _
      · rw [if_neg hentry, Bool.eq_false_iff.2 hentry]
        rfl

theorem ofEntries_eq (entries : List BaselineEntry) :
    ofEntries entries
      = match entries.find? fun entry => !Digest.isFingerprint entry.fingerprint with
        | some entry => .error (.invalidFingerprint entry.fingerprint)
        | none => .ok (holding (firstOccurrences entries)) := by
  rw [ofEntries, foldlM_insertChecked_eq, foldl_insert_empty]

/-- **A list of entries is refused exactly if one of them is malformed, and the first such entry is
named.** -/
theorem ofEntries_eq_error_iff {entries : List BaselineEntry} {error : BaselineError} :
    ofEntries entries = .error error ↔
      ∃ earlier entry later, entries = earlier ++ entry :: later ∧
        (∀ other ∈ earlier, Digest.isFingerprint other.fingerprint = true) ∧
        Digest.isFingerprint entry.fingerprint = false ∧
        error = .invalidFingerprint entry.fingerprint := by
  rw [ofEntries_eq]
  cases hfind : entries.find? fun entry => !Digest.isFingerprint entry.fingerprint with
  | none =>
      simp only [reduceCtorEq, false_iff]
      rintro ⟨earlier, entry, later, rfl, -, hentry, -⟩
      have hformed := List.find?_eq_none.1 hfind entry (by simp)
      simp [hentry] at hformed
  | some found =>
      obtain ⟨hfound, earlier, later, heq, hearlier⟩ := List.find?_eq_some_iff_append.1 hfind
      simp only [Except.error.injEq]
      constructor
      · rintro rfl
        exact ⟨earlier, found, later, heq, by simpa using hearlier, by simpa using hfound, rfl⟩
      · rintro ⟨before, entry, after, rfl, hbefore, hentry, rfl⟩
        -- the first malformed entry is unique, so the one that was found is the one that is given
        have hfirst : (before ++ entry :: after).find?
            (fun entry => !Digest.isFingerprint entry.fingerprint) = some entry := by
          rw [List.find?_eq_some_iff_append]
          exact ⟨by simp [hentry], before, after, rfl, by simpa using hbefore⟩
        rw [hfirst] at hfind
        rw [Option.some.inj hfind]

/-! ## Documents -/

/-- A document lists entries: by their fingerprints alone, or with the version that is read. -/
inductive Lists : Value → List BaselineEntry → Prop where
  | bare {value : Value} {fingerprints : List String}
      (h : Decoder.list Decoder.string value = some fingerprints) :
      Lists value (fingerprints.map fun fingerprint => { fingerprint })
  | versioned {value : Value} {entries : List BaselineEntry}
      (h : decodeVersioned value = some (baselineVersion, entries)) : Lists value entries

theorem exists_of_ofJson_eq_ok {text : String} {baseline : Baseline}
    (h : ofJson text = .ok baseline) :
    ∃ value entries, Json.parse text = some value ∧ Lists value entries ∧
      ofEntries entries = .ok baseline := by
  rw [ofJson] at h
  cases hparse : Json.parse text with
  | none => rw [hparse] at h; cases h
  | some value =>
      rw [hparse] at h
      simp only [ofDocument] at h
      split at h
      · exact ⟨value, _, rfl, .bare ‹_›, h⟩
      · split at h
        · split at h
          · rename_i hversioned hversion
            exact ⟨value, _, rfl, .versioned (hversion ▸ hversioned), h⟩
          · cases h
        · cases h

/-! ## Operations -/

/-- What can be done to obtain a baseline. -/
inductive Operation where
  | ofJson (text : String)
  | ofEntries (entries : List BaselineEntry)
  | ofFingerprints (fingerprints : List String)
  | ofViolations (violations : List { violation : Violation // violation.Made })
  /-- Save the baseline to a file and load the file. -/
  | reload

namespace Operation

def apply (baseline : Baseline) : Operation → Except BaselineError Baseline
  | ofJson text => Baseline.ofJson text
  | ofEntries entries => Baseline.ofEntries entries
  | ofFingerprints fingerprints => Baseline.ofFingerprints fingerprints
  | ofViolations violations => .ok (Baseline.ofViolations (violations.map (·.val)))
  | reload => ofFile (some baseline.toJson.toUTF8)

/-- The baseline after an operation. If it fails, the baseline stays as it was. -/
def next (baseline : Baseline) (operation : Operation) : Baseline :=
  match operation.apply baseline with
  | .ok given => given
  | .error _ => baseline

def run (operations : List Operation) : Baseline := operations.foldl next .empty

theorem wellFormed_of_apply_eq_ok {baseline given : Baseline} {operation : Operation}
    (h : operation.apply baseline = .ok given) : given.WellFormed := by
  cases operation with
  | ofJson text => exact wellFormed_of_ofJson h
  | ofEntries entries => exact wellFormed_of_ofEntries h
  | ofFingerprints fingerprints => exact wellFormed_of_ofEntries h
  | ofViolations violations =>
      cases h
      refine wellFormed_ofViolations fun violation hmem => ?_
      obtain ⟨made, -, rfl⟩ := List.mem_map.1 hmem
      exact made.property
  | reload =>
      rw [apply, ofFile_toUTF8] at h
      exact wellFormed_of_ofJson h

/-- An operation keeps a baseline well formed. -/
theorem wellFormed_next {baseline : Baseline} (h : baseline.WellFormed) (operation : Operation) :
    (operation.next baseline).WellFormed := by
  rw [next]
  split
  · exact wellFormed_of_apply_eq_ok ‹_›
  · exact h

/-- **Whatever has been done, the baseline is well formed.** -/
theorem wellFormed_run (operations : List Operation) : (run operations).WellFormed := by
  have hfrom : ∀ baseline : Baseline, baseline.WellFormed →
      (operations.foldl next baseline).WellFormed := by
    induction operations with
    | nil => exact fun _ h => h
    | cons operation rest ih => exact fun _ h => ih _ (wellFormed_next h operation)
  exact hfrom .empty .empty

end Operation

/-! ## What holds of every baseline -/

/-- The entries and the fingerprints of a baseline agree: each fingerprint has one entry, and it is a
fingerprint by its form. -/
structure InStep (baseline : Baseline) : Prop where
  distinct : (baseline.entries.map (·.fingerprint)).Nodup
  mem_fingerprints : ∀ fingerprint, fingerprint ∈ baseline.fingerprints ↔
    ∃ entry ∈ baseline.entries, entry.fingerprint = fingerprint
  sorted : baseline.fingerprints.Pairwise (· < ·)
  size_entries : baseline.size = baseline.entries.length
  size_fingerprints : baseline.size = baseline.fingerprints.length
  contains : ∀ fingerprint, baseline.contains fingerprint = true ↔
    ∃ entry ∈ baseline.entries, entry.fingerprint = fingerprint
  formed : ∀ fingerprint ∈ baseline.fingerprints, Digest.isFingerprint fingerprint = true

theorem WellFormed.inStep {baseline : Baseline} (h : baseline.WellFormed) : baseline.InStep := by
  have hknown : ∀ fingerprint, fingerprint ∈ baseline.fingerprints ↔
      ∃ entry ∈ baseline.entries, entry.fingerprint = fingerprint :=
    fun fingerprint => (h.tracks fingerprint).trans List.mem_map
  have hperm : baseline.fingerprints.Perm (baseline.entries.map (·.fingerprint)) :=
    (List.perm_ext_iff_of_nodup (baseline.sorted.imp ne_of_lt) h.distinct).2 h.tracks
  exact {
    distinct := h.distinct
    mem_fingerprints := hknown
    sorted := baseline.sorted
    size_entries := hperm.length_eq.trans (List.length_map _)
    size_fingerprints := rfl
    contains := fun fingerprint => contains_iff.trans (hknown fingerprint)
    formed := by
      intro fingerprint hmem
      obtain ⟨entry, hentry, rfl⟩ := (hknown fingerprint).1 hmem
      exact h.formed entry hentry }

/-- A baseline keeps the first of the given entries with each fingerprint, in their order, and knows
the fingerprints of all of them. -/
structure KeepsFirst (baseline : Baseline) (given : List BaselineEntry) : Prop where
  entries : baseline.entries = firstOccurrences given
  find? : ∀ fingerprint, baseline.entries.find? (·.fingerprint == fingerprint)
    = given.find? (·.fingerprint == fingerprint)
  mem_fingerprints : ∀ fingerprint, fingerprint ∈ baseline.fingerprints ↔
    ∃ entry ∈ given, entry.fingerprint = fingerprint

theorem keepsFirst_firstOccurrences (given : List BaselineEntry) :
    KeepsFirst (holding (firstOccurrences given)) given where
  entries := rfl
  find? := fun fingerprint => find?_firstOccurrences fingerprint given
  mem_fingerprints := fun fingerprint => (tracks_holding _ fingerprint).trans
    ((mem_map_firstOccurrences given).trans List.mem_map)

theorem keepsFirst_of_ofEntries {given : List BaselineEntry} {baseline : Baseline}
    (h : ofEntries given = .ok baseline) : baseline.KeepsFirst given := by
  rw [ofEntries_eq] at h
  split at h
  · cases h
  · obtain rfl := Except.ok.inj h
    exact keepsFirst_firstOccurrences given

/-- **Every baseline is in step with itself, whatever has been done to obtain it.** Each way to make
one keeps the first entry with each fingerprint, in the order in which the entries are given. Entries
are refused exactly if one is malformed, and it is the first malformed one that is named, wherever it
stands. -/
theorem reached_baselines_are_in_step (operations : List Operation) :
    (Operation.run operations).InStep ∧
    (∀ entries baseline, ofEntries entries = .ok baseline → baseline.KeepsFirst entries) ∧
    (∀ fingerprints baseline, ofFingerprints fingerprints = .ok baseline →
      baseline.KeepsFirst (fingerprints.map fun fingerprint => { fingerprint })) ∧
    (∀ violations, (ofViolations violations).KeepsFirst (violations.map entryOf)) ∧
    (∀ text baseline, ofJson text = .ok baseline →
      ∃ value entries, Json.parse text = some value ∧ Lists value entries ∧
        baseline.KeepsFirst entries) ∧
    ∀ entries error, ofEntries entries = .error error ↔
      ∃ earlier entry later, entries = earlier ++ entry :: later ∧
        (∀ other ∈ earlier, Digest.isFingerprint other.fingerprint = true) ∧
        Digest.isFingerprint entry.fingerprint = false ∧
        error = .invalidFingerprint entry.fingerprint := by
  refine ⟨(Operation.wellFormed_run operations).inStep, fun _ _ => keepsFirst_of_ofEntries,
    fun _ _ => keepsFirst_of_ofEntries, fun violations => ?_, fun text baseline h => ?_,
    fun _ _ => ofEntries_eq_error_iff⟩
  · rw [ofViolations_eq]
    exact keepsFirst_firstOccurrences _
  · obtain ⟨value, entries, hparse, hlists, hentries⟩ := exists_of_ofJson_eq_ok h
    exact ⟨value, entries, hparse, hlists, keepsFirst_of_ofEntries hentries⟩

/-- Two entries with one fingerprint, and an entry that is malformed. -/
def repeatedEntries : List BaselineEntry :=
  [{ fingerprint := "0123456789abcdef", symbol := some "first" },
    { fingerprint := "0123456789abcdef", symbol := some "second" },
    { fingerprint := "0123456789ABCDEF" }]

/-- The first of the two entries is kept, the malformed one is refused, and the refusal leaves the
baseline as it was. -/
theorem repeatedEntries_are_in_step :
    ofEntries repeatedEntries = .error (.invalidFingerprint "0123456789ABCDEF") ∧
      (Operation.run [.ofEntries (repeatedEntries.take 2), .ofEntries repeatedEntries]).InStep ∧
      (Operation.run [.ofEntries (repeatedEntries.take 2), .ofEntries repeatedEntries]).entries
        = repeatedEntries.take 1 := by
  obtain ⟨hstep, -, -, -, -, hrefused⟩ := reached_baselines_are_in_step
    [.ofEntries (repeatedEntries.take 2), .ofEntries repeatedEntries]
  refine ⟨(hrefused _ _).2 ?_, hstep, rfl⟩
  exact ⟨repeatedEntries.take 2, _, [], rfl, by decide, by decide, rfl⟩

end RepoPolicy.Baseline
