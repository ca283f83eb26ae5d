import Mathlib.Data.List.Nodup
import RepoPolicy.Baseline
import RepoPolicy.Proofs.Digest.Fingerprints
import RepoPolicy.Proofs.Finding.ViolationOrder
import RepoPolicy.Proofs.Text.NameSets

set_option autoImplicit false

/-! # Baselines that can be obtained

Every way to make a baseline adds entries one by one, and leaves out an entry whose fingerprint is
known. So the set of fingerprints stays in step with the entries: it knows theirs and no others
(`Tracks.insert`). The fingerprints of the entries differ from each other, and all have the form of
one: `WellFormed` says all this, `WellFormed.insert` is the step, and `Obtainable.wellFormed` covers
all ways to make a baseline. -/

namespace RepoPolicy.Baseline

open RepoPolicy.Text

/-! ## The set and the entries -/

theorem contains_iff {baseline : Baseline} {fingerprint : String} :
    baseline.contains fingerprint = true ↔ fingerprint ∈ baseline.fingerprints :=
  List.contains_iff_mem

/-- The set knows the fingerprints of the entries, and no others. -/
def Tracks (baseline : Baseline) : Prop :=
  ∀ fingerprint, fingerprint ∈ baseline.fingerprints ↔
    fingerprint ∈ baseline.entries.map (·.fingerprint)

/-- The baseline of entries with different fingerprints. -/
def holding (entries : List BaselineEntry) : Baseline where
  fingerprints := NameSet.ofList (entries.map (·.fingerprint))
  entries := entries
  sorted := NameSet.pairwise_ofList _

theorem tracks_holding (entries : List BaselineEntry) : (holding entries).Tracks :=
  fun _ => NameSet.mem_ofList

/-- A set in increasing order is determined by its members, so the entries determine the baseline. -/
theorem Tracks.eq_holding {baseline : Baseline} (h : baseline.Tracks) :
    baseline = holding baseline.entries := by
  obtain ⟨fingerprints, entries, sorted⟩ := baseline
  obtain rfl : fingerprints = NameSet.ofList (entries.map (·.fingerprint)) :=
    NameSet.eq_of_same_members sorted (NameSet.pairwise_ofList _) fun fingerprint =>
      (h fingerprint).trans NameSet.mem_ofList.symm
  rfl

/-! ## One more entry -/

theorem insert_of_mem {baseline : Baseline} {entry : BaselineEntry}
    (h : entry.fingerprint ∈ baseline.fingerprints) : baseline.insert entry = baseline :=
  if_pos (contains_iff.2 h)

theorem entries_insert {baseline : Baseline} {entry : BaselineEntry}
    (h : entry.fingerprint ∉ baseline.fingerprints) :
    (baseline.insert entry).entries = baseline.entries ++ [entry] := by
  rw [insert, if_neg (mt contains_iff.1 h)]

/-- Whether an entry is left out or not, its fingerprint is known afterwards. -/
theorem mem_fingerprints_insert {baseline : Baseline} {entry : BaselineEntry}
    {fingerprint : String} :
    fingerprint ∈ (baseline.insert entry).fingerprints ↔
      fingerprint = entry.fingerprint ∨ fingerprint ∈ baseline.fingerprints := by
  by_cases h : entry.fingerprint ∈ baseline.fingerprints
  · rw [insert_of_mem h]
    refine ⟨.inr, ?_⟩
    rintro (rfl | hknown)
    · exact h
    · exact hknown
  · rw [insert, if_neg (mt contains_iff.1 h)]
    exact NameSet.mem_insert

/-- **One entry keeps the set in step with the entries.** -/
theorem Tracks.insert {baseline : Baseline} (h : baseline.Tracks) (entry : BaselineEntry) :
    (baseline.insert entry).Tracks := by
  by_cases hknown : entry.fingerprint ∈ baseline.fingerprints
  · rw [insert_of_mem hknown]
    exact h
  · intro fingerprint
    rw [mem_fingerprints_insert, entries_insert hknown, List.map_append, List.mem_append,
      List.map_singleton, List.mem_singleton, h fingerprint, or_comm]

theorem insert_holding {entries : List BaselineEntry} {entry : BaselineEntry}
    (h : entry.fingerprint ∉ entries.map (·.fingerprint)) :
    (holding entries).insert entry = holding (entries ++ [entry]) := by
  have hnew : entry.fingerprint ∉ (holding entries).fingerprints :=
    mt (tracks_holding entries _).1 h
  rw [((tracks_holding entries).insert entry).eq_holding, entries_insert hnew]
  rfl

/-- The set is in step with the entries, no fingerprint is known twice, and all have the right
form. -/
structure WellFormed (baseline : Baseline) : Prop where
  tracks : baseline.Tracks
  distinct : (baseline.entries.map (·.fingerprint)).Nodup
  formed : ∀ entry ∈ baseline.entries, Digest.isFingerprint entry.fingerprint = true

theorem WellFormed.empty : WellFormed .empty where
  tracks := fun _ => Iff.rfl
  distinct := List.nodup_nil
  formed := by simp [Baseline.empty]

/-- **An entry with the right form keeps a baseline well formed.** -/
theorem WellFormed.insert {baseline : Baseline} (h : baseline.WellFormed) {entry : BaselineEntry}
    (hentry : Digest.isFingerprint entry.fingerprint = true) :
    (baseline.insert entry).WellFormed := by
  by_cases hknown : entry.fingerprint ∈ baseline.fingerprints
  · rw [insert_of_mem hknown]
    exact h
  · refine ⟨h.tracks.insert entry, ?_, ?_⟩ <;> rw [entries_insert hknown]
    -- the new fingerprint is none of those before it, as the set does not contain it
    · rw [List.map_append, List.map_cons, List.map_nil, List.nodup_append]
      refine ⟨h.distinct, by simp, ?_⟩
      intro fingerprint hfingerprint other hother heq
      rw [List.mem_singleton] at hother
      rw [heq, hother] at hfingerprint
      exact hknown ((h.tracks _).2 hfingerprint)
    · intro other hother
      rcases List.mem_append.1 hother with hold | hnew
      · exact h.formed other hold
      · rw [List.mem_singleton.1 hnew]
        exact hentry

theorem insertChecked_eq_ok {baseline next : Baseline} {entry : BaselineEntry} :
    baseline.insertChecked entry = .ok next ↔
      Digest.isFingerprint entry.fingerprint = true ∧ baseline.insert entry = next := by
  rw [insertChecked]
  by_cases h : Digest.isFingerprint entry.fingerprint = true <;> simp [h]

theorem foldlM_insertChecked_cons (baseline : Baseline) (entry : BaselineEntry)
    (entries : List BaselineEntry) :
    (entry :: entries).foldlM insertChecked baseline
      = (baseline.insertChecked entry).bind fun next => entries.foldlM insertChecked next := rfl

/-! ## All entries -/

/-- What one entry keeps, a list of entries keeps. -/
theorem WellFormed.foldlM_insertChecked {entries : List BaselineEntry} :
    ∀ {baseline last : Baseline}, baseline.WellFormed →
      entries.foldlM insertChecked baseline = .ok last → last.WellFormed := by
  induction entries with
  | nil =>
      intro baseline last h heq
      cases heq
      exact h
  | cons entry entries ih =>
      intro baseline last h heq
      rw [foldlM_insertChecked_cons] at heq
      cases hnext : baseline.insertChecked entry with
      | error e => rw [hnext] at heq; cases heq
      | ok next =>
          rw [hnext] at heq
          obtain ⟨hentry, rfl⟩ := insertChecked_eq_ok.1 hnext
          exact ih (h.insert hentry) heq

theorem WellFormed.foldl_insert {entries : List BaselineEntry}
    (hentries : ∀ entry ∈ entries, Digest.isFingerprint entry.fingerprint = true) :
    ∀ {baseline : Baseline}, baseline.WellFormed →
      (entries.foldl Baseline.insert baseline).WellFormed := by
  induction entries with
  | nil => exact fun h => h
  | cons entry entries ih =>
      intro baseline h
      rw [List.foldl_cons]
      exact ih (fun other hother => hentries other (by simp [hother]))
        (h.insert (hentries entry (by simp)))

theorem mem_fingerprints_foldl_insert {entries : List BaselineEntry} {fingerprint : String} :
    ∀ {baseline : Baseline}, fingerprint ∈ (entries.foldl insert baseline).fingerprints ↔
      fingerprint ∈ baseline.fingerprints ∨ fingerprint ∈ entries.map (·.fingerprint) := by
  induction entries with
  | nil => simp
  | cons entry entries ih =>
      intro baseline
      rw [List.foldl_cons, ih, mem_fingerprints_insert, List.map_cons, List.mem_cons, or_assoc,
        or_left_comm]

/-- The fingerprints of violations are known in a baseline of them. -/
theorem mem_fingerprints_ofViolations {violations : List Violation} {fingerprint : String} :
    fingerprint ∈ (ofViolations violations).fingerprints ↔
      fingerprint ∈ violations.map (·.fingerprint) := by
  rw [ofViolations, mem_fingerprints_foldl_insert, List.map_map]
  exact or_iff_right List.not_mem_nil

theorem wellFormed_of_ofEntries {entries : List BaselineEntry} {baseline : Baseline}
    (h : ofEntries entries = .ok baseline) : baseline.WellFormed :=
  WellFormed.empty.foldlM_insertChecked h

theorem wellFormed_ofViolations {violations : List Violation}
    (h : ∀ violation ∈ violations, violation.Made) : (ofViolations violations).WellFormed := by
  refine WellFormed.empty.foldl_insert ?_
  intro entry hentry
  obtain ⟨violation, hviolation, rfl⟩ := List.mem_map.1 hentry
  rw [entryOf, h violation hviolation]
  exact Digest.isFingerprint_fingerprint _ _ _

theorem wellFormed_of_ofJson {text : String} {baseline : Baseline}
    (h : ofJson text = .ok baseline) : baseline.WellFormed := by
  rw [ofJson] at h
  cases hparse : Document.Json.parse text with
  | none => rw [hparse] at h; cases h
  | some value =>
      rw [hparse] at h
      simp only [ofDocument] at h
      split at h
      · exact wellFormed_of_ofEntries h
      · split at h
        · split at h
          · exact wellFormed_of_ofEntries h
          · cases h
        · cases h

/-- The ways to make a baseline: of entries, of fingerprints, of violations that a run has found, and
of a document. -/
inductive Obtainable : Baseline → Prop where
  | ofEntries {entries : List BaselineEntry} {baseline : Baseline}
      (h : Baseline.ofEntries entries = .ok baseline) : Obtainable baseline
  | ofFingerprints {fingerprints : List String} {baseline : Baseline}
      (h : Baseline.ofFingerprints fingerprints = .ok baseline) : Obtainable baseline
  | ofViolations {violations : List Violation} (h : ∀ violation ∈ violations, violation.Made) :
      Obtainable (Baseline.ofViolations violations)
  | ofJson {text : String} {baseline : Baseline} (h : Baseline.ofJson text = .ok baseline) :
      Obtainable baseline

/-- **Every baseline that can be obtained is well formed.** -/
theorem Obtainable.wellFormed {baseline : Baseline} (h : baseline.Obtainable) :
    baseline.WellFormed := by
  cases h with
  | ofEntries h => exact wellFormed_of_ofEntries h
  | ofFingerprints h => exact wellFormed_of_ofEntries h
  | ofViolations h => exact wellFormed_ofViolations h
  | ofJson h => exact wellFormed_of_ofJson h

/-! ## Entries that are all kept -/

/-- Entries with different fingerprints are all kept, in their order. -/
theorem foldlM_insertChecked_of_distinct {entries : List BaselineEntry} :
    ∀ (earlier : List BaselineEntry),
      (∀ entry ∈ entries, Digest.isFingerprint entry.fingerprint = true) →
      ((earlier ++ entries).map (·.fingerprint)).Nodup →
      entries.foldlM insertChecked (holding earlier) = .ok (holding (earlier ++ entries)) := by
  induction entries with
  | nil =>
      intro earlier _ _
      rw [List.append_nil]
      rfl
  | cons entry entries ih =>
      intro earlier hformed hdistinct
      have hnew : entry.fingerprint ∉ earlier.map (·.fingerprint) := by
        rw [List.map_append, List.map_cons, List.nodup_append] at hdistinct
        intro hmem
        exact hdistinct.2.2 _ hmem _ (by simp) rfl
      have hnext : (holding earlier).insertChecked entry = .ok (holding (earlier ++ [entry])) :=
        insertChecked_eq_ok.2 ⟨hformed entry (by simp), insert_holding hnew⟩
      rw [foldlM_insertChecked_cons, hnext]
      -- the entry goes over to the baseline, so that all entries together stay the same
      have hmore := ih (earlier ++ [entry]) (fun other hother => hformed other (by simp [hother]))
        (by simpa using hdistinct)
      rw [List.append_assoc] at hmore
      exact hmore

theorem ofEntries_of_wellFormed {baseline : Baseline} (h : baseline.WellFormed) :
    ofEntries baseline.entries = .ok baseline := by
  rw [h.tracks.eq_holding]
  exact foldlM_insertChecked_of_distinct [] h.formed h.distinct

end RepoPolicy.Baseline
