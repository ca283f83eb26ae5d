import RepoPolicy.Proofs.Baseline.Entries
import RepoPolicy.Proofs.Document.Decoding
import RepoPolicy.Proofs.Document.JsonText

set_option autoImplicit false

/-! # Baselines are saved and loaded without loss

The document of a baseline lists its entries by increasing fingerprint. It is read back entry by
entry (`decodeEntry_encodeEntry`), and no entry is left out, since their fingerprints differ. So
loading what was saved gives the same set and the same entries in that order, and the text depends on
the set of entries only (`saved_baseline_is_loaded`). -/

namespace RepoPolicy.Baseline

open RepoPolicy.Document RepoPolicy.Text

/-! ## Entries as documents -/

/-- An entry is read back, with what is absent still absent. -/
theorem decodeEntry_encodeEntry (entry : BaselineEntry) :
    decodeEntry (encodeEntry entry) = some entry := by
  obtain ⟨fingerprint, ruleName, filePath, symbol⟩ := entry
  cases ruleName <;> cases filePath <;> cases symbol <;> rfl

theorem decodeVersioned_toDocument (baseline : Baseline) :
    decodeVersioned baseline.toDocument = some (baselineVersion, baseline.sortedEntries) := by
  have hentries : Decoder.list decodeEntry (.list (baseline.sortedEntries.map encodeEntry))
      = some baseline.sortedEntries :=
    Decoder.list_map fun entry _ => decodeEntry_encodeEntry entry
  have hfound : (Fields.required [("version", .nat baselineVersion),
      ("entries", .list (baseline.sortedEntries.map encodeEntry))] "entries"
        (Decoder.list decodeEntry)) = some baseline.sortedEntries := hentries
  rw [decodeVersioned, toDocument]
  simp only [Decoder.fields, Option.bind_eq_bind, Option.bind_some, hfound]
  rfl

theorem ofDocument_toDocument (baseline : Baseline) :
    ofDocument baseline.toDocument = ofEntries baseline.sortedEntries := by
  rw [ofDocument, decodeVersioned_toDocument]
  rfl

/-! ## The text -/

theorem expressible_encodeEntry (entry : BaselineEntry) :
    Json.Expressible 1 (encodeEntry entry) := by
  refine .record ?_
  intro field hfield
  rcases List.mem_cons.1 hfield with rfl | hmeta
  · exact .string _
  · obtain ⟨⟨name, text⟩, -, htext⟩ := List.mem_filterMap.1 hmeta
    obtain ⟨text, -, rfl⟩ := Option.map_eq_some_iff.1 htext
    exact .string _

theorem expressible_toDocument (baseline : Baseline) : Json.Expressible 3 baseline.toDocument := by
  refine .record ?_
  intro field hfield
  simp only [List.mem_cons, List.not_mem_nil, or_false] at hfield
  rcases hfield with rfl | rfl
  · exact .nat (by decide)
  · refine .list ?_
    intro value hvalue
    obtain ⟨entry, -, rfl⟩ := List.mem_map.1 hvalue
    exact expressible_encodeEntry entry

theorem ofJson_toJson (baseline : Baseline) :
    ofJson baseline.toJson = ofEntries baseline.sortedEntries := by
  have hparse : Json.parse baseline.toJson = some baseline.toDocument :=
    Json.parse_pretty (expressible_toDocument baseline) (by decide)
  rw [ofJson, hparse]
  exact ofDocument_toDocument baseline

/-- What is written to a file is what is read from it. -/
theorem ofFile_toUTF8 (text : String) : ofFile (some text.toUTF8) = ofJson text := by
  have hvalid : text.toUTF8.IsValidUTF8 := text.isValidUTF8
  have htext : String.fromUTF8? text.toUTF8 = some text := by
    rw [String.fromUTF8?, dif_pos hvalid]
    rfl
  rw [ofFile, Option.bind_some, htext]

/-! ## The order of entries -/

theorem sortedEntries_perm (baseline : Baseline) :
    baseline.sortedEntries.Perm baseline.entries :=
  List.mergeSort_perm _ _

theorem pairwise_le_sortedEntries (baseline : Baseline) :
    baseline.sortedEntries.Pairwise fun a b => a.fingerprint ≤ b.fingerprint :=
  pairwise_mergeSort_of_key BaselineEntry.fingerprint (fun _ _ => decide_eq_true_iff)
    baseline.entries

namespace WellFormed

variable {baseline : Baseline} (h : baseline.WellFormed)

include h

/-- Sorted entries are those of a well-formed baseline too. -/
theorem sorted : WellFormed (holding baseline.sortedEntries) where
  tracks := tracks_holding _
  distinct := ((sortedEntries_perm baseline).map _).nodup_iff.2 h.distinct
  formed := fun entry hentry => h.formed entry ((sortedEntries_perm baseline).mem_iff.1 hentry)

/-- The fingerprints of sorted entries increase strictly. -/
theorem pairwise_sortedEntries :
    baseline.sortedEntries.Pairwise fun a b => a.fingerprint < b.fingerprint := by
  have hdistinct := List.pairwise_map.1 h.sorted.distinct
  exact ((pairwise_le_sortedEntries baseline).and hdistinct).imp
    fun ⟨hle, hne⟩ => lt_of_le_of_ne hle hne

/-- The sorted entries depend on the set of entries only. -/
theorem sortedEntries_congr {other : Baseline} (hother : other.WellFormed)
    (hsame : ∀ entry, entry ∈ other.entries ↔ entry ∈ baseline.entries) :
    other.sortedEntries = baseline.sortedEntries := by
  have hperm : other.sortedEntries.Perm baseline.sortedEntries := by
    refine (List.perm_ext_iff_of_nodup hother.sorted.distinct.of_map h.sorted.distinct.of_map).2 ?_
    intro entry
    show entry ∈ other.sortedEntries ↔ entry ∈ baseline.sortedEntries
    rw [(sortedEntries_perm other).mem_iff, (sortedEntries_perm baseline).mem_iff, hsame]
  exact hperm.eq_of_pairwise (fun a b _ _ hab hba => absurd hab hba.asymm)
    hother.pairwise_sortedEntries h.pairwise_sortedEntries

/-- Sorting the entries changes nothing of the set. -/
theorem fingerprints_sorted :
    (holding baseline.sortedEntries).fingerprints = baseline.fingerprints := by
  refine NameSet.eq_of_same_members (holding _).sorted baseline.sorted fun fingerprint => ?_
  rw [tracks_holding, h.tracks]
  exact ((sortedEntries_perm baseline).map _).mem_iff

theorem ofJson_toJson_eq_ok : ofJson baseline.toJson = .ok (holding baseline.sortedEntries) := by
  rw [ofJson_toJson]
  exact ofEntries_of_wellFormed h.sorted

/-- The text of a baseline depends on the set of entries only. -/
theorem toJson_congr {other : Baseline} (hother : other.WellFormed)
    (hsame : ∀ entry, entry ∈ other.entries ↔ entry ∈ baseline.entries) :
    other.toJson = baseline.toJson := by
  rw [toJson, toJson, toDocument, toDocument, h.sortedEntries_congr hother hsame]

end WellFormed

/-- **Saving and loading loses nothing, and the text is canonical.** What was saved can be loaded,
from the text or from a file; the loaded baseline has the same fingerprints and the same entries by
increasing fingerprint; it is saved as the same text, and so is every baseline with the same
entries. -/
theorem saved_baseline_is_loaded {baseline : Baseline} (h : baseline.Obtainable) :
    ∃ loaded : Baseline, ofJson baseline.toJson = .ok loaded ∧
      ofFile (some baseline.toJson.toUTF8) = .ok loaded ∧
      loaded.fingerprints = baseline.fingerprints ∧
      loaded.entries.Perm baseline.entries ∧
      (loaded.entries.Pairwise fun a b => a.fingerprint < b.fingerprint) ∧
      loaded.toJson = baseline.toJson ∧
      ∀ other : Baseline, other.Obtainable →
        (∀ entry, entry ∈ other.entries ↔ entry ∈ baseline.entries) →
        other.toJson = baseline.toJson := by
  have hformed := h.wellFormed
  have hperm := sortedEntries_perm baseline
  have hload := hformed.ofJson_toJson_eq_ok
  refine ⟨holding baseline.sortedEntries, hload, ?_, hformed.fingerprints_sorted, hperm,
    hformed.pairwise_sortedEntries, ?_, ?_⟩
  · rw [ofFile_toUTF8, hload]
  · exact hformed.toJson_congr hformed.sorted fun entry => hperm.mem_iff
  · intro other hother hsame
    exact hformed.toJson_congr hother.wellFormed hsame

/-- Two entries out of order, one of them with a file name that cannot be written as it is. -/
def escapedEntries : List BaselineEntry :=
  [{ fingerprint := "f00000000000000f", filePath := some "a\"b\\c\n\u0001é😀" },
    { fingerprint := "0123456789abcdef", ruleName := some "", symbol := some "t" }]

theorem escapedEntries_are_loaded :
    ∃ loaded : Baseline, ofJson (holding escapedEntries).toJson = .ok loaded ∧
      loaded.entries = escapedEntries.reverse ∧
      loaded.toJson = (holding escapedEntries).toJson ∧
      (holding escapedEntries.reverse).toJson = (holding escapedEntries).toJson := by
  have hobtained : Obtainable (holding escapedEntries) :=
    .ofEntries (show ofEntries escapedEntries = .ok (holding escapedEntries) from rfl)
  have hreversed : Obtainable (holding escapedEntries.reverse) :=
    .ofEntries (show ofEntries escapedEntries.reverse = .ok (holding escapedEntries.reverse) from rfl)
  obtain ⟨loaded, hload, -, -, hperm, hsorted, htext, hcanonical⟩ :=
    saved_baseline_is_loaded hobtained
  have horder : escapedEntries.reverse.Pairwise fun a b => a.fingerprint < b.fingerprint := by
    decide
  have hentries : loaded.entries = escapedEntries.reverse :=
    (hperm.trans (List.reverse_perm _).symm).eq_of_pairwise
      (fun a b _ _ hab hba => absurd hab hba.asymm) hsorted horder
  exact ⟨loaded, hload, hentries, htext, hcanonical _ hreversed fun entry => List.mem_reverse⟩

end RepoPolicy.Baseline
