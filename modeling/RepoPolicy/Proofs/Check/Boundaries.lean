import RepoPolicy.Check.Boundaries
import RepoPolicy.Proofs.Check.ModulePaths

set_option autoImplicit false

/-! # Which imports cross a boundary

An import is illegal if it is of a module that belongs to another repository, which the importing
one may not use, or if it goes from a lower layer to a higher one. The check reports the illegal
imports, each as often as it occurs and in the order of the imports. To whom a module belongs is
decided by the longest of the prefixes above it. They are compared as they are written, so that
dots at the end of one, which do not count otherwise, can win a module from a prefix that names
more of its path (`dots_outweigh_a_longer_name`). The check goes by names exactly if each prefix
counts for the module that it names (`boundary_findings_are_exact_iff`). -/

namespace RepoPolicy.BoundarySettings

variable (settings : BoundarySettings)

/-! ## Declared prefixes -/

/-- The prefixes of the modules that repositories own, with the repository of each. -/
def ownedPrefixes : List (String × String) :=
  settings.repos.flatMap fun (repo, ownership) => ownership.owns.map fun above => (repo, above)

/-- The prefixes of the modules of layers, with the layer of each and its position. -/
def layerPrefixes : List ((Layer × Nat) × String) :=
  settings.layers.zipIdx.flatMap fun (layer, index) =>
    layer.prefixes.map fun above => ((layer, index), above)

/-! ## Illegal imports -/

/-- The importing repository has settings, and they do not let it import from the repository that
owns the module. -/
def ImportsForeign (edge : ImportEdge) : Prop :=
  ∃ importer owner, settings.repos.lookup edge.repo = some importer ∧
    settings.ownerOf edge.module = some owner ∧ owner ≠ edge.repo ∧ owner ∉ importer.mayImport

def ImportsUpwards (edge : ImportEdge) : Prop :=
  ∃ source target, settings.layerOf edge.importerModule = some source ∧
    settings.layerOf edge.module = some target ∧ source.2 < target.2

/-- The import crosses a boundary that it must not cross. -/
def IsIllegal (edge : ImportEdge) : Prop :=
  settings.ImportsForeign edge ∨ settings.ImportsUpwards edge

theorem ownerProblem?_isSome_iff (edge : ImportEdge) :
    (settings.ownerProblem? edge).isSome = true ↔ settings.ImportsForeign edge := by
  rw [ownerProblem?, ImportsForeign]
  cases settings.repos.lookup edge.repo with
  | none => simp
  | some importer =>
      cases settings.ownerOf edge.module with
      | none => simp
      | some owner => simp

theorem layerProblem?_isSome_iff (edge : ImportEdge) :
    (settings.layerProblem? edge).isSome = true ↔ settings.ImportsUpwards edge := by
  rw [layerProblem?, ImportsUpwards]
  cases settings.layerOf edge.importerModule with
  | none => simp
  | some source =>
      cases settings.layerOf edge.module with
      | none => simp
      | some target => simp

/-- An import has problems exactly if it is illegal. -/
theorem isClean_checkEdge_iff (edge : ImportEdge) :
    (settings.checkEdge edge).isClean = false ↔ settings.IsIllegal edge := by
  have hclean : (settings.checkEdge edge).isClean = (settings.problems edge).isEmpty := by
    show (((settings.problems edge).map BoundaryProblem.message).isEmpty && true) = _
    rw [Bool.and_true, List.isEmpty_map]
  rw [hclean, IsIllegal, ← ownerProblem?_isSome_iff, ← layerProblem?_isSome_iff, problems]
  cases settings.ownerProblem? edge <;> cases settings.layerProblem? edge <;> simp

instance (edge : ImportEdge) : Decidable (settings.IsIllegal edge) :=
  decidable_of_iff _ (settings.isClean_checkEdge_iff edge)

def report (edge : ImportEdge) : LocatedOutcome :=
  ⟨edge.filePath, edge.module, settings.checkEdge edge⟩

theorem findings_eq (imports : List ImportEdge) :
    settings.findings imports
      = (imports.filter fun edge => settings.IsIllegal edge).map settings.report := by
  have hsame : ∀ edge, (!(settings.checkEdge edge).isClean) = decide (settings.IsIllegal edge) := by
    intro edge
    rw [Bool.eq_iff_iff, Bool.not_eq_true', isClean_checkEdge_iff, decide_eq_true_iff]
  rw [findings, List.filter_map]
  simp only [Function.comp_def, hsame]
  rfl

/-- **What the check of boundaries reports.** It reports the illegal imports, in their order. The
owners and the layers of modules are chosen by the lengths of their prefixes, and by the lengths of
what these name exactly if each prefix counts for the module that it names. -/
theorem boundary_findings_are_exact_iff :
    (∀ imports, settings.findings imports
      = (imports.filter fun edge => settings.IsIllegal edge).map settings.report) ∧
    ChoosesByLength settings.ownerOf settings.ownedPrefixes ∧
    ChoosesByLength settings.layerOf settings.layerPrefixes :=
  ⟨settings.findings_eq, choosesByLength_longestAbove settings.ownedPrefixes,
    choosesByLength_longestAbove settings.layerPrefixes⟩

/-- Repositories of which one has dots at the end of its prefix. -/
def dottedOwners : BoundarySettings where
  repos := [("a", { owns := ["core...."] }), ("app", { owns := ["app"], mayImport := ["a"] }),
    ("b", { owns := ["core.db"] })]

/-- With its dots, `core....` is longer than `core.db` and wins the modules below it. So nothing is
reported where one of them is imported. -/
theorem dots_outweigh_a_longer_name :
    dottedOwners.defect? = none ∧ dottedOwners.ownerOf "core.db.x" = some "a" ∧
      ¬HasLargest namedSize dottedOwners.ownedPrefixes "core.db.x" "a" ∧
      HasLargest namedSize dottedOwners.ownedPrefixes "core.db.x" "b" ∧
      dottedOwners.findings [{ repo := "app", filePath := "app/x.py", module := "core.db.x" }]
        = [] := by
  refine ⟨by decide +kernel, by decide +kernel, ?_, ?_, by decide +kernel⟩
  · rintro ⟨above, hmem, -, hlongest⟩
    have habove : above = "core...." := by
      have hlist : dottedOwners.ownedPrefixes
        = [("a", "core...."), ("app", "app"), ("b", "core.db")] := rfl
      simpa [hlist] using hmem
    subst habove
    have hlonger := hlongest ("b", "core.db") (by decide +kernel) (by decide +kernel)
    exact absurd hlonger (by decide +kernel)
  · exact ⟨"core.db", by decide +kernel, by decide +kernel, by decide +kernel⟩

end RepoPolicy.BoundarySettings
