import Mathlib.Data.List.TakeWhile
import RepoPolicy.Check.Boundaries

set_option autoImplicit false

/-! # Slashes and backslashes in paths

The module of a file is read off its path: `./` is taken off the front, the extension off the end,
and slashes and backslashes become dots. Only the last of the three treats both separators alike.
So a path with backslashes can lose a directory together with the extension, or keep a `.\` at its
front (`backslashes_hide_a_layer`). Where neither happens, slashes in place of the backslashes make
no difference, neither to the module nor to what is found about its imports; and for every path that
holds more than dots and separators this is the exact condition
(`separators_make_no_difference_iff`). -/

namespace RepoPolicy

/-! ## Slashes for backslashes -/

def slashFor (c : Char) : Char := if c == '\\' then '/' else c

def dotFor (c : Char) : Char := if c == '/' || c == '\\' then '.' else c

def withSlashes (path : String) : String := String.ofList (path.toList.map slashFor)

def ImportEdge.withSlashes (edge : ImportEdge) : ImportEdge :=
  { edge with filePath := RepoPolicy.withSlashes edge.filePath }

def LocatedOutcome.withSlashes (located : LocatedOutcome) : LocatedOutcome :=
  { located with filePath := RepoPolicy.withSlashes located.filePath }

theorem slashFor_eq_dot_iff {c : Char} : slashFor c = '.' ↔ c = '.' := by
  by_cases h : c = '\\' <;> simp [slashFor, h]

theorem slashFor_eq_slash_iff {c : Char} : slashFor c = '/' ↔ c = '/' ∨ c = '\\' := by
  by_cases h : c = '\\' <;> simp [slashFor, h]

theorem dotFor_slashFor (c : Char) : dotFor (slashFor c) = dotFor c := by
  by_cases h : c = '\\' <;> simp [slashFor, dotFor, h]

theorem map_dotFor_slashFor (path : List Char) :
    (path.map slashFor).map dotFor = path.map dotFor := by
  rw [List.map_map]
  exact List.map_congr_left fun c _ => dotFor_slashFor c

theorem mem_dot_map_slashFor {path : List Char} : '.' ∈ path.map slashFor ↔ '.' ∈ path := by
  simp [slashFor_eq_dot_iff]

/-- The module that is read off a path. -/
def moduleOfPath (path : List Char) : List Char :=
  (dropExtension (dropCurrentDir path)).map dotFor

theorem importerModule_of_none {edge : ImportEdge} (h : edge.sourceModule = none) :
    edge.importerModule = String.ofList (moduleOfPath edge.filePath.toList) := by
  rw [ImportEdge.importerModule, h]
  rfl

theorem importerModule_withSlashes_of_none {edge : ImportEdge} (h : edge.sourceModule = none) :
    edge.withSlashes.importerModule
      = String.ofList (moduleOfPath (edge.filePath.toList.map slashFor)) := by
  have hnone : edge.withSlashes.sourceModule = none := h
  rw [importerModule_of_none hnone]
  simp [ImportEdge.withSlashes, withSlashes]

/-! ## The extension -/

/-- What stands behind a dot is the extension of the file: no slash comes later, and the dot does
not begin the name of the file. -/
structure IsExtension (stem extension : List Char) : Prop where
  no_dot : '.' ∉ extension
  no_slash : '/' ∉ extension
  stem_ne_nil : stem ≠ []
  stem_last : stem.getLast? ≠ some '/'

/-- A path without dots, or one that is divided at its last dot. -/
theorem last_dot_cases (path : List Char) :
    '.' ∉ path ∨ ∃ stem extension, path = stem ++ '.' :: extension ∧ '.' ∉ extension := by
  by_cases h : '.' ∈ path
  · refine Or.inr ?_
    obtain ⟨front, back, hsplit, hnot⟩ := List.eq_append_cons_of_mem (List.mem_reverse.2 h)
    refine ⟨back.reverse, front.reverse, ?_, by simpa using hnot⟩
    rw [← List.reverse_reverse path, hsplit]
    simp
  · exact Or.inl h

theorem dropExtension_of_no_dot {path : List Char} (h : '.' ∉ path) :
    dropExtension path = path := by
  have hall : ∀ c ∈ path.reverse, (c != '.') = true := by
    intro c hc
    simpa using ne_of_mem_of_not_mem (List.mem_reverse.1 hc) h
  rw [dropExtension, List.dropWhile_eq_nil_iff.2 hall]

theorem dropExtension_append {stem extension : List Char} (h : '.' ∉ extension) :
    dropExtension (stem ++ '.' :: extension)
      = if extension.contains '/' || stem.isEmpty || stem.getLast? == some '/' then
          stem ++ '.' :: extension
        else stem := by
  -- seen from the end, the extension is what comes before the first dot
  have hall : ∀ c ∈ extension.reverse, (c != '.') = true := by
    intro c hc
    simpa using ne_of_mem_of_not_mem (List.mem_reverse.1 hc) h
  have hreversed : (stem ++ '.' :: extension).reverse
      = extension.reverse ++ '.' :: stem.reverse := by simp
  have hdrop : (extension.reverse ++ '.' :: stem.reverse).dropWhile (· != '.')
      = '.' :: stem.reverse := by
    rw [List.dropWhile_append_of_pos hall]
    rfl
  have htake : (extension.reverse ++ '.' :: stem.reverse).takeWhile (· != '.')
      = extension.reverse := by
    rw [List.takeWhile_append_of_pos hall]
    simp
  rw [dropExtension, hreversed]
  simp only [hdrop, htake, List.contains_reverse, List.isEmpty_reverse, List.head?_reverse,
    List.reverse_reverse]

theorem dropExtension_of_isExtension {stem extension : List Char}
    (h : IsExtension stem extension) : dropExtension (stem ++ '.' :: extension) = stem := by
  rw [dropExtension_append h.no_dot, if_neg]
  simp [h.no_slash, h.stem_ne_nil, h.stem_last]

theorem dropExtension_of_not_isExtension {stem extension : List Char} (hdot : '.' ∉ extension)
    (h : ¬IsExtension stem extension) :
    dropExtension (stem ++ '.' :: extension) = stem ++ '.' :: extension := by
  rw [dropExtension_append hdot, if_pos]
  by_contra hcut
  simp only [Bool.or_eq_true, not_or, List.contains_iff_mem, List.isEmpty_iff, beq_iff_eq] at hcut
  exact h ⟨hdot, hcut.1.1, hcut.1.2, hcut.2⟩

theorem last_dot_unique {stem extension stem' extension' : List Char} (h : '.' ∉ extension)
    (h' : '.' ∉ extension') (heq : stem ++ '.' :: extension = stem' ++ '.' :: extension') :
    stem = stem' ∧ extension = extension' := by
  rcases List.append_eq_append_iff.1 heq with ⟨between, hstem, hback⟩ | ⟨between, hstem, hback⟩
  all_goals
    cases between with
    | nil => simp_all
    | cons c between =>
        rw [List.cons_append, List.cons.injEq] at hback
        simp [hback.2] at h h'

/-- A dot is the last one before an extension with slashes for backslashes too, unless a backslash
comes later or right before it. -/
theorem isExtension_map_slashFor_iff {stem extension : List Char} :
    IsExtension (stem.map slashFor) (extension.map slashFor) ↔
      IsExtension stem extension ∧ '\\' ∉ extension ∧ stem.getLast? ≠ some '\\' := by
  have hdot : '.' ∈ extension.map slashFor ↔ '.' ∈ extension := mem_dot_map_slashFor
  have hslash : '/' ∈ extension.map slashFor ↔ '/' ∈ extension ∨ '\\' ∈ extension := by
    simp only [List.mem_map, slashFor_eq_slash_iff]
    constructor
    · rintro ⟨c, hc, rfl | rfl⟩
      · exact Or.inl hc
      · exact Or.inr hc
    · rintro (h | h)
      · exact ⟨'/', h, Or.inl rfl⟩
      · exact ⟨'\\', h, Or.inr rfl⟩
  have hlast : (stem.map slashFor).getLast? = some '/' ↔
      stem.getLast? = some '/' ∨ stem.getLast? = some '\\' := by
    rw [List.getLast?_map]
    cases stem.getLast? <;> simp [slashFor_eq_slash_iff]
  constructor
  · rintro ⟨hd, hs, hne, hl⟩
    rw [hdot] at hd
    rw [hslash, not_or] at hs
    rw [ne_eq, hlast, not_or] at hl
    exact ⟨⟨hd, hs.1, by simpa using hne, hl.1⟩, hs.2, hl.2⟩
  · rintro ⟨⟨hd, hs, hne, hl⟩, hback, hbefore⟩
    exact ⟨mt hdot.1 hd, fun h => (hslash.1 h).elim hs hback, by simpa using hne,
      fun h => (hlast.1 h).elim hl hbefore⟩

/-- No backslash stands in what is taken for the extension of a path, or right before its dot. -/
def ExtensionShows (path : List Char) : Prop :=
  ∀ stem extension, path = stem ++ '.' :: extension → IsExtension stem extension →
    '\\' ∉ extension ∧ stem.getLast? ≠ some '\\'

/-- Slashes for backslashes make no difference to what is left without the extension, exactly if
they make none to the extension. -/
theorem dropExtension_map_slashFor_iff (path : List Char) :
    (dropExtension (path.map slashFor)).map dotFor = (dropExtension path).map dotFor ↔
      ExtensionShows path := by
  rcases last_dot_cases path with hno | ⟨stem, extension, rfl, hdot⟩
  · have hno' : '.' ∉ path.map slashFor := mt mem_dot_map_slashFor.1 hno
    rw [dropExtension_of_no_dot hno, dropExtension_of_no_dot hno', map_dotFor_slashFor]
    refine iff_of_true rfl ?_
    rintro stem extension rfl
    simp at hno
  · have hdot' : '.' ∉ extension.map slashFor := mt mem_dot_map_slashFor.1 hdot
    have hmap : (stem ++ '.' :: extension).map slashFor
        = stem.map slashFor ++ '.' :: extension.map slashFor := by
      rw [List.map_append, List.map_cons]
      rfl
    -- there is only one division at the last dot, so this one decides
    have hshows : ExtensionShows (stem ++ '.' :: extension) ↔
        (IsExtension stem extension → '\\' ∉ extension ∧ stem.getLast? ≠ some '\\') := by
      refine ⟨fun h => h stem extension rfl, ?_⟩
      intro h stem' extension' heq hext
      obtain ⟨rfl, rfl⟩ := last_dot_unique hdot hext.no_dot heq
      exact h hext
    rw [hshows, hmap]
    by_cases hext : IsExtension stem extension
    · rw [dropExtension_of_isExtension hext]
      by_cases hext' : IsExtension (stem.map slashFor) (extension.map slashFor)
      · rw [dropExtension_of_isExtension hext', map_dotFor_slashFor]
        exact iff_of_true rfl fun _ => (isExtension_map_slashFor_iff.1 hext').2
      · rw [dropExtension_of_not_isExtension hdot' hext']
        refine iff_of_false ?_ fun h => hext' (isExtension_map_slashFor_iff.2 ⟨hext, h hext⟩)
        intro hsame
        simpa using congrArg List.length hsame
    · have hext' : ¬IsExtension (stem.map slashFor) (extension.map slashFor) :=
        fun h => hext (isExtension_map_slashFor_iff.1 h).1
      rw [dropExtension_of_not_isExtension hdot hext, dropExtension_of_not_isExtension hdot' hext',
        ← hmap, map_dotFor_slashFor]
      exact iff_of_true rfl fun h => absurd h hext

/-- What is cut off a path begins with its last dot. -/
theorem exists_cut (path : List Char) :
    ∃ cut, path = dropExtension path ++ cut ∧
      (cut = [] ∨ ∃ extension, cut = '.' :: extension ∧ '.' ∉ extension) := by
  rcases last_dot_cases path with hno | ⟨stem, extension, rfl, hdot⟩
  · exact ⟨[], by rw [dropExtension_of_no_dot hno, List.append_nil], Or.inl rfl⟩
  · by_cases hext : IsExtension stem extension
    · exact ⟨'.' :: extension, by rw [dropExtension_of_isExtension hext],
        Or.inr ⟨extension, rfl, hdot⟩⟩
    · exact ⟨[], by rw [dropExtension_of_not_isExtension hdot hext, List.append_nil], Or.inl rfl⟩

/-- The last dot of a path, with slashes for backslashes or not, comes no sooner than that of what
follows its front. -/
theorem length_le_of_cut {front rest stem extension stem' extension' : List Char}
    (hpath : front ++ rest = stem ++ '.' :: extension) (hdot : '.' ∉ extension)
    (hrest : rest.map slashFor = stem' ++ '.' :: extension') :
    extension.length ≤ extension'.length := by
  have hsuffix : '.' :: extension' <:+ (front ++ rest).map slashFor := by
    rw [List.map_append]
    exact List.IsSuffix.trans ⟨_, hrest.symm⟩ (List.suffix_append _ _)
  have hsuffix' : extension.map slashFor <:+ (front ++ rest).map slashFor := by
    have htail : extension <:+ front ++ rest := (List.suffix_cons _ _).trans ⟨_, hpath.symm⟩
    exact htail.map slashFor
  by_contra hlonger
  have hwithin : '.' :: extension' <:+ extension.map slashFor :=
    List.suffix_of_suffix_length_le hsuffix hsuffix' (by
      rw [List.length_cons, List.length_map]
      omega)
  exact hdot (mem_dot_map_slashFor.1 (hwithin.subset List.mem_cons_self))

/-! ## The front -/

theorem dropCurrentDir_of_ne {path : List Char} (h : ∀ rest, path ≠ '.' :: '/' :: rest) :
    dropCurrentDir path = path := by
  rw [dropCurrentDir]
  exact h

/-- Without a `.\` at the front, slashes for backslashes change nothing there. -/
theorem dropCurrentDir_map_slashFor {path : List Char}
    (h : ¬['.', '\\'] <+: dropCurrentDir path) :
    dropCurrentDir (path.map slashFor) = (dropCurrentDir path).map slashFor := by
  fun_induction dropCurrentDir path with
  | case1 rest ih => exact ih h
  | case2 path hne =>
      refine dropCurrentDir_of_ne ?_
      intro rest hrest
      obtain ⟨first, path, rfl, hfirst, hpath⟩ := List.map_eq_cons_iff.1 hrest
      obtain ⟨second, path, rfl, hsecond, -⟩ := List.map_eq_cons_iff.1 hpath
      obtain rfl := slashFor_eq_dot_iff.1 hfirst
      rcases slashFor_eq_slash_iff.1 hsecond with rfl | rfl
      · exact hne path rfl
      · exact h ⟨path, rfl⟩

/-- What is taken off the front of a path with slashes for backslashes are dots and separators. -/
theorem exists_dropped (path : List Char) :
    ∃ dropped rest, path = dropped ++ rest ∧ (∀ c ∈ dropped, dotFor c = '.') ∧
      dropCurrentDir (path.map slashFor) = rest.map slashFor := by
  generalize hslashed : path.map slashFor = slashed
  fun_induction dropCurrentDir slashed generalizing path with
  | case1 rest ih =>
      obtain ⟨first, path, rfl, hfirst, hpath⟩ := List.map_eq_cons_iff.1 hslashed
      obtain ⟨second, path, rfl, hsecond, hpath⟩ := List.map_eq_cons_iff.1 hpath
      obtain ⟨dropped, rest, rfl, hdropped, hrest⟩ := ih path hpath
      refine ⟨first :: second :: dropped, rest, rfl, ?_, hrest⟩
      have hfirst' : dotFor first = '.' := by rw [← dotFor_slashFor, hfirst]; rfl
      have hsecond' : dotFor second = '.' := by rw [← dotFor_slashFor, hsecond]; rfl
      simpa [hfirst', hsecond'] using hdropped
  | case2 slashed hne => exact ⟨[], path, rfl, by simp, hslashed.symm⟩

/-- A `.\` at the front is taken off once it is a `./`. -/
theorem exists_dropped_of_hidden {path : List Char} (h : ['.', '\\'] <+: dropCurrentDir path) :
    ∃ dropped rest, dropCurrentDir path = dropped ++ rest ∧ dropped ≠ [] ∧
      (∀ c ∈ dropped, dotFor c = '.') ∧ dropCurrentDir (path.map slashFor) = rest.map slashFor := by
  fun_induction dropCurrentDir path with
  | case1 rest ih => exact ih h
  | case2 path hne =>
      obtain ⟨behind, rfl⟩ := h
      obtain ⟨dropped, rest, rfl, hdropped, hrest⟩ := exists_dropped behind
      refine ⟨'.' :: '\\' :: dropped, rest, rfl, by simp, ?_, hrest⟩
      have hmarks : dotFor '.' = '.' ∧ dotFor '\\' = '.' := by decide
      simpa [hmarks] using hdropped

theorem mem_dropCurrentDir {path : List Char} {c : Char} (h : c ∈ path) (hc : dotFor c ≠ '.') :
    c ∈ dropCurrentDir path := by
  fun_induction dropCurrentDir path with
  | case1 rest ih =>
      refine ih ?_
      have hmarks : dotFor '.' = '.' ∧ dotFor '/' = '.' := by decide
      rcases List.mem_cons.1 h with rfl | h
      · exact absurd hmarks.1 hc
      rcases List.mem_cons.1 h with rfl | h
      · exact absurd hmarks.2 hc
      · exact h
  | case2 path hne => exact h

/-- A text that begins with one character repeated, however often this is put in front of it,
consists of it. -/
theorem eq_of_mem_of_append_eq {x : Char} {front back : List Char} (hne : front ≠ [])
    (hfront : ∀ c ∈ front, c = x) :
    ∀ {text : List Char}, front ++ text = text ++ back → ∀ c ∈ text, c = x := by
  intro text
  induction hlength : text.length using Nat.strongRecOn generalizing text with
  | ind n ih =>
      intro heq c hc
      rcases List.append_eq_append_iff.1 heq with ⟨between, htext, hback⟩ | ⟨between, hfront', -⟩
      · -- the text begins with the front, and so does what is left of it
        rw [htext] at hc
        rcases List.mem_append.1 hc with hc | hc
        · exact hfront c hc
        · have hshorter : between.length < n := by
            rw [← hlength, htext, List.length_append]
            have := List.length_pos_iff.2 hne
            omega
          refine ih _ hshorter rfl ?_ c hc
          rw [← htext, hback]
      · exact hfront c (by rw [hfront']; exact List.mem_append_left _ hc)

/-! ## Modules -/

def NamesSomething (path : String) : Prop := ∃ c ∈ path.toList, c ≠ '.' ∧ c ≠ '/' ∧ c ≠ '\\'

/-- Backslashes separate the parts of a path where slashes would: the path does not begin with `.\`
once every `./` is taken off its front, and no backslash stands in what is taken for its extension,
or right before the dot of it. -/
structure SeparatorsShow (path : String) : Prop where
  front : ¬['.', '\\'] <+: dropCurrentDir path.toList
  extension : ExtensionShows (dropCurrentDir path.toList)

theorem dotFor_ne_dot {c : Char} (h : c ≠ '.' ∧ c ≠ '/' ∧ c ≠ '\\') : dotFor c ≠ '.' := by
  simp [dotFor, h]

/-- With a `.\` at its front a path that names something has another module than with slashes. The
one begins with the dots for this front, the other does not, and for the rest they agree as far as
they go: if they were the same, all would be dots. -/
theorem moduleOfPath_ne_of_hidden {path : List Char} (h : ['.', '\\'] <+: dropCurrentDir path)
    (hname : ∃ c ∈ path, dotFor c ≠ '.') :
    moduleOfPath (path.map slashFor) ≠ moduleOfPath path := by
  obtain ⟨dropped, rest, hpath, hne, hmarks, hslashed⟩ := exists_dropped_of_hidden h
  obtain ⟨cut, hcut, hlast⟩ := exists_cut (dropped ++ rest)
  obtain ⟨cut', hcut', hlast'⟩ := exists_cut (rest.map slashFor)
  rw [moduleOfPath, moduleOfPath, hslashed, hpath]
  intro hsame
  have hpositive := List.length_pos_iff.2 hne
  have hlength : cut.length = dropped.length + cut'.length := by
    have h1 := congrArg List.length hsame
    have h2 := congrArg List.length hcut
    have h3 := congrArg List.length hcut'
    simp only [List.length_map, List.length_append] at h1 h2 h3
    omega
  obtain ⟨extension, rfl, hdot⟩ := hlast.resolve_left fun hnil => by
    rw [hnil, List.length_nil] at hlength
    omega
  -- without the front less is cut off, and yet the last dot is the same
  have hnothing : cut' = [] := by
    refine hlast'.resolve_right ?_
    rintro ⟨extension', rfl, -⟩
    have hlater := length_le_of_cut hcut hdot hcut'
    rw [List.length_cons, List.length_cons] at hlength
    omega
  rw [hnothing, List.append_nil] at hcut'
  rw [← hcut', map_dotFor_slashFor] at hsame
  have hcommute : dropped.map dotFor ++ rest.map dotFor
      = rest.map dotFor ++ ('.' :: extension).map dotFor := by
    rw [← List.map_append, hcut, List.map_append, hsame]
  have hdots : ∀ c ∈ rest.map dotFor, c = '.' :=
    eq_of_mem_of_append_eq (by simpa using hne) (by simpa using hmarks) hcommute
  obtain ⟨c, hc, hcname⟩ := hname
  have hmem := mem_dropCurrentDir hc hcname
  rw [hpath] at hmem
  rcases List.mem_append.1 hmem with hmem | hmem
  · exact hcname (hmarks c hmem)
  · exact hcname (hdots _ (List.mem_map_of_mem hmem))

theorem moduleOfPath_map_slashFor_iff {path : List Char}
    (h : ¬['.', '\\'] <+: dropCurrentDir path) :
    moduleOfPath (path.map slashFor) = moduleOfPath path ↔
      ExtensionShows (dropCurrentDir path) := by
  rw [moduleOfPath, moduleOfPath, dropCurrentDir_map_slashFor h]
  exact dropExtension_map_slashFor_iff _

namespace ImportEdge

variable {edge : ImportEdge}

theorem importerModule_withSlashes_of_some {module : String}
    (h : edge.sourceModule = some module) :
    edge.withSlashes.importerModule = edge.importerModule := by
  rw [importerModule, importerModule, withSlashes, h]

theorem importerModule_withSlashes (h : edge.sourceModule = none → SeparatorsShow edge.filePath) :
    edge.withSlashes.importerModule = edge.importerModule := by
  cases hsource : edge.sourceModule with
  | some module => exact importerModule_withSlashes_of_some hsource
  | none =>
      have hshow := h hsource
      rw [importerModule_withSlashes_of_none hsource, importerModule_of_none hsource,
        (moduleOfPath_map_slashFor_iff hshow.front).2 hshow.extension]

theorem importerModule_withSlashes_iff (h : edge.sourceModule = none)
    (hname : NamesSomething edge.filePath) :
    edge.withSlashes.importerModule = edge.importerModule ↔ SeparatorsShow edge.filePath := by
  refine ⟨?_, fun hshow => importerModule_withSlashes fun _ => hshow⟩
  rw [importerModule_withSlashes_of_none h, importerModule_of_none h, String.ofList_inj]
  intro hsame
  obtain ⟨c, hc, hcname⟩ := hname
  have hfront : ¬['.', '\\'] <+: dropCurrentDir edge.filePath.toList := fun hhidden =>
    moduleOfPath_ne_of_hidden hhidden ⟨c, hc, dotFor_ne_dot hcname⟩ hsame
  exact ⟨hfront, (moduleOfPath_map_slashFor_iff hfront).1 hsame⟩

end ImportEdge

/-! ## Findings -/

namespace BoundarySettings

variable (settings : BoundarySettings)

/-- What a check says about an import depends on the path of its file through the importing module
only. -/
theorem checkEdge_withSlashes {edge : ImportEdge}
    (h : edge.withSlashes.importerModule = edge.importerModule) :
    settings.checkEdge edge.withSlashes = settings.checkEdge edge := by
  have howner : settings.ownerProblem? edge.withSlashes = settings.ownerProblem? edge := rfl
  have hlayer : settings.layerProblem? edge.withSlashes = settings.layerProblem? edge := by
    rw [layerProblem?, layerProblem?, h]
    rfl
  rw [checkEdge, checkEdge, problems, problems, howner, hlayer]
  rfl

theorem findings_withSlashes {imports : List ImportEdge}
    (h : ∀ edge ∈ imports, edge.withSlashes.importerModule = edge.importerModule) :
    settings.findings (imports.map ImportEdge.withSlashes)
      = (settings.findings imports).map LocatedOutcome.withSlashes := by
  induction imports with
  | nil => rfl
  | cons edge imports ih =>
      have hedge := settings.checkEdge_withSlashes (h edge (by simp))
      have hrest := ih fun other hother => h other (List.mem_cons_of_mem _ hother)
      simp only [findings, List.map_cons, List.filter_cons, hedge] at hrest ⊢
      rw [hrest]
      cases (settings.checkEdge edge).isClean <;> rfl

end BoundarySettings

/-- **When separators make no difference.** If the path of a file names something, its module is the
same with slashes for backslashes exactly if the backslashes separate where slashes would. Imports
of which all paths are so are reported in the same way with slashes. -/
theorem separators_make_no_difference_iff (settings : BoundarySettings)
    (imports : List ImportEdge) :
    (∀ edge ∈ imports, edge.sourceModule = none → NamesSomething edge.filePath →
      (edge.withSlashes.importerModule = edge.importerModule ↔ SeparatorsShow edge.filePath)) ∧
    ((∀ edge ∈ imports, edge.sourceModule = none → SeparatorsShow edge.filePath) →
      (∀ edge ∈ imports, edge.withSlashes.importerModule = edge.importerModule) ∧
      settings.findings (imports.map ImportEdge.withSlashes)
        = (settings.findings imports).map LocatedOutcome.withSlashes) := by
  refine ⟨fun edge _ hnone hname => edge.importerModule_withSlashes_iff hnone hname, ?_⟩
  intro hshow
  have hsame : ∀ edge ∈ imports, edge.withSlashes.importerModule = edge.importerModule :=
    fun edge hedge => ImportEdge.importerModule_withSlashes (hshow edge hedge)
  exact ⟨hsame, settings.findings_withSlashes hsame⟩

/-- Two layers, of which the lower one must not import from the other. -/
def coreBelowApi : BoundarySettings where
  layers :=
    [{ name := "core", prefixes := ["src.core"] }, { name := "api", prefixes := ["src.api"] }]

def upwardImport (path : String) : ImportEdge :=
  { repo := "app", filePath := path, module := "src.api.y" }

theorem backslashes_between_names_show :
    SeparatorsShow "src\\core.d\\x.py" ∧
      (upwardImport "src\\core.d\\x.py").withSlashes.importerModule
        = (upwardImport "src\\core.d\\x.py").importerModule ∧
      coreBelowApi.findings [(upwardImport "src\\core.d\\x.py").withSlashes]
        = (coreBelowApi.findings [upwardImport "src\\core.d\\x.py"]).map
            LocatedOutcome.withSlashes ∧
      ¬SeparatorsShow ".\\src\\core\\x.py" := by
  have hshow : SeparatorsShow "src\\core.d\\x.py" :=
    ⟨by decide, (dropExtension_map_slashFor_iff _).1 (by decide)⟩
  obtain ⟨-, hall⟩ := separators_make_no_difference_iff coreBelowApi
    [upwardImport "src\\core.d\\x.py"]
  obtain ⟨hsame, hfindings⟩ := hall (by simpa [upwardImport] using hshow)
  obtain ⟨hexact, -⟩ := separators_make_no_difference_iff coreBelowApi
    [upwardImport ".\\src\\core\\x.py"]
  have hiff := hexact _ List.mem_cons_self rfl ⟨'s', by decide, by decide⟩
  exact ⟨hshow, hsame _ (by simp), hfindings, fun h => absurd (hiff.2 h) (by decide)⟩

/-- A `.\` at the front stays there, and a directory with a dot in its name is taken for a part of
the extension. So the importing module is in no layer, or in another one, and the import from a
higher layer is not reported. -/
theorem backslashes_hide_a_layer :
    (upwardImport "./src/core/x.py").importerModule = "src.core.x" ∧
      (upwardImport ".\\src\\core\\x.py").importerModule = "..src.core.x" ∧
      (upwardImport "src/core.d/run").importerModule = "src.core.d.run" ∧
      (upwardImport "src\\core.d\\run").importerModule = "src.core" ∧
      (upwardImport ".\\src\\core\\x.py").withSlashes = upwardImport "./src/core/x.py" ∧
      (coreBelowApi.findings [upwardImport "./src/core/x.py"]).length = 1 ∧
      coreBelowApi.findings [upwardImport ".\\src\\core\\x.py"] = [] := by
  decide +kernel

end RepoPolicy
