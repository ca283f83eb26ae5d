import RepoPolicy.Check.Topics
import RepoPolicy.Proofs.Finding.Outcomes
import RepoPolicy.Proofs.Pattern.Description
import RepoPolicy.Proofs.Text.Segments

set_option autoImplicit false

/-! # Names of topics

By default a topic is named by segments with dots between them: a domain, one or more segments that
tell what it is about, and a version. `IsTopicName` says this of the segments. The default pattern
says it of the characters, and there a version may also be read as one more segment in between. Both
accept the same names (`isMatch_defaultPattern_iff`), so that the check finds as many errors as
there are conditions that a name breaks (`topic_names_are_exact`). -/

namespace RepoPolicy

/-! ## The grammar of names -/

/-- A letter in lower case, and then such letters, digits and marks. -/
def isSegment (marks : List Char) : List Char → Bool
  | [] => false
  | c :: others => c.isLower && others.all fun d => d.isLower || d.isDigit || marks.contains d

def isVersion : List Char → Bool
  | 'v' :: digits => !digits.isEmpty && digits.all Char.isDigit
  | _ => false

/-- The name of a topic: a domain, one or more segments in between, and a version. -/
structure IsTopicName (name : String) : Prop where
  enough : 3 ≤ (segments name).length
  first : ∀ segment ∈ (segments name).head?, isSegment ['_'] segment = true
  between : ∀ segment ∈ (segments name).tail.dropLast, isSegment ['_', '-'] segment = true
  last : ∀ segment ∈ (segments name).getLast?, isVersion segment = true

instance (name : String) : Decidable (IsTopicName name) :=
  decidable_of_iff
    (3 ≤ (segments name).length ∧
      (∀ segment ∈ (segments name).head?, isSegment ['_'] segment = true) ∧
      (∀ segment ∈ (segments name).tail.dropLast, isSegment ['_', '-'] segment = true) ∧
      ∀ segment ∈ (segments name).getLast?, isVersion segment = true)
    ⟨fun ⟨enough, first, between, last⟩ => ⟨enough, first, between, last⟩,
      fun h => ⟨h.enough, h.first, h.between, h.last⟩⟩

/-- A name begins in one of the ways that are allowed; any way is, if none is listed. -/
def BeginsAsAllowed (starts : List String) (name : String) : Prop :=
  starts = [] ∨ ∃ start ∈ starts, start.toList <+: name.toList

instance (starts : List String) (name : String) : Decidable (BeginsAsAllowed starts name) :=
  inferInstanceAs (Decidable (_ ∨ _))

theorem isSegment_iff {marks segment : List Char} :
    isSegment marks segment = true ↔
      ∃ c others, segment = c :: others ∧ c.isLower = true ∧
        ∀ d ∈ others, (d.isLower || d.isDigit || marks.contains d) = true := by
  cases segment with
  | nil => simp [isSegment]
  | cons c others =>
      rw [isSegment, Bool.and_eq_true, List.all_eq_true]
      constructor
      · rintro ⟨hc, hothers⟩
        exact ⟨c, others, rfl, hc, hothers⟩
      · rintro ⟨_, _, heq, hc, hothers⟩
        obtain ⟨rfl, rfl⟩ := List.cons.inj heq
        exact ⟨hc, hothers⟩

theorem isVersion_iff {segment : List Char} :
    isVersion segment = true ↔
      ∃ digits, segment = 'v' :: digits ∧ digits ≠ [] ∧ ∀ d ∈ digits, d.isDigit = true := by
  constructor
  · intro h
    unfold isVersion at h
    split at h
    · simp only [Bool.and_eq_true, Bool.not_eq_true', List.isEmpty_eq_false_iff,
        List.all_eq_true] at h
      exact ⟨_, rfl, h.1, h.2⟩
    · cases h
  · rintro ⟨digits, rfl, hne, hdigits⟩
    simpa [isVersion, hne] using hdigits

/-- A name in its parts: the domain, the segments in between with their dots, and the version. -/
structure Parts (name domain : List Char) (between : List (List Char)) (version : List Char) :
    Prop where
  text : name = domain ++ ((between.map ('.' :: ·)).flatten ++ '.' :: version)
  domain : isSegment ['_'] domain = true
  some_between : between ≠ []
  between : ∀ segment ∈ between, isSegment ['_', '-'] segment = true
  version : isVersion version = true

theorem intercalate_dot (first : List Char) (others : List (List Char)) :
    ['.'].intercalate (first :: others) = first ++ (others.map ('.' :: ·)).flatten := by
  induction others generalizing first with
  | nil => simp
  | cons second others ih =>
      rw [List.intercalate_cons_cons, ih, List.map_cons, List.flatten_cons]
      simp

theorem not_mem_dot_of_isSegment {marks segment : List Char} (hmarks : '.' ∉ marks)
    (h : isSegment marks segment = true) : '.' ∉ segment := by
  obtain ⟨c, others, rfl, hc, hothers⟩ := isSegment_iff.1 h
  intro hdot
  rcases List.mem_cons.1 hdot with rfl | hdot
  · cases hc
  · have hkind : ('.'.isLower || '.'.isDigit || marks.contains '.') = true := hothers '.' hdot
    have hno : ('.'.isLower || '.'.isDigit) = false := by decide
    rw [hno, Bool.false_or, List.contains_iff_mem] at hkind
    exact hmarks hkind

theorem not_mem_dot_of_isVersion {segment : List Char} (h : isVersion segment = true) :
    '.' ∉ segment := by
  obtain ⟨digits, rfl, -, hdigits⟩ := isVersion_iff.1 h
  intro hdot
  rcases List.mem_cons.1 hdot with hdot | hdot
  · exact absurd hdot (by decide)
  · exact absurd (hdigits '.' hdot) (by decide)

theorem intercalate_parts (domain : List Char) (between : List (List Char))
    (version : List Char) :
    ['.'].intercalate (domain :: (between ++ [version]))
      = domain ++ ((between.map ('.' :: ·)).flatten ++ '.' :: version) := by
  rw [intercalate_dot, List.map_append, List.flatten_append]
  simp

/-- The grammar of segments is that of the parts of the text. -/
theorem isTopicName_iff {name : String} :
    IsTopicName name ↔ ∃ domain between version, Parts name.toList domain between version := by
  constructor
  · rintro ⟨henough, hfirst, hbetween, hlast⟩
    have htext := intercalate_segments name
    obtain ⟨domain, others, hsegments⟩ := List.exists_cons_of_ne_nil (segments_ne_nil name)
    rw [hsegments] at henough hfirst hbetween hlast htext
    have hothers : others ≠ [] := by
      rintro rfl
      simp at henough
    obtain ⟨between, version, rfl⟩ : ∃ between version, others = between ++ [version] :=
      ⟨others.dropLast, others.getLast hothers, (List.dropLast_concat_getLast hothers).symm⟩
    refine ⟨domain, between, version, ?_, hfirst domain rfl, ?_, ?_, ?_⟩
    · rw [← htext, intercalate_parts]
    · rintro rfl
      simp at henough
    · simpa using hbetween
    · refine hlast version ?_
      rw [← List.cons_append, List.getLast?_concat]
      rfl
  · rintro ⟨domain, between, version, htext, hdomain, hsome, hbetween, hversion⟩
    -- no part holds a dot, so the dots that divide the name are those between the parts
    have hsegments : segments name = domain :: (between ++ [version]) := by
      rw [segments, htext, ← intercalate_parts]
      refine List.splitOn_intercalate '.' ?_ (by simp)
      simp only [List.mem_cons, List.mem_append, List.not_mem_nil, or_false]
      rintro segment (rfl | hsegment | rfl)
      · exact not_mem_dot_of_isSegment (by decide) hdomain
      · exact not_mem_dot_of_isSegment (by decide) (hbetween segment hsegment)
      · exact not_mem_dot_of_isVersion hversion
    refine ⟨?_, ?_, ?_, ?_⟩
    · have hlength := List.length_pos_iff.2 hsome
      rw [hsegments, List.length_cons, List.length_append, List.length_singleton]
      omega
    · simpa [hsegments] using hdomain
    · simpa [hsegments] using hbetween
    · rw [hsegments, ← List.cons_append, List.getLast?_concat]
      simpa using hversion

/-! ## The default pattern -/

/-- The letters in lower case, as the pattern has them. -/
def letterSet : CharSet := .union .none (.span 'a' 'z')

/-- What may stand behind the first letter of the domain. -/
def domainSet : CharSet := .union (.union letterSet (.span '0' '9')) (.only '_')

/-- What may stand behind the first letter of another segment. -/
def segmentSet : CharSet := .union domainSet (.only '-')

def digitSet : CharSet := .union .none (.span '0' '9')

def segmentPattern (others : CharSet) (rest : Pattern) : Pattern :=
  .seq (.char letterSet) (.seq (.times (.char others) 0 none) rest)

def dottedPattern : Pattern := .seq (.char (.only '.')) (segmentPattern segmentSet .empty)

def versionPattern : Pattern :=
  .seq (.char (.only 'v')) (.seq (.times (.char digitSet) 1 none) (.seq (.assert .textEnd) .empty))

def defaultPattern : Pattern :=
  .seq (.assert .textStart) <| segmentPattern domainSet <| .seq (.times dottedPattern 1 none) <|
    .seq (.char (.only '.')) versionPattern

theorem read_defaultTopicPattern : Pattern.read defaultTopicPattern = .ok defaultPattern := by
  have hread : (Pattern.read defaultTopicPattern).toOption = some defaultPattern := by
    decide +kernel
  cases h : Pattern.read defaultTopicPattern with
  | error cause => simp [h, Except.toOption] at hread
  | ok pattern =>
      rw [h] at hread
      exact congrArg _ (Option.some.inj hread)

theorem contains_letterSet (c : Char) : letterSet.contains c = c.isLower := rfl

theorem contains_digitSet (c : Char) : digitSet.contains c = c.isDigit := rfl

theorem contains_only (c d : Char) : (CharSet.only d).contains c = decide (c = d) := by
  rw [Bool.eq_iff_iff, decide_eq_true_eq, CharSet.only, CharSet.contains, Bool.and_eq_true,
    decide_eq_true_eq, decide_eq_true_eq]
  exact ⟨fun h => Char.le_antisymm h.2 h.1, fun h => h ▸ ⟨Char.le_refl c, Char.le_refl c⟩⟩

theorem contains_domainSet (c : Char) :
    domainSet.contains c = (c.isLower || c.isDigit || ['_'].contains c) := by
  show (letterSet.contains c || digitSet.contains c || (CharSet.only '_').contains c) = _
  rw [contains_letterSet, contains_digitSet, contains_only]
  simp

theorem contains_segmentSet (c : Char) :
    segmentSet.contains c = (c.isLower || c.isDigit || ['_', '-'].contains c) := by
  show (domainSet.contains c || (CharSet.only '-').contains c) = _
  rw [contains_domainSet, contains_only]
  simp [Bool.or_assoc]

section Pattern

variable {before piece after : List Char} {rest : Pattern}

/-- A segment and the rest, where the set has the letters, the digits and some marks. -/
theorem describes_segmentPattern_iff {others : CharSet} {marks : List Char}
    (h : ∀ c, others.contains c = (c.isLower || c.isDigit || marks.contains c)) :
    (segmentPattern others rest).Describes before piece after ↔
      ∃ segment tail, isSegment marks segment = true ∧
        rest.Describes (segment.reverse ++ before) tail after ∧ piece = segment ++ tail := by
  rw [segmentPattern, Pattern.describes_seq_char_iff]
  simp only [Pattern.describes_seq_run_iff, contains_letterSet, h]
  constructor
  · rintro ⟨c, _, hc, ⟨run, tail, -, hrun, hrest, rfl⟩, rfl⟩
    exact ⟨c :: run, tail, isSegment_iff.2 ⟨c, run, rfl, hc, hrun⟩, by simpa using hrest, rfl⟩
  · rintro ⟨segment, tail, hsegment, hrest, rfl⟩
    obtain ⟨c, run, rfl, hc, hrun⟩ := isSegment_iff.1 hsegment
    exact ⟨c, run ++ tail, hc, ⟨run, tail, Nat.zero_le _, hrun, by simpa using hrest, rfl⟩, rfl⟩

theorem describes_seq_only_iff {c : Char} :
    (Pattern.seq (.char (.only c)) rest).Describes before piece after ↔
      ∃ tail, rest.Describes (c :: before) tail after ∧ piece = c :: tail := by
  rw [Pattern.describes_seq_char_iff]
  simp only [contains_only, decide_eq_true_eq]
  constructor
  · rintro ⟨_, tail, rfl, hrest, rfl⟩
    exact ⟨tail, hrest, rfl⟩
  · rintro ⟨tail, hrest, rfl⟩
    exact ⟨c, tail, rfl, hrest, rfl⟩

theorem stands_dottedPattern :
    dottedPattern.Stands fun piece =>
      ∃ segment, isSegment ['_', '-'] segment = true ∧ piece = '.' :: segment := by
  intro before piece after
  rw [dottedPattern, describes_seq_only_iff]
  simp only [describes_segmentPattern_iff contains_segmentSet, Pattern.describes_empty_iff]
  constructor
  · rintro ⟨_, ⟨segment, _, hsegment, rfl, rfl⟩, rfl⟩
    exact ⟨segment, hsegment, by simp⟩
  · rintro ⟨segment, hsegment, rfl⟩
    exact ⟨segment, ⟨segment, [], hsegment, rfl, by simp⟩, rfl⟩

/-- Dotted segments in a row are segments with dots before them. -/
theorem exists_segments_iff {kind : List Char → Prop} {pieces : List (List Char)} :
    (∀ piece ∈ pieces, ∃ segment, kind segment ∧ piece = '.' :: segment) ↔
      ∃ between : List (List Char), (∀ segment ∈ between, kind segment) ∧
        pieces = between.map ('.' :: ·) := by
  constructor
  · intro h
    refine ⟨pieces.map List.tail, ?_, ?_⟩
    · intro segment hsegment
      obtain ⟨piece, hpiece, rfl⟩ := List.mem_map.1 hsegment
      obtain ⟨segment, hkind, rfl⟩ := h piece hpiece
      exact hkind
    · have hsame : ∀ piece ∈ pieces, id piece = '.' :: piece.tail := by
        intro piece hpiece
        obtain ⟨segment, -, rfl⟩ := h piece hpiece
        rfl
      rw [List.map_map]
      exact (List.map_id pieces).symm.trans (List.map_congr_left hsame)
  · rintro ⟨between, hkind, rfl⟩ piece hpiece
    obtain ⟨segment, hsegment, rfl⟩ := List.mem_map.1 hpiece
    exact ⟨segment, hkind segment hsegment, rfl⟩

theorem describes_versionPattern_iff :
    versionPattern.Describes before piece after ↔ isVersion piece = true ∧ after = [] := by
  rw [versionPattern, describes_seq_only_iff]
  simp only [Pattern.describes_seq_run_iff, Pattern.describes_seq_assert_iff,
    Pattern.describes_empty_iff, contains_digitSet, isVersion_iff]
  constructor
  · rintro ⟨_, ⟨digits, _, hone, hdigits, ⟨hend, rfl⟩, rfl⟩, rfl⟩
    have hafter : after = [] := by simpa [Assertion.holds] using hend
    exact ⟨⟨digits, by simp, List.length_pos_iff.1 hone, hdigits⟩, hafter⟩
  · rintro ⟨⟨digits, rfl, hne, hdigits⟩, rfl⟩
    exact ⟨digits, ⟨digits, [], List.length_pos_iff.2 hne, hdigits, ⟨rfl, rfl⟩, by simp⟩, rfl⟩

end Pattern

/-- **The default pattern matches the names of topics.** A version can be read as one more segment
in between, but then there is no version left. -/
theorem isMatch_defaultPattern_iff {name : String} :
    defaultPattern.isMatch name = true ↔ IsTopicName name := by
  rw [Pattern.isMatch_iff, isTopicName_iff]
  simp only [defaultPattern, Pattern.describes_seq_assert_iff,
    describes_segmentPattern_iff contains_domainSet, stands_dottedPattern.describes_seq_times_iff,
    describes_seq_only_iff, describes_versionPattern_iff, exists_segments_iff]
  constructor
  · rintro ⟨front, _, _, htext, hstart, domain, _, hdomain, ⟨_, _, hone, ⟨between, hbetween, rfl⟩,
      ⟨version, ⟨hversion, rfl⟩, rfl⟩, rfl⟩, rfl⟩
    -- the pattern is anchored, so nothing stands before the domain
    obtain rfl : front = [] := by simpa [Assertion.holds] using hstart
    refine ⟨domain, between, version, by simpa using htext, hdomain, ?_, hbetween, hversion⟩
    rintro rfl
    simp at hone
  · rintro ⟨domain, between, version, htext, hdomain, hsome, hbetween, hversion⟩
    refine ⟨[], _, [], ?_, rfl, domain, _, hdomain, ⟨_, _, ?_, ⟨between, hbetween, rfl⟩,
      ⟨version, ⟨hversion, rfl⟩, rfl⟩, rfl⟩, rfl⟩
    · simpa using htext
    · rw [List.length_map]
      exact List.length_pos_iff.2 hsome

/-! ## The check -/

theorem startsAsAllowed_iff {check : TopicCheck} {name : String} :
    check.startsAsAllowed name = true ↔ BeginsAsAllowed check.settings.allowedPrefixes name := by
  simp only [TopicCheck.startsAsAllowed, BeginsAsAllowed, Bool.or_eq_true, List.isEmpty_iff,
    List.any_eq_true, List.isPrefixOf_iff_prefix]

/-- **What the check of topics accepts by default.** It can be made from any settings with the
default pattern, and a name is valid exactly if it is the name of a topic and begins as allowed.
There is one error for each of the two that is not so. -/
theorem topic_names_are_exact {settings : TopicSettings}
    (h : settings.pattern = defaultTopicPattern) :
    ∃ check, TopicCheck.ofSettings settings = .ok check ∧ ∀ name,
      ((check.checkName name).isValid = true ↔
        IsTopicName name ∧ BeginsAsAllowed settings.allowedPrefixes name) ∧
      (check.checkName name).errors.length
        = (if IsTopicName name then 0 else 1) +
          (if BeginsAsAllowed settings.allowedPrefixes name then 0 else 1) := by
  let check : TopicCheck := ⟨settings, ⟨defaultTopicPattern, defaultPattern⟩⟩
  have hread : WrittenPattern.read .topicNaming settings.pattern
      = .ok ⟨defaultTopicPattern, defaultPattern⟩ := by
    rw [WrittenPattern.read, h, read_defaultTopicPattern]
  refine ⟨check, by rw [TopicCheck.ofSettings, hread]; rfl, ?_⟩
  intro name
  have hmatch : check.pattern.isMatch name = true ↔ IsTopicName name := isMatch_defaultPattern_iff
  have hstart : check.startsAsAllowed name = true ↔
      BeginsAsAllowed settings.allowedPrefixes name := startsAsAllowed_iff
  rw [TopicCheck.checkName, Outcome.isValid_ofErrors, Outcome.errors_ofErrors, List.isEmpty_map,
    List.length_map, TopicCheck.problems, List.isEmpty_iff, List.append_eq_nil_iff]
  by_cases hname : IsTopicName name <;>
    by_cases hbegins : BeginsAsAllowed settings.allowedPrefixes name <;>
    simp [hmatch, hstart, hname, hbegins]

def paymentTopics : TopicSettings := { allowedPrefixes := ["payments.", "billing."] }

/-- A version may stand in between, a name of other topics breaks one condition, and one with an
empty segment and a line break at its end breaks both. -/
theorem topic_names_of_payments :
    paymentTopics.pattern = defaultTopicPattern ∧
      ∃ check, TopicCheck.ofSettings paymentTopics = .ok check ∧
        (check.checkName "billing.v1.v2").isValid = true ∧
        (check.checkName "orders.created.v1").errors.length = 1 ∧
        (check.checkName "orders..v1\n").errors.length = 2 := by
  obtain ⟨check, hcheck, h⟩ := @topic_names_are_exact paymentTopics rfl
  refine ⟨rfl, check, hcheck, (h _).1.2 (by decide), (h _).2.trans (by decide),
    (h _).2.trans (by decide)⟩

end RepoPolicy
