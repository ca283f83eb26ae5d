import RepoPolicy.Finding.Outcome
import RepoPolicy.Inputs.Declaration
import RepoPolicy.Policy.Settings
import RepoPolicy.Policy.Written

set_option autoImplicit false

/-! # Names of topics

The name of a topic matches a pattern and begins in one of the ways that are allowed. -/

namespace RepoPolicy

/-- What is wrong with the name of a topic. -/
inductive TopicProblem where
  | noMatch (pattern : String)
  | otherStart (allowed : List String)
  deriving DecidableEq, Repr

def TopicProblem.message (name : String) : TopicProblem → String
  | .noMatch pattern =>
    "topic '" ++ name ++ "' does not match naming pattern '" ++ pattern ++ "'"
  | .otherStart allowed =>
    "topic '" ++ name ++ "' does not start with an allowed prefix (" ++
      ", ".intercalate allowed ++ ")"

structure TopicCheck where
  settings : TopicSettings
  pattern : WrittenPattern
  deriving DecidableEq, Repr

namespace TopicCheck

def ofSettings (settings : TopicSettings) : Except PolicyError TopicCheck := do
  return { settings, pattern := ← WrittenPattern.read .topicNaming settings.pattern }

def startsAsAllowed (check : TopicCheck) (name : String) : Bool :=
  check.settings.allowedPrefixes.isEmpty ||
    check.settings.allowedPrefixes.any fun start => start.toList.isPrefixOf name.toList

def problems (check : TopicCheck) (name : String) : List TopicProblem :=
  (if check.pattern.isMatch name then [] else [.noMatch check.pattern.text]) ++
    (if check.startsAsAllowed name then [] else [.otherStart check.settings.allowedPrefixes])

def checkName (check : TopicCheck) (name : String) : Outcome :=
  Outcome.ofErrors name ((check.problems name).map (TopicProblem.message name))

def findings (check : TopicCheck) (topics : List TopicDeclaration) : List LocatedOutcome :=
  (topics.map fun topic => ⟨topic.filePath, topic.name, check.checkName topic.name⟩).filter
    fun located => !located.outcome.isClean

end TopicCheck

end RepoPolicy
