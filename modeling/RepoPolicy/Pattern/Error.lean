set_option autoImplicit false

/-! # Errors in patterns -/

namespace RepoPolicy

/-- Why a text is not a pattern. -/
inductive PatternError where
  | lookAround
  | backReference
  | unknownEscape
  | loneBackslash
  | malformedCode
  | unknownProperty
  | nothingToRepeat
  | malformedCount
  | reversedCount
  | unclosedClass
  | reversedSpan
  /-- A span between two sets. -/
  | spanOfSets
  /-- A condition in a set. -/
  | conditionInClass
  | unclosedGroup
  | unopenedGroup
  | malformedName
  | repeatedName
  | malformedFlags
  /-- The pattern is too large once its repetitions are written out. -/
  | tooLarge
  deriving DecidableEq, Repr

def PatternError.message : PatternError → String
  | .lookAround => "look-around is not supported"
  | .backReference => "backreferences are not supported"
  | .unknownEscape => "unrecognized escape sequence"
  | .loneBackslash => "incomplete escape sequence"
  | .malformedCode => "invalid character code"
  | .unknownProperty => "unknown character property"
  | .nothingToRepeat => "repetition operator missing expression"
  | .malformedCount => "invalid repetition count"
  | .reversedCount => "repetition count range is reversed"
  | .unclosedClass => "unclosed character class"
  | .reversedSpan => "character range is reversed"
  | .spanOfSets => "a character range is between two characters"
  | .conditionInClass => "invalid escape sequence in a character class"
  | .unclosedGroup => "unclosed group"
  | .unopenedGroup => "unopened group"
  | .malformedName => "invalid group name"
  | .repeatedName => "duplicate group name"
  | .malformedFlags => "invalid flags"
  | .tooLarge => "the pattern is too large"

end RepoPolicy
