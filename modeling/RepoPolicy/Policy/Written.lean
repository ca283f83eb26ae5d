import RepoPolicy.Pattern.Reader
import RepoPolicy.Policy.Error

set_option autoImplicit false

/-! # Patterns in policies -/

namespace RepoPolicy

structure WrittenPattern where
  text : String
  pattern : Pattern
  deriving DecidableEq, Repr

namespace WrittenPattern

def read (rule : Rule) (text : String) : Except PolicyError WrittenPattern :=
  match Pattern.read text with
  | .ok pattern => .ok ⟨text, pattern⟩
  | .error cause => .error (.invalidPattern rule text cause)

def readAll (rule : Rule) (texts : List String) : Except PolicyError (List WrittenPattern) :=
  texts.mapM (read rule)

def isMatch (written : WrittenPattern) (text : String) : Bool := written.pattern.isMatch text

end WrittenPattern

end RepoPolicy
