import RepoPolicy.Document.Yaml.Reader
import RepoPolicy.Policy.Codec

set_option autoImplicit false

/-! # Loading policies

Policies are kept in YAML files. -/

namespace RepoPolicy.Policy

open RepoPolicy.Document

/-- The policy that a document describes, with the rules of its preset. -/
def ofDocument (value : Value) : Except PolicyError Policy :=
  match decode value with
  | some policy => policy.resolve
  | none => .error .malformed

def ofYaml (text : String) : Except PolicyError Policy :=
  match Yaml.parse text with
  | some value => ofDocument value
  | none => .error .malformed

/-- Read a policy from the bytes of a file, if there is one. -/
def ofFile (content : Option ByteArray) : Except PolicyError Policy :=
  match content.bind String.fromUTF8? with
  | some text => ofYaml text
  | none => .error .unreadable

end RepoPolicy.Policy
