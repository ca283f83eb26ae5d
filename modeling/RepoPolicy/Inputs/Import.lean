set_option autoImplicit false

/-! # Imports

An import edge says that a file of a repository imports a module. -/

namespace RepoPolicy

structure ImportEdge where
  /-- The repository of the importing file. -/
  repo : String
  filePath : String
  /-- The dotted path of the imported module. -/
  module : String
  /-- The dotted path of the importing module, when it is known. -/
  sourceModule : Option String := none
  line : Option Nat := none
  deriving DecidableEq, Repr

/-- The path without any `./` it begins with. -/
def dropCurrentDir : List Char → List Char
  | '.' :: '/' :: rest => dropCurrentDir rest
  | path => path

/-- The path without its extension. What follows the last dot is one, unless a slash comes later or
the dot begins the name of the file. -/
def dropExtension (path : List Char) : List Char :=
  let reversed := path.reverse
  match reversed.dropWhile (· != '.') with
  | _ :: stem =>
    let extension := reversed.takeWhile (· != '.')
    if extension.contains '/' || stem.isEmpty || stem.head? == some '/' then path
    else stem.reverse
  | [] => path

/-- The dotted path of the importing module. Unless it is given it is read off the path of the file:
`./src/billing/api/handler.py` is `src.billing.api.handler`. -/
def ImportEdge.importerModule (edge : ImportEdge) : String :=
  match edge.sourceModule with
  | some module => module
  | none =>
    let stem := dropExtension (dropCurrentDir edge.filePath.toList)
    String.ofList (stem.map fun c => if c == '/' || c == '\\' then '.' else c)

end RepoPolicy
