set_option autoImplicit false

/-! # Paths of modules

Modules have dotted paths. A module lies below another one whose path is the beginning of its own,
segment by segment. -/

namespace RepoPolicy

def dropTrailingDots (path : List Char) : List Char := (path.reverse.dropWhile (· == '.')).reverse

/-- Whether a module is the one that a prefix names, or lies below it. Dots at the end of the prefix
do not count. -/
def liesBelow (module above : String) : Bool :=
  let path := module.toList
  let start := dropTrailingDots above.toList
  path == start || (start.isPrefixOf path && (path.drop start.length).head? == some '.')

/-- The choice between the best item so far and the next one: the longer text wins, and of two
texts of one length the later. -/
def chooseLonger {α : Type} (best : Option (α × String)) (next : α × String) :
    Option (α × String) :=
  match best with
  | some (item, text) =>
    if next.2.utf8ByteSize < text.utf8ByteSize then some (item, text) else some next
  | none => some next

/-- Of the items with a prefix above a module, the one with the longest prefix. -/
def longestAbove {α : Type} (items : List (α × String)) (module : String) : Option α :=
  ((items.filter fun (_, above) => liesBelow module above).foldl chooseLonger none).map (·.1)

end RepoPolicy
