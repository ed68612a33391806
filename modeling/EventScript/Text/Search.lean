/-!
# Searching in texts

Finding and replacing a pattern in a text, always at the leftmost places that
do not overlap.
-/

namespace EventScript.Text

/-- Whether a pattern occurs in a text. -/
def occursIn (pattern : List Char) : List Char → Bool
  | [] => pattern.isEmpty
  | character :: rest =>
    pattern.isPrefixOf (character :: rest) || occursIn pattern rest

/-- Split a text at the first occurrence of a pattern: what stands before it
and what stands behind it. -/
def splitAt? (pattern : List Char) : List Char → Option (List Char × List Char)
  | [] => if pattern.isEmpty then some ([], []) else none
  | character :: rest =>
    if pattern.isPrefixOf (character :: rest) then
      some ([], (character :: rest).drop pattern.length)
    else
      (splitAt? pattern rest).map fun (before, behind) => (character :: before, behind)

/-- Replace the occurrences of a pattern behind the next `skip` characters,
which belong to an occurrence that is replaced already. -/
def replaceFrom (pattern replacement : List Char) : (skip : Nat) → List Char → List Char
  | _, [] => []
  | skip + 1, _ :: rest => replaceFrom pattern replacement skip rest
  | 0, character :: rest =>
    if pattern.isPrefixOf (character :: rest) then
      replacement ++ replaceFrom pattern replacement (pattern.length - 1) rest
    else
      character :: replaceFrom pattern replacement 0 rest

/-- Replace every occurrence of a nonempty pattern. -/
def replace (pattern replacement text : String) : String :=
  String.ofList (replaceFrom pattern.toList replacement.toList 0 text.toList)

/-- Whether a pattern occurs in a string. -/
def contains (text pattern : String) : Bool :=
  occursIn pattern.toList text.toList

/-- Whether a string begins with a pattern. -/
def startsWith (text pattern : String) : Bool :=
  pattern.toList.isPrefixOf text.toList

/-- Whether a string ends with a character. -/
def endsWith (text : String) (character : Char) : Bool :=
  text.toList.getLast? == some character

end EventScript.Text
