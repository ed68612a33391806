import EventScript.Options.Json
import EventScript.Options.Settings

/-!
# Options files

An options file is JSON if its name has the extension `json`, in any case of
letters, and lines of text otherwise.
-/

namespace EventScript

/-- Why options could not be loaded. -/
inductive LoadError where
  /-- There is no such file. -/
  | missing
  /-- The file is not a text in the UTF-8 encoding. -/
  | notText
  /-- The JSON document is malformed or has unfit values. -/
  | malformed
  deriving DecidableEq, Repr

/-- The last component of a path. -/
def fileName (path : List Char) : List Char :=
  (path.reverse.takeWhile fun character => character != '/').reverse

/-- The extension of a file name: what stands behind its last point.  A name
whose only point comes first has none. -/
def extension? (name : List Char) : Option (List Char) :=
  let behind := (name.reverse.takeWhile fun character => character != '.').reverse
  if behind.length + 1 < name.length then some behind else none

/-- Whether the name of a file says that it is JSON. -/
def namesJson (path : String) : Bool :=
  match extension? (fileName path.toList) with
  | some extension => extension.map Char.toLower == "json".toList
  | none => false

/-- The text of a file's contents. -/
def textOf (contents : Option ByteArray) : Except LoadError String :=
  match contents with
  | none => .error .missing
  | some bytes =>
    match String.fromUTF8? bytes with
    | some text => .ok text
    | none => .error .notText

namespace Options

/-- Options from the path and the contents of a file. -/
def load (path : String) (contents : Option ByteArray) : Except LoadError Options :=
  match textOf contents with
  | .error error => .error error
  | .ok text =>
    if namesJson path then
      match ofJson? text with
      | some options => .ok options
      | none => .error .malformed
    else .ok (ofText text)

end Options

end EventScript
