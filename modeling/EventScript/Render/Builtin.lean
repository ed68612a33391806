import EventScript.Emission
import EventScript.Expr
import EventScript.Section
import EventScript.Segment
import EventScript.Vocabulary.Builtin
import EventScript.Vocabulary.Alias

/-!
# Calls of built-in functions

The code for a call of a known function, from its arguments and the code for
them.  A function that cannot be called with the given arguments declines, and
declining has no effects.
-/

namespace EventScript

/-- An argument of a call and the code for it. -/
structure Argument where
  expr : Expr
  code : Emission String

/-- The code for arguments between commas. -/
def joinArguments (arguments : List String) : String :=
  ", ".intercalate arguments

/-- Put arguments into a template. -/
def fillTemplate (arguments : List String) : List Char → List Char
  | [] => []
  | '$' :: '*' :: rest => (joinArguments arguments).toList ++ fillTemplate arguments rest
  | '$' :: digit :: rest =>
    if digit.isDigit then
      (arguments[digit.toNat - '0'.toNat]?.getD "").toList ++ fillTemplate arguments rest
    else '$' :: fillTemplate arguments (digit :: rest)
  | character :: rest => character :: fillTemplate arguments rest

/-- Put arguments into a template. -/
def fill (template : String) (arguments : List String) : String :=
  String.ofList (fillTemplate arguments template.toList)

/-- A variable by its name: a member of the script object unless the name is a
chain or a root. -/
def qualify (name : String) : String :=
  if name.toList.contains '.' || isRoot name then name else "this." ++ name

namespace Argument

/-- An argument that names a variable.  A text is the name itself. -/
def asVariable (argument : Argument) : Emission String :=
  match argument.expr with
  | .text name => pure (qualify (Text.trim name))
  | _ => argument.code

/-- The number of the kind of enemy that an argument names, in any case of
letters. -/
def baddyNumber? (argument : Argument) : Option Nat :=
  let numberOf (name : String) : Option Nat :=
    let wanted := (Text.trimChars name.toList).map Char.toLower
    baddyKinds.findIdx? fun kind => kind.toList == wanted
  match argument.expr with
  | .name spelling => numberOf spelling
  | .text value => numberOf value
  | _ => none

/-- The kind of an enemy, by its number if the argument is a known name. -/
def asBaddyKind (argument : Argument) : Emission String :=
  match argument.baddyNumber? with
  | some number => pure (toString number)
  | none => argument.code

end Argument

/-- The code for several arguments, in order. -/
def codes (arguments : List Argument) : Emission (List String) :=
  Emission.sequence (arguments.map Argument.code)

/-- The property of an owner that a code names.  It must be one code without an
argument. -/
def propertyTarget? (codeText owner : String) : Option String :=
  match segments (Text.trim codeText) with
  | [.code letter slot none] =>
    (slotProperty? letter slot).map fun property => owner ++ "." ++ property
  | _ => none

namespace Builtin

/-- Set a flag, and run the dispatcher again if it was not set. -/
def flagCode (place : Section) (flag : String) : String :=
  "if (!" ++ flag ++ ") \x7b\n  " ++ flag ++ " = true;\n  " ++ place.dispatchCall ++ "\n\x7d"

/-- The code for a call, or nothing if the function declines. -/
def apply (builtin : Builtin) (site : Site) (arguments : List Argument) :
    Option (Emission String) :=
  match builtin, arguments with
  | template least text, _ =>
    if least ≤ arguments.length then
      some do return fill text (← codes arguments)
    else none
  | variableTemplate least text, first :: others =>
    if least ≤ arguments.length then
      some do
        let name ← first.asVariable
        return fill text (name :: (← codes others))
    else none
  | placement least x y text, _ =>
    if least ≤ arguments.length then
      some do
        let coordinates := site.options.coordinates
        let rendered ← codes arguments
        let rendered := rendered.modify x fun code => coordinates.toPixels code .x
        let rendered := rendered.modify y fun code => coordinates.toPixels code .y
        return fill text rendered
    else none
  | helper least name, _ =>
    if least ≤ arguments.length then
      some do
        Emission.requestHelper name
        return "this." ++ name ++ "(" ++ joinArguments (← codes arguments) ++ ")"
    else none
  | setFlag, first :: _ =>
    some do
      let flag ← first.asVariable
      Emission.markDispatcher
      return flagCode site.place flag
  | clearFlag, first :: _ =>
    some do return (← first.asVariable) ++ " = false"
  | setProperty owner, first :: second :: _ =>
    match first.expr with
    | .text code =>
      (propertyTarget? code owner).map fun target => do
        return target ++ " = " ++ (← second.code)
    | _ => none
  | chatTest, first :: _ =>
    some do return site.place.chatTest (← first.code)
  | placeBaddy least, kind :: x :: y :: others =>
    if least ≤ arguments.length then
      some do
        let coordinates := site.options.coordinates
        let kind ← kind.asBaddyKind
        let x ← x.code
        let y ← y.code
        let others ← codes others
        return "this.level.putBaddy(" ++
          joinArguments (coordinates.toPixels x .x :: coordinates.toPixels y .y :: kind :: others)
          ++ ")"
    else none
  | _, _ => none

end Builtin

end EventScript
