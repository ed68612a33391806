import EventScript.Mode
import EventScript.Vocabulary.Action

/-!
# Sections of the generated code

Statements end up in one of several sections, and some expressions depend on
the section they stand in: a flag of an event is a constant inside a callback
and a comparison in the shared functions.
-/

namespace EventScript

/-- A section of the generated code. -/
inductive Section where
  /-- Declared functions. -/
  | global
  /-- Statements that run once, on creation. -/
  | create
  /-- The callback of an event. -/
  | event (action : Action)
  /-- The function that callbacks of several events share. -/
  | dispatcher
  /-- The function that every callback runs first. -/
  | prologue
  deriving DecidableEq, Repr

namespace Section

/-- The name of the event being handled, in generated code. -/
def actionName : Section → String
  | event action => "\"" ++ action.name ++ "\""
  | dispatcher => "_actionName"
  | prologue => "_actionName"
  | create => "\"created\""
  | global => "\"\""

/-- Whether a section knows a value of the event being handled. -/
def knows (place : Section) (role : Role) : Bool :=
  match place with
  | event action => role == .player || action.has role
  | dispatcher => true
  | prologue => true
  | create => role == .player
  | global => role == .player

/-- A value of the event being handled, in generated code. -/
def roleArgument (place : Section) (role : Role) : String :=
  if place.knows role then role.name else "null"

/-- The flag of an event as a condition. -/
def actionTest (place : Section) (action : Action) : String :=
  match place with
  | event current => if current.name == action.name then "true" else "false"
  | dispatcher => "_actionName == \"" ++ action.name ++ "\""
  | prologue => "_actionName == \"" ++ action.name ++ "\""
  | _ => "false"

/-- What a player says, as a condition; `said` is the text compared with. -/
def chatTest (place : Section) (said : String) : String :=
  match place with
  | event current => if current.name == Action.chat.name then "text == " ++ said else "false"
  | dispatcher =>
    "(_actionName == \"" ++ Action.chat.name ++ "\" && text == " ++ said ++ ")"
  | prologue =>
    "(_actionName == \"" ++ Action.chat.name ++ "\" && text == " ++ said ++ ")"
  | _ => "false"

/-- A call of the dispatcher for the event being handled. -/
def dispatchCall (place : Section) : String :=
  "this._actions(" ++ place.actionName ++ ", " ++ place.roleArgument .player ++ ", " ++
    place.roleArgument .npc ++ ", " ++ place.roleArgument .chatText ++ ");"

end Section

/-- Where code is generated: the options of the conversion and the section. -/
structure Site where
  options : Options
  place : Section

end EventScript
