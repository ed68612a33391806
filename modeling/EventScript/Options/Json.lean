import EventScript.JsonValue
import EventScript.Mode

/-!
# Options in JSON

Options are an object with the members `client_side`, `coordinates` and
`player_list`, or an array of their values in this order.  What is missing has
its default; members with other names do not matter, but a known one must not
be repeated.  A mode is its name, alone or as an object whose only member is
null.
-/

namespace EventScript

namespace JsonValue

/-- The truth value of a document. -/
def bool? : JsonValue → Option Bool
  | bool value => some value
  | _ => none

/-- The name of a mode. -/
def modeName? : JsonValue → Option String
  | text value => value
  | object [(name, null)] => name
  | _ => none

/-- The mode of coordinates of a document. -/
def coordinateMode? (value : JsonValue) : Option CoordinateMode :=
  match value.modeName? with
  | some "local" => some .inLevel
  | some "global" => some .inWorld
  | _ => none

/-- The mode of the player list of a document. -/
def playerListMode? (value : JsonValue) : Option PlayerListMode :=
  match value.modeName? with
  | some "level" => some .level
  | some "server" => some .server
  | _ => none

end JsonValue

namespace Options

/-- A field from its value, or the default if there is none. -/
def fieldOr {α : Type} (default : α) (read : JsonValue → Option α) : Option JsonValue → Option α
  | some value => read value
  | none => some default

/-- Options from the values of their fields. -/
def ofFields? (clientSide coordinates playerList : Option JsonValue) : Option Options := do
  let defaults : Options := {}
  let clientSide ← fieldOr defaults.clientSide JsonValue.bool? clientSide
  let coordinates ← fieldOr defaults.coordinates JsonValue.coordinateMode? coordinates
  let playerList ← fieldOr defaults.playerList JsonValue.playerListMode? playerList
  return ⟨clientSide, coordinates, playerList⟩

/-- The value of a member that may be missing; nothing if it is repeated. -/
def member? (members : List (Option String × JsonValue)) (name : String) :
    Option (Option JsonValue) :=
  match members.filter fun entry => entry.1 == some name with
  | [] => some none
  | [entry] => some (some entry.2)
  | _ => none

/-- Options from a document. -/
def ofJsonValue? : JsonValue → Option Options
  | .array [] => ofFields? none none none
  | .array [clientSide] => ofFields? (some clientSide) none none
  | .array [clientSide, coordinates] => ofFields? (some clientSide) (some coordinates) none
  | .array [clientSide, coordinates, playerList] =>
    ofFields? (some clientSide) (some coordinates) (some playerList)
  | .object members =>
    if members.all fun entry => entry.1.isSome then do
      let clientSide ← member? members "client_side"
      let coordinates ← member? members "coordinates"
      let playerList ← member? members "player_list"
      ofFields? clientSide coordinates playerList
    else none
  | _ => none

/-- Options from the text of a document. -/
def ofJson? (document : String) : Option Options :=
  (JsonValue.parse? document).bind ofJsonValue?

end Options

end EventScript
