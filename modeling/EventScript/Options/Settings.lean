import EventScript.Mode
import EventScript.Text.Lines

/-!
# Options in lines of text

Each line may set one option: a key, an equals sign and a word for a truth
value, in any case of letters and with blanks around them.  Later lines win.
Comments, other keys and other values have no effect.
-/

namespace EventScript

/-- A line that sets an option. -/
inductive Setting where
  | clientSide (value : Bool)
  /-- Whether coordinates are relative to the level. -/
  | levelCoordinates (value : Bool)
  /-- Whether the player list is that of the level. -/
  | levelPlayers (value : Bool)
  deriving DecidableEq, Repr

namespace Setting

/-- A word without the blanks around it and in lower case. -/
def word (text : List Char) : String :=
  String.ofList ((Text.trimChars text).map Char.toLower)

/-- The truth value of a word. -/
def truth? : String → Option Bool
  | "true" => some true
  | "yes" => some true
  | "on" => some true
  | "1" => some true
  | "false" => some false
  | "no" => some false
  | "off" => some false
  | "0" => some false
  | _ => none

/-- The setting of a key. -/
def ofKey? (key : String) (value : Bool) : Option Setting :=
  match key with
  | "clientside" => some (clientSide value)
  | "localcoordinates" => some (levelCoordinates value)
  | "localplayerlist" => some (levelPlayers value)
  | _ => none

/-- The setting of a line.  A line that begins with a number sign is a
comment. -/
def ofLine? (line : List Char) : Option Setting :=
  let content := Text.trimChars line
  match content.span fun character => character != '=' with
  | (key, '=' :: value) =>
    if content.head? == some '#' then none
    else (truth? (word value)).bind (ofKey? (word key))
  | _ => none

/-- Set an option. -/
def apply (options : Options) : Setting → Options
  | clientSide value => { options with clientSide := value }
  | levelCoordinates value =>
    { options with coordinates := if value then .inLevel else .inWorld }
  | levelPlayers value => { options with playerList := if value then .level else .server }

end Setting

namespace Options

/-- The settings of a text, in order. -/
def settings (text : String) : List Setting :=
  (Text.lines text.toList).filterMap Setting.ofLine?

/-- Options from lines of text. -/
def ofText (text : String) : Options :=
  (settings text).foldl Setting.apply {}

end Options

end EventScript
