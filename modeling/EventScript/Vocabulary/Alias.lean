import EventScript.Mode
import EventScript.Text.Search

/-!
# Names with a meaning of their own

Some names of the script language stand for expressions of generated code.
Their replacements may hold marks for the parts that depend on the modes of a
conversion, and `Options.substitute` fills those in.  Other names are roots:
they are complete as they stand.
-/

namespace EventScript

/-- A name and what it stands for. -/
structure Alias where
  name : String
  /-- Whether the replacement is a member of the script object. -/
  ofSelf : Bool
  replacement : String
  deriving DecidableEq, Repr

namespace Alias

/-- Properties of the script object. -/
def ownProperties : List Alias :=
  [⟨"x", true, "gx"⟩,
    ⟨"y", true, "gy"⟩,
    ⟨"hearts", true, "hp"⟩,
    ⟨"isweapon", true, "isWeapon"⟩,
    ⟨"tokenscount", true, "tokens.size"⟩,
    ⟨"mousex", true, "#x#(player.mouseX)"⟩,
    ⟨"mousey", true, "#y#(player.mouseY)"⟩]

/-- Properties of the player. -/
def playerProperties : List Alias :=
  [⟨"playerx", false, "player.gx"⟩,
    ⟨"playery", false, "player.gy"⟩,
    ⟨"playerdir", false, "player.dir"⟩,
    ⟨"playersprite", false, "player.sprite"⟩,
    ⟨"playerhearts", false, "player.hp"⟩,
    ⟨"playerfullhearts", false, "player.maxhp"⟩,
    ⟨"playerrupees", false, "player.rupees"⟩,
    ⟨"playerbombs", false, "player.bombs"⟩,
    ⟨"playerdarts", false, "player.arrows"⟩,
    ⟨"playerswordpower", false, "player.swordPower"⟩,
    ⟨"playershieldpower", false, "player.shieldPower"⟩,
    ⟨"playerglovepower", false, "player.glovePower"⟩,
    ⟨"playerap", false, "player.ap"⟩,
    ⟨"playermp", false, "player.mp"⟩,
    ⟨"playerid", false, "player.id"⟩,
    ⟨"playeraccount", false, "player.account"⟩,
    ⟨"setplayerdir", false, "player.setDir"⟩]

/-- The level, the players, and constants and clocks. -/
def worldProperties : List Alias :=
  [⟨"players", false, "#players#"⟩,
    ⟨"playerscount", false, "#players#.size"⟩,
    ⟨"npcscount", false, "this.level.npcs.size"⟩,
    ⟨"compuscount", false, "this.level.baddies.size"⟩,
    ⟨"tiles", false, "this.level.tiles"⟩,
    ⟨"board", false, "this.level.tiles"⟩,
    ⟨"pi", false, "3.14159265358979"⟩,
    ⟨"timevar", false, "int(getTime() * 2)"⟩,
    ⟨"timevar2", false, "getTime()"⟩]

/-- Every name that stands for something. -/
def table : List Alias :=
  ownProperties ++ playerProperties ++ worldProperties

/-- What a name stands for. -/
def find? (name : String) : Option Alias :=
  table.find? fun entry => entry.name == name

end Alias

/-- Names that are complete as they stand. -/
def rootNames : List String :=
  ["this", "player", "server", "serverr", "client", "clientr", "level", "npc", "text", "true",
    "false", "null"]

/-- Whether a name is complete as it stands. -/
def isRoot (name : String) : Bool :=
  rootNames.contains name

/-- The mark for the player list. -/
def playersMark : String :=
  "#players#"

/-- The mark for the helper that turns pixels into tiles. -/
def Axis.mark : Axis → String
  | .x => "#x#"
  | .y => "#y#"

namespace Options

/-- The player list in generated code. -/
def players (options : Options) : String :=
  options.playerList.accessor

/-- Fill in the mark for the player list. -/
def fillPlayers (options : Options) (text : String) : String :=
  Text.replace playersMark options.players text

/-- Fill in the mark of one axis; the helper is called if the mark occurs. -/
def fillAxis (options : Options) (axis : Axis) (text : String) : String × List String :=
  if Text.contains text axis.mark then
    let helper := options.coordinates.tileHelper axis
    (Text.replace axis.mark helper text, [helper])
  else (text, [])

/-- Fill in every mark.  The helpers that the text then calls come along, first
the one for the horizontal axis. -/
def substitute (options : Options) (text : String) : String × List String :=
  let (text, horizontal) := options.fillAxis .x (options.fillPlayers text)
  let (text, vertical) := options.fillAxis .y text
  (text, horizontal ++ vertical)

end Options

end EventScript
