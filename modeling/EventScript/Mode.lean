import EventScript.Decimal.Read
import EventScript.Decimal.Shortest
import EventScript.Text.Blank

/-!
# Modes of a conversion

Scripts count in tiles, generated code in pixels; and "all players" may mean
those of one level or of the whole server.  Two modes decide how generated code
bridges that, and the options of a conversion name the modes and the side the
code runs on.
-/

namespace EventScript

/-- A coordinate axis. -/
inductive Axis where
  | x
  | y
  deriving DecidableEq, Repr

/-- What tile coordinates are relative to. -/
inductive CoordinateMode where
  /-- The level that holds the script. -/
  | inLevel
  /-- The world. -/
  | inWorld
  deriving DecidableEq, Repr

/-- Whom "all players" means. -/
inductive PlayerListMode where
  /-- The players of the level. -/
  | level
  /-- The players of the server. -/
  | server
  deriving DecidableEq, Repr

/-- The options of one conversion. -/
structure Options where
  /-- Whether the code runs on the client. -/
  clientSide : Bool := false
  coordinates : CoordinateMode := .inLevel
  playerList : PlayerListMode := .level
  deriving DecidableEq, Repr

/-- The pixels of one tile. -/
def tileSize : Nat :=
  16

/-- The place of the level's origin in generated code. -/
def Axis.origin : Axis → String
  | .x => "this.level.x"
  | .y => "this.level.y"

/-- The player list in generated code. -/
def PlayerListMode.accessor : PlayerListMode → String
  | .level => "this.level.players"
  | .server => "players"

/-- Whether generated code is one word of letters, digits, underscores and
points, which binds as tightly as a name. -/
def isAtom (code : String) : Bool :=
  !code.isEmpty && code.toList.all fun character =>
    character.isAlphanum || character == '_' || character == '.'

namespace CoordinateMode

/-- The helper that turns pixels into tiles. -/
def tileHelper : CoordinateMode → Axis → String
  | .inLevel, .x => "localTileX"
  | .inLevel, .y => "localTileY"
  | .inWorld, .x => "tileX"
  | .inWorld, .y => "tileY"

/-- Generated code that scales a coordinate from tiles to pixels.  A plain
number is multiplied out. -/
def scaled (code : String) : String :=
  match Decimal.read? (Text.trim code) with
  | some value => (value.scale tileSize).text
  | none =>
    if isAtom code then code ++ "*" ++ toString tileSize
    else "(" ++ code ++ ")*" ++ toString tileSize

/-- Generated code for the pixel position of a tile coordinate. -/
def toPixels (mode : CoordinateMode) (code : String) (axis : Axis) : String :=
  match mode with
  | .inLevel => scaled code ++ " + " ++ axis.origin
  | .inWorld => scaled code

end CoordinateMode

end EventScript
