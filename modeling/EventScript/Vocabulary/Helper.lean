import EventScript.Vocabulary.Alias

/-!
# Helper functions

Functions that generated code calls and that are appended to it when it does.
-/

namespace EventScript

/-- A function that is appended to generated code on demand. -/
structure Helper where
  name : String
  parameters : String
  /-- The lines of the body; they may hold the mark for the player list. -/
  body : List String
  deriving DecidableEq, Repr

namespace Helper

/-- From pixels to tiles, relative to the level or in the world. -/
def tileHelpers : List Helper :=
  [⟨"localTileX", "px", ["return (px - this.level.x)/16;"]⟩,
    ⟨"localTileY", "px", ["return (px - this.level.y)/16;"]⟩,
    ⟨"tileX", "px", ["return px/16;"]⟩,
    ⟨"tileY", "px", ["return px/16;"]⟩]

/-- The object that a property code addresses by a number. -/
def propertyOwner : Helper :=
  { name := "_propOwner"
    parameters := "index, player"
    body :=
      ["if (index == -1) \x7b", "  return this;", "\x7d", "if (index == 0) \x7b",
        "  return player;", "\x7d", "return #players#[index];"] }

/-- Angles, directions and the vectors of directions. -/
def directionHelpers : List Helper :=
  [⟨"_getAngle", "dx, dy",
      ["var angle = atan2(0 - dy, dx);", "if (angle < 0) \x7b", "  angle += 6.28318530717959;",
        "\x7d", "return angle;"]⟩,
    ⟨"_getDir", "dx, dy",
      ["if (abs(dx) > abs(dy)) \x7b", "  return if(dx > 0, 3, 1);", "\x7d",
        "return if(dy > 0, 2, 0);"]⟩,
    ⟨"_vecX", "dir", ["return [0, -1, 0, 1][mod(dir, 4)];"]⟩,
    ⟨"_vecY", "dir", ["return [-1, 0, 1, 0][mod(dir, 4)];"]⟩]

/-- Every helper. -/
def table : List Helper :=
  tileHelpers ++ propertyOwner :: directionHelpers

/-- The helper with a given name. -/
def find? (name : String) : Option Helper :=
  table.find? fun helper => helper.name == name

/-- The helper as a complete function, with its marks. -/
def source (helper : Helper) : String :=
  "function " ++ helper.name ++ "(" ++ helper.parameters ++ ") \x7b\n" ++
    String.join (helper.body.map fun line => "  " ++ line ++ "\n") ++ "\x7d\n"

end Helper

/-- The complete function of a helper in a conversion. -/
def Options.helperSource (options : Options) (name : String) : Option String :=
  (Helper.find? name).map fun helper => options.fillPlayers helper.source

end EventScript
