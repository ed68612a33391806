/-!
# Built-in functions

How the known commands and functions of the script language are written in
generated code.  Most of them are templates: a dollar sign and a digit stands
for one argument, a dollar sign and a star for all of them.
-/

namespace EventScript

/-- How one function is written in generated code. -/
inductive Builtin where
  /-- A template for at least `least` arguments. -/
  | template (least : Nat) (text : String)
  /-- A template whose first argument names a variable. -/
  | variableTemplate (least : Nat) (text : String)
  /-- A template with tile coordinates at two positions. -/
  | placement (least x y : Nat) (text : String)
  /-- A call of a helper. -/
  | helper (least : Nat) (name : String)
  /-- Set a flag and run the dispatcher again if it was not set. -/
  | setFlag
  /-- Clear a flag. -/
  | clearFlag
  /-- Set the property that a code names, of a given owner. -/
  | setProperty (owner : String)
  /-- Compare what a player says. -/
  | chatTest
  /-- Place an enemy whose kind is a name or a number. -/
  | placeBaddy (least : Nat)
  deriving DecidableEq, Repr

namespace Builtin

/-- How the script object and the player look, and what blocks. -/
def appearance : List (String × Builtin) :=
  [("setimg", template 1 "this.image = $0"),
    ("setgif", template 1 "this.image = $0"),
    ("setimgpart", template 5 "this.setImgPart($*)"),
    ("setcharprop", setProperty "this"),
    ("setplayerprop", setProperty "player"),
    ("setcharani", template 1 "this.setAni($*)"),
    ("setani", template 1 "this.setAni($*)"),
    ("setshape", template 3 "this.setShape($*)"),
    ("setcoloreffect", template 4 "this.setColorEffect($*)"),
    ("setzoomeffect", template 1 "this.zoom = $0"),
    ("sethead", template 1 "player.head = $0"),
    ("setbody", template 1 "player.body = $0"),
    ("setsword", template 2 "player.setSword($0, $1)"),
    ("setshield", template 2 "player.setShield($0, $1)"),
    ("show", template 0 "this.show()"),
    ("hide", template 0 "this.hide()"),
    ("destroy", template 0 "this.destroy()"),
    ("dontblock", template 0 "this.dontBlock()"),
    ("blockagain", template 0 "this.blockAgain()"),
    ("drawoverplayer", template 0 "this.drawOverPlayer()"),
    ("drawunderplayer", template 0 "this.drawUnderPlayer()"),
    ("canbecarried", template 0 "this.canBeCarried()"),
    ("canbepushed", template 0 "this.canBePushed()"),
    ("canbepulled", template 0 "this.canBePulled()"),
    ("timereverywhere", template 0 "this.timerEverywhere()")]

/-- Messages, sound, pictures and logs. -/
def messages : List (String × Builtin) :=
  [("message", template 1 "this.say($0)"),
    ("say", template 1 "this.level.showSign(player, $0)"),
    ("say2", template 1 "player.showText($0)"),
    ("play", template 1 "this.play($0)"),
    ("play2", template 4 "this.play2($*)"),
    ("playlooped", template 1 "this.playLooped($0)"),
    ("stopsound", template 1 "this.stopSound($0)"),
    ("sendtonc", template 1 "sendToNC($0)"),
    ("sendtorc", template 1 "sendToRC($0)"),
    ("savelog", template 1 "saveLog($0)"),
    ("openurl", template 1 "player.openUrl($0)"),
    ("showimg", template 4 "this.showImg($*)"),
    ("hideimg", template 1 "this.hideImg($0)"),
    ("showtext", template 6 "this.showText($*)")]

/-- Flags, strings, lists of strings and chat. -/
def strings : List (String × Builtin) :=
  [("set", setFlag),
    ("unset", clearFlag),
    ("setstring", variableTemplate 2 "$0 = $1"),
    ("addstring", variableTemplate 2 "$0.add($1)"),
    ("deletestring", variableTemplate 2 "$0.delete($1)"),
    ("insertstring", variableTemplate 3 "$0.insert($1, $2)"),
    ("replacestring", variableTemplate 3 "$0[$1] = $2"),
    ("removestring", variableTemplate 2 "$0.remove($1)"),
    ("setarray", variableTemplate 2 "$0 = array($1)"),
    ("tokenize", template 1 "this.tokens = $0.tokenize()"),
    ("tokenize2", template 2 "this.tokens = $0.tokenize($1)"),
    ("strlen", template 1 "$0.length"),
    ("strequals", template 2 "($0 == $1)"),
    ("startswith", template 2 "$1.starts($0)"),
    ("substring", template 3 "substring($0, $1, $2)"),
    ("playersays", chatTest)]

/-- Placing and finding things at tile coordinates. -/
def worldFunctions : List (String × Builtin) :=
  [("putnpc", placement 4 2 3 "this.level.putNPC($2, $3, $1, $0)"),
    ("putnpc2", placement 3 0 1 "this.level.putNPC($0, $1, $2)"),
    ("putbomb", placement 3 1 2 "this.level.putBomb($1, $2, $0)"),
    ("putexplosion", placement 3 1 2 "this.level.putExplosion($1, $2, $0)"),
    ("putleaps", placement 3 1 2 "this.level.putLeaps($1, $2, $0)"),
    ("putcomp", placeBaddy 3),
    ("putcomp2", placeBaddy 5),
    ("lay", template 1 "this.level.putItem(this.x, this.y, $0)"),
    ("lay2", placement 3 1 2 "this.level.putItem($1, $2, $0)"),
    ("triggeraction", placement 3 0 1 "this.level.triggerAction($*)"),
    ("testnpc", placement 2 0 1 "this.level.npcAt($0, $1)"),
    ("onwall", placement 2 0 1 "this.level.onWall($0, $1)"),
    ("updateboard", placement 4 0 1 "this.level.updateBoard($*)"),
    ("setfocus", placement 2 0 1 "setFocus($0, $1)"),
    ("move", template 3 "this.move($*)"),
    ("shoot", template 6 "this.shoot($*)"),
    ("callnpc", template 2 "this.level.npcs[$0].trigger($1)"),
    ("callweapon", template 2 "player.weapons[$0].trigger($1)")]

/-- Commands on the player. -/
def players : List (String × Builtin) :=
  [("hurt", template 1 "this.hurtPlayer(player, $0)"),
    ("setlevel", template 1 "player.setLevel($0)"),
    ("setlevel2", template 3 "player.setLevel2($0, $1, $2)"),
    ("serverwarp", template 1 "player.serverWarp($0)"),
    ("addweapon", template 1 "player.addWeapon($0)"),
    ("removeweapon", template 1 "player.removeWeapon($0)"),
    ("hasweapon", template 1 "player.hasWeapon($0)"),
    ("toweapons", template 1 "this.toWeapons($0)"),
    ("join", template 1 "this.join($0)"),
    ("carryobject", template 1 "player.carry($0)"),
    ("throwcarry", template 0 "player.throwCarry()"),
    ("freezeplayer", template 1 "player.freeze($0)"),
    ("disableweapons", template 0 "player.disableWeapons()"),
    ("enableweapons", template 0 "player.enableWeapons()"),
    ("disabledefmovement", template 0 "player.disableMovement()"),
    ("enabledefmovement", template 0 "player.enableMovement()"),
    ("keydown", template 1 "keyDown($0)"),
    ("sleep", template 1 "sleep($0)")]

/-- Mathematics. -/
def mathematics : List (String × Builtin) :=
  [("abs", template 1 "abs($0)"),
    ("sin", template 1 "sin($0)"),
    ("cos", template 1 "cos($0)"),
    ("arctan", template 1 "atan($0)"),
    ("log", template 2 "log($0, $1)"),
    ("exp", template 1 "exp($0)"),
    ("int", template 1 "int($0)"),
    ("min", template 2 "min($0, $1)"),
    ("max", template 2 "max($0, $1)"),
    ("random", template 2 "random($0, $1)"),
    ("getangle", helper 2 "_getAngle"),
    ("getdir", helper 2 "_getDir"),
    ("vecx", helper 1 "_vecX"),
    ("vecy", helper 1 "_vecY")]

/-- Every known function. -/
def table : List (String × Builtin) :=
  appearance ++ messages ++ strings ++ worldFunctions ++ players ++ mathematics

/-- How a function is written. -/
def find? (name : String) : Option Builtin :=
  table.lookup name

end Builtin

/-- The kinds of enemies; their number is their place in this list. -/
def baddyKinds : List String :=
  ["graysoldier", "bluesoldier", "redsoldier", "shootingsoldier", "swampsoldier", "frog",
    "spider", "goldenwarrior", "lizardon", "dragon"]

end EventScript
