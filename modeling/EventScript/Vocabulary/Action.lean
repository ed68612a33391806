/-!
# Actions

The events that a script can test by a flag, with the callback that handles
each of them in generated code and the values the callback is given.
-/

namespace EventScript

/-- What a callback can be given. -/
inductive Role where
  | player
  | npc
  | chatText
  deriving DecidableEq, Repr

/-- The name of a value in generated code. -/
def Role.name : Role → String
  | .player => "player"
  | .npc => "npc"
  | .chatText => "text"

/-- An event and its callback. -/
structure Action where
  /-- The flag that a script tests. -/
  name : String
  /-- The function that handles the event. -/
  callback : String
  /-- What the callback is given, in order. -/
  roles : List Role := []
  /-- Whether a weapon raises the event; its bearer is then the player. -/
  ofWeapon : Bool := false
  deriving DecidableEq, Repr

namespace Action

/-- The event that runs the unconditional statements of a script. -/
def created : Action :=
  { name := "created", callback := "onCreated" }

/-- The event that a player says something. -/
def chat : Action :=
  { name := "playerchats", callback := "onPlayerChats", roles := [.player, .chatText] }

/-- Every event. -/
def table : List Action :=
  [created,
    { name := "playerenters", callback := "onPlayerEntersLevel", roles := [.player] },
    { name := "playerleaves", callback := "onPlayerLeavesLevel", roles := [.player] },
    { name := "playertouchsme", callback := "onPlayerTouchsMe", roles := [.player] },
    { name := "playertouchsother", callback := "onPlayerTouchsOther", roles := [.player, .npc] },
    chat,
    { name := "playerpushes", callback := "onPlayerPushes", roles := [.player] },
    { name := "playerhurt", callback := "onPlayerHurt", roles := [.player] },
    { name := "playerdies", callback := "onPlayerDies", roles := [.player] },
    { name := "playerlaysitem", callback := "onPlayerLaysItem", roles := [.player] },
    { name := "playerendsreading", callback := "onPlayerEndsReading", roles := [.player] },
    { name := "playerlogin", callback := "onPlayerLogin", roles := [.player] },
    { name := "playerfires", callback := "onPlayerFires", roles := [.player] },
    { name := "wasshot", callback := "onWasShot", roles := [.player] },
    { name := "washit", callback := "onWasHit", roles := [.player] },
    { name := "wasthrown", callback := "onWasThrown", roles := [.player] },
    { name := "mousedown", callback := "onMouseDown", roles := [.player] },
    { name := "keypressed", callback := "onKeyPressed", roles := [.player] },
    { name := "actionserverside", callback := "onActionServerSide", roles := [.player] },
    { name := "timeout", callback := "onTimeout" },
    { name := "exploded", callback := "onExploded" },
    { name := "npcwarped", callback := "onNPCWarped" },
    { name := "weaponfired", callback := "onWeaponFired", ofWeapon := true }]

/-- The event with a given flag. -/
def find? (name : String) : Option Action :=
  table.find? fun action => action.name == name

/-- Whether the callback is given a value. -/
def has (action : Action) (role : Role) : Bool :=
  action.roles.contains role

end Action

end EventScript
