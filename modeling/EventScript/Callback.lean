import EventScript.Mention
import EventScript.Section
import EventScript.Text.Lines

/-!
# Callbacks

The functions that make up the generated code around the statements: a callback
per event, the dispatcher that callbacks share, and the prologue that every
callback runs first.  A callback takes the values it uses and finds the player
itself where the event does not bring one.
-/

namespace EventScript

/-- The name of the shared function for conditions on several events. -/
def dispatcherName : String :=
  "_actions"

/-- The name of the shared function that every callback runs first. -/
def prologueName : String :=
  "_onAnyAction"

/-- One line of generated code. -/
def codeLine (depth : Nat) (content : String) : String :=
  String.ofList (Text.line depth content.toList)

/-- A function from its name, its parameters and the lines of its body. -/
def functionCode (name parameters body : String) : String :=
  codeLine 0 ("function " ++ name ++ "(" ++ parameters ++ ") \x7b") ++ body ++ codeLine 0 "\x7d"

/-- One of the two shared functions. -/
def sharedFunction (name body : String) : String :=
  functionCode name "_actionName, player, npc, text" body

/-- The body of the callback of one event. -/
structure EventBody where
  action : Action
  /-- The code for the statements of the event. -/
  body : String := ""
  /-- Whether the body calls the dispatcher. -/
  forwards : Bool := false
  deriving DecidableEq, Repr

namespace EventBody

/-- Whether a value of the event is used: by the prologue, which is given all of
them, or by name in the body. -/
def uses (event : EventBody) (prologue : String) (role : Role) : Bool :=
  !prologue.isEmpty || mentions event.body role.name

/-- The parameters of the callback: the values of the event up to the last one
that is used. -/
def parameters (event : EventBody) (prologue : String) : List Role :=
  (event.action.roles.reverse.dropWhile fun role => !event.uses prologue role).reverse

/-- Whether the callback has to find the player itself. -/
def findsPlayer (event : EventBody) (prologue : String) : Bool :=
  !event.action.has .player &&
    (mentions event.body Role.player.name || mentions prologue Role.player.name)

/-- Where the callback of an event finds the player. -/
def playerSource (options : Options) (action : Action) : String :=
  if options.clientSide then "getLocalPlayer()"
  else if action.ofWeapon then "this.player"
  else options.playerList.accessor ++ "[0]"

/-- The lines that find the player.  A timer without players waits. -/
def playerLines (options : Options) (action : Action) : List String :=
  ("var player = " ++ playerSource options action ++ ";") ::
    if action.name == "timeout" then
      ["if (player == null) \x7b", "  this.timeout = 0.05;", "  return;", "\x7d"]
    else []

/-- The line that runs the prologue. -/
def prologueCall (event : EventBody) (prologue : String) : String :=
  let place := Section.event event.action
  let player :=
    if event.action.has .player || event.findsPlayer prologue then Role.player.name else "null"
  "this." ++ prologueName ++ "(\"" ++ event.action.name ++ "\", " ++ player ++ ", " ++
    place.roleArgument .npc ++ ", " ++ place.roleArgument .chatText ++ ");"

/-- The callback of an event. -/
def callback (options : Options) (prologue : String) (event : EventBody) : String :=
  let found :=
    if event.findsPlayer prologue then playerLines options event.action else []
  let run := if prologue.isEmpty then [] else [event.prologueCall prologue]
  let parameters := ", ".intercalate ((event.parameters prologue).map Role.name)
  functionCode event.action.callback parameters
    (String.join ((found ++ run).map (codeLine 1)) ++ event.body)

/-- Call the dispatcher from the body, once. -/
def forward (event : EventBody) : EventBody :=
  if event.forwards then event
  else
    { event with
      body := event.body ++ codeLine 1 (Section.event event.action).dispatchCall
      forwards := true }

end EventBody

end EventScript
