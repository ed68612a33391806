import EventScript.Callback
import EventScript.Stmt.Parse

/-!
# Running callbacks

What generated code does when an event occurs, as far as conditional commands
go.  A function is found in the text by the line that opens it and read as a
script; its statements are run in order.  Running code performs commands: calls
of methods of the script object or of the player.  A call of the dispatcher runs
the dispatcher with the name of the event that it is given.

Whatever else code may hold is not covered, and running it has no result.
-/

namespace EventScript

/-! ## Functions of generated code -/

/-- The line that opens a function, up to its parameters. -/
def functionOpening (name : String) : List Char :=
  ("function " ++ name ++ "(").toList

/-- The lines between the line that opens a function and the brace that closes
it. -/
def functionLines? (name : String) (lines : List (List Char)) : Option (List (List Char)) :=
  match lines.dropWhile fun line => !(functionOpening name).isPrefixOf line with
  | [] => none
  | _ :: behind => some (behind.takeWhile fun line => line != ['\x7d'])

/-- The body of a function of generated code. -/
def functionBody? (code name : String) : Option String :=
  (functionLines? name (code.toList.splitOn '\n')).map fun lines =>
    String.ofList (lines.flatMap (Text.line 0))

/-- The statements of a function of generated code, if its body can be read. -/
def functionStatements? (code name : String) : Option Script :=
  match (functionBody? code name).map Script.parse with
  | some ⟨statements, []⟩ => some statements
  | _ => none

/-! ## Conditions -/

/-- What conditions of generated code depend on. -/
structure Scene where
  /-- The outcome of each test. -/
  tests : String → Bool
  /-- The event that the dispatcher was called with, inside the dispatcher. -/
  event? : Option String := none

/-- Whether a comparison holds: of the event with a name, or of the player, who
was found, with nothing. -/
def Scene.comparison? (scene : Scene) (left right : Expr) : Option Bool :=
  match left, right with
  | .name compared, .text event =>
    if compared == "_actionName" then scene.event?.map (· == event) else none
  | .name compared, .name value =>
    if compared == Role.player.name && value == "null" then some false else none
  | _, _ => none

/-- Whether a condition of generated code holds. -/
def Scene.truth? (scene : Scene) : Expr → Option Bool
  | .name constant =>
    if constant == "true" then some true
    else if constant == "false" then some false
    else none
  | .dotted [.name owner, .name test] => if owner == "this" then some (scene.tests test) else none
  | .grouped inner => scene.truth? inner
  | .binary .equal left right => scene.comparison? left right
  | .binary .and left right => do
    if ← scene.truth? left then scene.truth? right else return false
  | .binary .or left right => do
    if ← scene.truth? left then return true else scene.truth? right
  | _ => none

/-! ## Statements -/

/-- The commands that a call performs.  The dispatcher is run with the event that
is its first argument. -/
def callCommands? (dispatch : String → Option (List String)) (owner name : String)
    (arguments : List Expr) : Option (List String) :=
  if owner == "this" && name == dispatcherName then
    match arguments with
    | .text event :: _ => dispatch event
    | _ => none
  else if (owner == "this" || owner == Role.player.name) && arguments.isEmpty then some [name]
  else none

mutual

/-- The commands that a statement performs, in order. -/
def Stmt.commands? (scene : Scene) (dispatch : String → Option (List String)) :
    Stmt → Option (List String)
  | .block statements => Stmt.commandsOfAll? scene dispatch statements
  | .branch condition whenTrue none => do
    if ← scene.truth? condition then whenTrue.commands? scene dispatch else return []
  | .expression (.dotted [.name owner, .call name arguments]) =>
    callCommands? dispatch owner name arguments
  -- the declaration of a variable
  | .command name [.binary .assign (.name _) _] => if name == "var" then some [] else none
  | _ => none

/-- The commands that statements perform, in order. -/
def Stmt.commandsOfAll? (scene : Scene) (dispatch : String → Option (List String)) :
    List Stmt → Option (List String)
  | [] => some []
  | first :: others => do
    let performed ← first.commands? scene dispatch
    return performed ++ (← Stmt.commandsOfAll? scene dispatch others)

end

/-! ## Events -/

/-- The commands that the dispatcher performs for an event. -/
def dispatcherCommands? (code : String) (tests : String → Bool) (event : String) :
    Option (List String) := do
  let statements ← functionStatements? code dispatcherName
  Stmt.commandsOfAll? { tests := tests, event? := some event } (fun _ => none) statements

/-- The commands that the callback of an event performs. -/
def callbackCommands? (code : String) (tests : String → Bool) (action : Action) :
    Option (List String) := do
  let statements ← functionStatements? code action.callback
  Stmt.commandsOfAll? { tests := tests } (dispatcherCommands? code tests) statements

end EventScript
