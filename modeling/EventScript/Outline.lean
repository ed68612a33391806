import EventScript.Callback
import EventScript.Expr.Actions
import EventScript.Ledger
import EventScript.Render.Stmt
import EventScript.Vocabulary.Helper

/-!
# Laying a script out over sections

A script is one list of statements that all events run through.  The outline
sorts its top-level statements into the sections of the generated code:

* a function declaration is global;
* a branch on a bare flag, without another branch, is the body of that event;
* a branch whose condition tests no event goes to the prologue;
* a branch whose condition tests one event, without another branch, goes to the
  body of that event;
* any other branch goes to the dispatcher, and the events it tests call the
  dispatcher once;
* all other statements run on creation.
-/

namespace EventScript

/-- Where a top-level statement goes. -/
inductive Route where
  | declaration
  /-- The contents of a branch go to the callback of an event. -/
  | contents (action : Action) (body : Stmt)
  /-- The statement goes to the callback of an event. -/
  | guarded (action : Action)
  | prologue
  /-- The statement goes to the dispatcher, which some events call. -/
  | dispatched (actions : List Action)
  | creation

mutual

/-- The statements that a top-level statement stands for: those of a block, and
nothing for an empty statement. -/
def Stmt.flattened : Stmt → List Stmt
  | .block statements => Script.flattened statements
  | .empty => []
  | other => [other]

/-- The top-level statements of a script without blocks around them. -/
def Script.flattened : List Stmt → List Stmt
  | [] => []
  | first :: rest => first.flattened ++ Script.flattened rest

end

/-- Where a branch goes. -/
def branchRoute (condition : Expr) (whenTrue : Stmt) (hasOther : Bool) : Route :=
  match condition.ungrouped.name?.bind Action.find?, hasOther with
  | some action, false => .contents action whenTrue
  | _, _ =>
    match condition.actions, hasOther with
    | [], _ => .prologue
    | [action], false => .guarded action
    | actions, _ => .dispatched actions

/-- Where a statement that is no block goes. -/
def Stmt.route : Stmt → Route
  | .function _ _ => .declaration
  | .branch condition whenTrue otherwise => branchRoute condition whenTrue otherwise.isSome
  | _ => .creation

/-- Change the body of an event, which is added behind the others if it is
new. -/
def updateEvent (action : Action) (change : EventBody → EventBody) :
    List EventBody → List EventBody
  | [] => [change { action := action }]
  | event :: rest =>
    if event.action.name == action.name then change event :: rest
    else event :: updateEvent action change rest

/-- The sections of a script so far. -/
structure Outline where
  options : Options
  /-- Declared functions. -/
  global : String := ""
  /-- The events in the order in which they were first needed. -/
  events : List EventBody := []
  dispatcher : String := ""
  prologue : String := ""
  ledger : Ledger := {}

namespace Outline

/-- The code for a statement in a section, at the depth of that section. -/
def code (outline : Outline) (place : Section) (form : StmtForm) (depth : Nat)
    (statement : Stmt) : Emission String :=
  renderStmt ⟨outline.options, place⟩ form depth statement

/-- Record the effects of code. -/
def recording (outline : Outline) (code : Emission String) : Outline :=
  { outline with ledger := outline.ledger.recordAll code.effects }

/-- Append code to the body of an event. -/
def appendTo (outline : Outline) (action : Action) (code : Emission String) : Outline :=
  { outline.recording code with
    events := updateEvent action (fun event => { event with body := event.body ++ code.value })
      outline.events }

/-- Let an event call the dispatcher. -/
def forward (outline : Outline) (action : Action) : Outline :=
  { outline with
    events := updateEvent action EventBody.forward outline.events
    ledger := outline.ledger.record .dispatcher }

/-- Add a declared function, an empty line apart from the one before. -/
def declare (outline : Outline) (code : Emission String) : Outline :=
  let gap := if outline.global.isEmpty then "" else "\n"
  { outline.recording code with global := outline.global ++ gap ++ code.value }

/-- Add a statement that is no block. -/
def add (outline : Outline) (statement : Stmt) : Outline :=
  match statement.route with
  | .declaration => outline.declare (outline.code .global .plain 0 statement)
  | .contents action body =>
    outline.appendTo action (outline.code (.event action) .contents 1 body)
  | .guarded action => outline.appendTo action (outline.code (.event action) .plain 1 statement)
  | .prologue =>
    let code := outline.code .prologue .plain 1 statement
    { outline.recording code with prologue := outline.prologue ++ code.value }
  | .dispatched actions =>
    let code := outline.code .dispatcher .plain 1 statement
    let outline :=
      { outline.recording code with dispatcher := outline.dispatcher ++ code.value }
    actions.foldl forward outline
  | .creation => outline.appendTo .created (outline.code .create .plain 1 statement)

/-- Add the statements of a script. -/
def addScript (outline : Outline) (script : Script) : Outline :=
  (Script.flattened script).foldl add outline

/-- The events that get a callback.  A prologue needs at least one. -/
def callbacks (outline : Outline) : List EventBody :=
  if outline.events.isEmpty && !outline.prologue.isEmpty then [{ action := .created }]
  else outline.events

/-- The sections of the generated code in order. -/
def sections (outline : Outline) : List String :=
  (if outline.global.isEmpty then [] else [outline.global]) ++
    outline.callbacks.map (EventBody.callback outline.options outline.prologue) ++
    (if outline.dispatcher.isEmpty && !outline.ledger.dispatcherCalled then []
      else [sharedFunction dispatcherName outline.dispatcher]) ++
    (if outline.prologue.isEmpty then [] else [sharedFunction prologueName outline.prologue]) ++
    outline.ledger.helpers.filterMap outline.options.helperSource

/-- The generated code: its sections, an empty line apart. -/
def text (outline : Outline) : String :=
  "\n".intercalate outline.sections

end Outline

end EventScript
