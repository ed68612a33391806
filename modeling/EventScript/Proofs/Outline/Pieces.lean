import EventScript.Conversion
import EventScript.Session
import EventScript.Proofs.Outline.Routes

/-!
# Pieces of a conversion

A piece is the code for one top-level statement in the section it goes to,
generated by a session that has generated nothing before, together with the
ledger of that session.  `assemble` puts pieces together to a conversion and
looks at nothing but the pieces: a section is made of the pieces that belong to
it, in order, and the ledgers are added up.
-/

namespace EventScript

/-! ## Ledgers of separate sessions -/

/-- The effects of generation in two sessions, one behind the other. -/
def Ledger.merge (first second : Ledger) : Ledger :=
  { helpers := (first.helpers ++ second.helpers).eraseDups
    diagnostics := first.diagnostics ++ second.diagnostics
    dispatcherCalled := first.dispatcherCalled || second.dispatcherCalled }

/-! ## Pieces -/

/-- The code for one top-level statement, where it goes, and the effects of
generating it. -/
structure Piece where
  route : Route
  code : String
  ledger : Ledger

/-- A session that has generated nothing yet, in a section and at a depth. -/
def Session.fresh (options : Options) (place : Section) (depth : Nat) : Session :=
  { options := options, place := place, depth := depth }

/-- Generate the code for a statement at its route, in a session of its own. -/
def Route.session (options : Options) (statement : Stmt) : Route → Session
  | .declaration => (Session.fresh options .global 0).statement statement
  | .contents action body => (Session.fresh options (.event action) 1).bodyContents body
  | .guarded action => (Session.fresh options (.event action) 1).statement statement
  | .prologue => (Session.fresh options .prologue 1).statement statement
  | .dispatched _ => (Session.fresh options .dispatcher 1).statement statement
  | .creation => (Session.fresh options .create 1).statement statement

/-- The piece for a statement at a route. -/
def Route.piece (options : Options) (statement : Stmt) (route : Route) : Piece :=
  let session := route.session options statement
  ⟨route, session.buffers.global.text, session.ledger⟩

namespace Route

/-- The section of a route. -/
def place : Route → Section
  | declaration => .global
  | contents action _ => .event action
  | guarded action => .event action
  | prologue => .prologue
  | dispatched _ => .dispatcher
  | creation => .create

/-- The event whose body holds the code, if there is one.  What runs on creation
is in the body of that event. -/
def event? : Route → Option Action
  | contents action _ => some action
  | guarded action => some action
  | creation => some .created
  | _ => none

/-- The events that have to call the dispatcher. -/
def forwarding : Route → List Action
  | dispatched actions => actions
  | _ => []

/-- The events that need a callback. -/
def events (route : Route) : List Action :=
  route.event?.toList ++ route.forwarding

end Route

namespace Piece

/-- The code that a piece adds to the body of an event. -/
def codeFor (action : Action) (piece : Piece) : String :=
  if piece.route.event?.any fun event => event.name == action.name then piece.code else ""

/-- Whether an event has to call the dispatcher because of a piece. -/
def forwards (action : Action) (piece : Piece) : Bool :=
  piece.route.forwarding.any fun event => event.name == action.name

end Piece

/-! ## Assembling -/

namespace Piece

/-- The code of the pieces of one section, in order. -/
def codesIn (place : Section) (pieces : List Piece) : List String :=
  (pieces.filter fun piece => piece.route.place = place).map code

/-- The line with which an event calls the dispatcher. -/
def forwardingLine (action : Action) : String :=
  codeLine 1 (Section.event action).dispatchCall

/-- The body of an event: its pieces in order, and one call of the dispatcher at
the first piece that has to be forwarded to. -/
def body (pieces : List Piece) (action : Action) : String :=
  String.join (pieces.mapIdx fun index piece =>
    piece.codeFor action ++
      if pieces.findIdx? (forwards action) = some index then forwardingLine action else "")

/-- The events that need a callback, in the order in which they are first
needed. -/
def needed (pieces : List Piece) : List Action :=
  distinctActions (pieces.flatMap fun piece => piece.route.events)

/-- The bodies of the callbacks.  A prologue needs at least one. -/
def callbacks (pieces : List Piece) : List EventBody :=
  let events := if (needed pieces).isEmpty && !(codesIn .prologue pieces).isEmpty
    then [.created] else needed pieces
  events.map fun action =>
    { action := action
      body := body pieces action
      forwards := pieces.any (forwards action) }

/-- Whether some code calls the dispatcher. -/
def callsDispatcher (pieces : List Piece) : Bool :=
  pieces.any fun piece => piece.ledger.dispatcherCalled || !piece.route.forwarding.isEmpty

/-- The helpers that the pieces request, in the order of the first request. -/
def helpers (pieces : List Piece) : List String :=
  (pieces.flatMap fun piece => piece.ledger.helpers).eraseDups

/-- A shared function, if any piece belongs to it or some code calls it. -/
def shared (name : String) (codes : List String) (called : Bool) : List String :=
  if codes.isEmpty && !called then [] else [sharedFunction name (String.join codes)]

/-- The sections of the generated code in order: the declared functions an empty
line apart, the callbacks, the two shared functions and the helpers. -/
def sections (options : Options) (pieces : List Piece) : List String :=
  let prologue := String.join (codesIn .prologue pieces)
  (if (codesIn .global pieces).isEmpty then [] else ["\n".intercalate (codesIn .global pieces)]) ++
    (callbacks pieces).map (EventBody.callback options prologue) ++
    shared dispatcherName (codesIn .dispatcher pieces) (callsDispatcher pieces) ++
    shared prologueName (codesIn .prologue pieces) false ++
    (helpers pieces).filterMap options.helperSource

/-- The conversion that is made of pieces. -/
def assemble (options : Options) (pieces : List Piece) : Conversion :=
  { code := "\n".intercalate (sections options pieces)
    diagnostics := pieces.flatMap fun piece => piece.ledger.diagnostics }

end Piece

end EventScript
