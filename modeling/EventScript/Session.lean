import EventScript.Buffer
import EventScript.Ledger
import EventScript.Render.Stmt

/-!
# Generation sessions

A session generates code in several steps.  It holds the output in buffers, the
ledger of effects, and the section and the depth at which statements are
written.
-/

namespace EventScript

/-- The state of generating code in several steps. -/
structure Session where
  options : Options
  buffers : BufferStack := {}
  ledger : Ledger := {}
  place : Section := .global
  depth : Nat := 0

namespace Session

/-- Where the session generates code. -/
def site (session : Session) : Site :=
  ⟨session.options, session.place⟩

/-- Record the effects of an emission and return its value. -/
def perform {α : Type} (session : Session) (emission : Emission α) : α × Session :=
  (emission.value, { session with ledger := session.ledger.recordAll emission.effects })

/-- Go on in another section and at another depth. -/
def moveTo (session : Session) (place : Section) (depth : Nat) : Session :=
  { session with place := place, depth := depth }

/-- Append a text to the buffer that receives output. -/
def write (session : Session) (text : String) : Session :=
  { session with buffers := session.buffers.modifyCurrent fun buffer => buffer.write text }

/-- Generate code that is written to the buffer that receives output. -/
def emit (session : Session) (emission : Emission String) : Session :=
  let (text, session) := session.perform emission
  session.write text

/-- Generate the code for an expression. -/
def expression (session : Session) (context : ExprContext) (expr : Expr) : String × Session :=
  session.perform (render session.site context expr)

/-- Generate the code for a text. -/
def expandText (session : Session) (content : String) : String × Session :=
  session.perform (expand session.site content)

/-- Generate the code for a call of a built-in function, unless it declines. -/
def builtin (session : Session) (context : ExprContext) (function : Builtin)
    (arguments : List Expr) : Option String × Session :=
  match function.apply session.site (renderArguments session.site context arguments) with
  | some code => session.perform (some <$> code)
  | none => (none, session)

/-- Generate the code for a statement. -/
def statement (session : Session) (statement : Stmt) : Session :=
  session.emit (renderStmt session.site .plain session.depth statement)

/-- Generate the code for statements in order. -/
def statements (session : Session) (statements : List Stmt) : Session :=
  statements.foldl statement session

/-- Generate the contents of a body at the depth of the session. -/
def bodyContents (session : Session) (statement : Stmt) : Session :=
  session.emit (renderStmt session.site .contents session.depth statement)

/-- Generate the contents of a body one level deeper. -/
def body (session : Session) (statement : Stmt) : Session :=
  session.emit (renderStmt session.site .contents (session.depth + 1) statement)

/-- Take out the remarks collected so far. -/
def takeDiagnostics (session : Session) : List Diagnostic × Session :=
  let (diagnostics, ledger) := session.ledger.takeDiagnostics
  (diagnostics, { session with ledger := ledger })

/-- Redirect output to a buffer. -/
def redirect (session : Session) (buffer : Buffer) : Session :=
  { session with buffers := session.buffers.push buffer }

/-- End the innermost redirection and return its buffer. -/
def endRedirect (session : Session) : Buffer × Session :=
  let (buffer, buffers) := session.buffers.pop
  (buffer.getD {}, { session with buffers := buffers })

end Session

end EventScript
