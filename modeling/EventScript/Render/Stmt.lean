import EventScript.Render.Property
import EventScript.Stmt
import EventScript.Text.Lines

/-!
# Code for statements

The code for a statement is a text of whole lines at an indentation depth.
-/

namespace EventScript

/-- How a statement is written. -/
inductive StmtForm where
  | plain
  /-- The contents of a body: the braces of a block are left out. -/
  | contents
  /-- The other branch of a branch: a branch continues the line that closes the
  first one. -/
  | alternative
  deriving DecidableEq, Repr

/-- The beginning of the line of a branch. -/
def StmtForm.lead : StmtForm → String
  | .alternative => "\x7d else "
  | _ => ""

/-- Whether a statement is a branch. -/
def Stmt.isBranch : Stmt → Bool
  | .branch _ _ _ => true
  | _ => false

/-- A statement on lines of its own.  Code that ends in a block needs no
semicolon. -/
def terminated (depth : Nat) (code : String) : String :=
  Text.block depth (if Text.endsWith code '}' then code else code ++ ";")

/-- An expression that may be missing. -/
def renderOptional (site : Site) (context : ExprContext) (expr : Option Expr) :
    Emission String :=
  match expr with
  | some value => render site context value
  | none => pure ""

/-- The line that opens a body, the body, and the line that closes it. -/
def enclosed (depth : Nat) (opening body : String) : String :=
  Text.block depth (opening ++ " \x7b") ++ body ++ Text.block depth "\x7d"

mutual

/-- The code for a statement. -/
def renderStmt (site : Site) (form : StmtForm) (depth : Nat) : Stmt → Emission String
  | .block statements =>
    match form with
    | .contents => renderStmts site depth statements
    | _ => do
      let body ← renderStmts site (depth + 1) statements
      return Text.block depth "\x7b" ++ body ++ Text.block depth "\x7d"
  | .branch condition whenTrue otherwise => do
    let test ← render site .condition condition
    let opening := Text.block depth (form.lead ++ "if (" ++ test ++ ") \x7b")
    let body ← renderStmt site .contents (depth + 1) whenTrue
    match otherwise with
    | none => return opening ++ body ++ Text.block depth "\x7d"
    | some other =>
      if other.isBranch then
        return opening ++ body ++ (← renderStmt site .alternative depth other)
      else
        let rest ← renderStmt site .contents (depth + 1) other
        return opening ++ body ++ enclosed depth "\x7d else" rest
  | .forLoop init condition step body => do
    let init ← renderOptional site {} init
    let condition ← renderOptional site .condition condition
    let step ← renderOptional site {} step
    let body ← renderStmt site .contents (depth + 1) body
    return enclosed depth ("for (" ++ init ++ "; " ++ condition ++ "; " ++ step ++ ")") body
  | .whileLoop condition body => do
    let test ← render site .condition condition
    let body ← renderStmt site .contents (depth + 1) body
    return enclosed depth ("while (" ++ test ++ ")") body
  | .breakLoop => pure (Text.block depth "break;")
  | .continueLoop => pure (Text.block depth "continue;")
  | .giveBack none => pure (Text.block depth "return;")
  | .giveBack (some value) => do
    return Text.block depth ("return " ++ (← render site {} value) ++ ";")
  | .command name arguments => do
    return terminated depth (← renderCall site {} name arguments)
  | .function name body => do
    let body ← renderStmt site .contents (depth + 1) body
    return enclosed depth ("function " ++ name ++ "()") body
  | .expression value => do
    return terminated depth (← render site {} value)
  | .empty => pure ""

/-- The code for statements in order. -/
def renderStmts (site : Site) (depth : Nat) : List Stmt → Emission String
  | [] => pure ""
  | first :: rest => do
    let code ← renderStmt site .plain depth first
    return code ++ (← renderStmts site depth rest)

end

end EventScript
