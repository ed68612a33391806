import EventScript.Expr

/-!
# Statements

The statement trees of the script language.  A script is a list of statements.
-/

namespace EventScript

/-- A statement. -/
inductive Stmt where
  | block (statements : List Stmt)
  /-- A branch on a condition, with an optional other branch. -/
  | branch (condition : Expr) (whenTrue : Stmt) (otherwise : Option Stmt)
  /-- A counted loop; each of its clauses may be missing. -/
  | forLoop (init condition step : Option Expr) (body : Stmt)
  | whileLoop (condition : Expr) (body : Stmt)
  | breakLoop
  | continueLoop
  | giveBack (value : Option Expr)
  /-- A call that stands as a statement, with or without parentheses. -/
  | command (name : String) (arguments : List Expr)
  /-- The declaration of a function without parameters. -/
  | function (name : String) (body : Stmt)
  | expression (value : Expr)
  | empty

instance : Inhabited Stmt :=
  ⟨.empty⟩

/-- A script: its top-level statements in order. -/
abbrev Script := List Stmt

end EventScript
