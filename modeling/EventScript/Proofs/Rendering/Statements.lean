import EventScript.Proofs.Rendering.Spots
import EventScript.Render.Stmt
import Mathlib.Logic.Basic

/-!
# Spots of statements

The spots at which the code for a statement begins, and from there on the spots
that it reaches.  Statements have no effects of their own: an effect of the
code for a statement is an effect of the code for one of its spots.
-/

namespace EventScript

/-- The condition of a branch or a loop. -/
def Spot.condition (expr : Expr) : Spot :=
  ⟨.condition, .free, expr⟩

/-- An expression that stands outside conditions. -/
def Spot.plain (expr : Expr) : Spot :=
  ⟨{}, .free, expr⟩

mutual

/-- The spots of the expressions of a statement.  A command is a call. -/
def Stmt.spots : Stmt → List Spot
  | .block statements => Script.spots statements
  | .branch condition whenTrue none => .condition condition :: whenTrue.spots
  | .branch condition whenTrue (some other) =>
    .condition condition :: (whenTrue.spots ++ other.spots)
  | .forLoop init condition step body =>
    init.toList.map .plain ++ condition.toList.map .condition ++ step.toList.map .plain ++
      body.spots
  | .whileLoop condition body => .condition condition :: body.spots
  | .breakLoop => []
  | .continueLoop => []
  | .giveBack value => value.toList.map .plain
  | .command name arguments => [.plain (.call name arguments)]
  | .function _ body => body.spots
  | .expression value => [.plain value]
  | .empty => []

/-- The spots of the expressions of statements. -/
def Script.spots : List Stmt → List Spot
  | [] => []
  | first :: rest => first.spots ++ Script.spots rest

end

/-- A command is written as the call of its name. -/
theorem renderCall_eq (site : Site) (context : ExprContext) (name : String)
    (arguments : List Expr) :
    renderCall site context name arguments = render site context (.call name arguments) := by
  rw [render, renderWith, renderCall, renderArguments]
  rw [renderAllWith_eq_map, List.zipWith_map_right, List.zipWith_self]
  rfl

section Effects

variable (site : Site) (effect : Effect)

theorem mem_effects_render (context : ExprContext) (expr : Expr) :
    effect ∈ (render site context expr).effects ↔
      effect ∈ (Spot.code site ⟨context, .free, expr⟩).effects :=
  Iff.rfl

theorem mem_effects_renderOptional (context : ExprContext) (expr : Option Expr) :
    effect ∈ (renderOptional site context expr).effects ↔
      ∃ value ∈ expr, effect ∈ (Spot.code site ⟨context, .free, value⟩).effects := by
  cases expr with
  | none => simp [renderOptional]
  | some value => simp [renderOptional, mem_effects_render]

mutual

/-- The effects of a statement are those of its spots. -/
theorem mem_effects_renderStmt (form : StmtForm) (depth : Nat) :
    ∀ statement : Stmt, effect ∈ (renderStmt site form depth statement).effects ↔
      ∃ spot ∈ statement.spots, effect ∈ (spot.code site).effects
  | .block statements => by
    have inside (depth : Nat) := mem_effects_renderStmts depth statements
    unfold renderStmt Stmt.spots
    split <;> simp [inside]
  | .branch condition whenTrue none => by
    have inside := mem_effects_renderStmt .contents (depth + 1) whenTrue
    simp [renderStmt, Stmt.spots, mem_effects_render, Spot.condition, inside]
  | .branch condition whenTrue (some other) => by
    have inside := mem_effects_renderStmt .contents (depth + 1) whenTrue
    have alternative := mem_effects_renderStmt .alternative depth other
    have contents := mem_effects_renderStmt .contents (depth + 1) other
    by_cases chained : other.isBranch <;>
      simp [renderStmt, Stmt.spots, mem_effects_render, Spot.condition, inside, chained,
        alternative, contents, or_and_right, exists_or]
  | .forLoop init condition step body => by
    have inside := mem_effects_renderStmt .contents (depth + 1) body
    simp [renderStmt, Stmt.spots, mem_effects_renderOptional, Spot.condition, Spot.plain, inside,
      or_and_right, exists_or]
  | .whileLoop condition body => by
    have inside := mem_effects_renderStmt .contents (depth + 1) body
    simp [renderStmt, Stmt.spots, mem_effects_render, Spot.condition, inside]
  | .breakLoop => by simp [renderStmt, Stmt.spots]
  | .continueLoop => by simp [renderStmt, Stmt.spots]
  | .giveBack none => by simp [renderStmt, Stmt.spots]
  | .giveBack (some value) => by
    simp [renderStmt, Stmt.spots, mem_effects_render, Spot.plain]
  | .command name arguments => by
    simp [renderStmt, Stmt.spots, renderCall_eq, mem_effects_render, Spot.plain]
  | .function name body => by
    have inside := mem_effects_renderStmt .contents (depth + 1) body
    simp [renderStmt, Stmt.spots, inside]
  | .expression value => by
    simp [renderStmt, Stmt.spots, mem_effects_render, Spot.plain]
  | .empty => by simp [renderStmt, Stmt.spots]

theorem mem_effects_renderStmts (depth : Nat) :
    ∀ statements : List Stmt, effect ∈ (renderStmts site depth statements).effects ↔
      ∃ spot ∈ Script.spots statements, effect ∈ (spot.code site).effects
  | [] => by simp [renderStmts, Script.spots]
  | first :: rest => by
    have inFirst := mem_effects_renderStmt .plain depth first
    have inRest := mem_effects_renderStmts depth rest
    simp [renderStmts, Script.spots, inFirst, inRest, or_and_right, exists_or]

end

end Effects

end EventScript
