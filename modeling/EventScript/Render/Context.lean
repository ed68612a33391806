/-!
# The context of an expression

What surrounds an expression while code is generated for it.
-/

namespace EventScript

/-- What surrounds an expression. -/
structure ExprContext where
  /-- The expression decides a branch or a loop, so `=` compares. -/
  inCondition : Bool := false
  /-- The expression lies anywhere inside such a condition, so the flags of
  events are known. -/
  inRegion : Bool := false
  /-- Bare names are not taken for members of the script object. -/
  suppressSelf : Bool := false
  deriving DecidableEq, Repr

namespace ExprContext

/-- The condition of a branch or a loop. -/
def condition : ExprContext :=
  { inCondition := true, inRegion := true }

/-- Arguments of a call, indices and members of a list. -/
def arguments (context : ExprContext) : ExprContext :=
  { context with inCondition := false, suppressSelf := false }

/-- Segments of a chain behind the first. -/
def suppressed (context : ExprContext) : ExprContext :=
  { context with suppressSelf := true }

/-- The condition of a conditional expression. -/
def tested (context : ExprContext) : ExprContext :=
  { context with inCondition := true }

end ExprContext

/-- Whether an expression stands alone or is a segment of a chain behind the
first one. -/
inductive Position where
  | free
  | member
  deriving DecidableEq, Repr

end EventScript
