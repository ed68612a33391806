import EventScript.Expr
import EventScript.Render.Context
import EventScript.Vocabulary.Action

/-!
# Actions in a condition

The events whose flags a condition tests.  A segment of a chain behind the
first one is never a flag, but its arguments may hold flags.
-/

namespace EventScript

namespace Expr

/-- The function that tests what a player says. -/
def chatFunction : String :=
  "playersays"

mutual

/-- The flags in an expression, in order and with repetitions. -/
def flags : Position → Expr → List Action
  | .member, call _ arguments => flagsOfAll .free arguments
  | .member, index target indices => flags .member target ++ flagsOfAll .free indices
  | .member, _ => []
  | .free, number _ => []
  | .free, text _ => []
  | .free, name spelling => (Action.find? spelling).toList
  | .free, list items => flagsOfAll .free items
  | .free, range low high => flags .free low ++ flags .free high
  | .free, grouped inner => flags .free inner
  | .free, unary _ operand => flags .free operand
  | .free, binary _ left right => flags .free left ++ flags .free right
  | .free, conditional condition whenTrue whenFalse =>
    flags .free condition ++ flags .free whenTrue ++ flags .free whenFalse
  | .free, call function arguments =>
    (if function == chatFunction then [Action.chat] else []) ++ flagsOfAll .free arguments
  | .free, index target indices => flags .free target ++ flagsOfAll .free indices
  | .free, dotted [] => []
  | .free, dotted (head :: members) => flags .free head ++ flagsOfAll .member members

/-- The flags in several expressions, in order and with repetitions. -/
def flagsOfAll : Position → List Expr → List Action
  | _, [] => []
  | position, first :: rest => flags position first ++ flagsOfAll position rest

end

end Expr

/-- Drop the events that occurred before. -/
def distinctActions : List Action → List Action
  | [] => []
  | first :: rest =>
    first :: (distinctActions rest).filter fun action => action.name != first.name

/-- The events that a condition tests, in the order of their first flags. -/
def Expr.actions (condition : Expr) : List Action :=
  distinctActions (condition.flags .free)

end EventScript
