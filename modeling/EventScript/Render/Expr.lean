import EventScript.Render.Builtin
import EventScript.Render.Context

/-!
# Code for expressions

The code for an expression depends on its context, on the section it stands in
and on the options.  How texts are written is left open here: a text may hold
expressions of its own, and the function for texts is an argument.
-/

namespace EventScript

/-- A replacement with its marks filled in, calling the helpers it needs. -/
def Site.substitute (site : Site) (replacement : String) : Emission String := do
  let (text, helpers) := site.options.substitute replacement
  Emission.requestHelpers helpers
  return text

/-- A number; generated code does not begin one with a point. -/
def numberCode (spelling : String) : String :=
  if Text.startsWith spelling "." then "0" ++ spelling else spelling

/-- A bare name. -/
def Site.nameCode (site : Site) (context : ExprContext) (name : String) : Emission String :=
  match if context.inRegion then Action.find? name else none with
  | some action => pure (site.place.actionTest action)
  | none =>
    match Alias.find? name with
    | some entry =>
      if context.suppressSelf && !entry.ofSelf then pure name
      else do
        let text ← site.substitute entry.replacement
        return if entry.ofSelf && !context.suppressSelf then "this." ++ text else text
    | none => pure (if context.suppressSelf || isRoot name then name else "this." ++ name)

/-- A name as a segment of a chain. -/
def Site.memberCode (site : Site) (name : String) : Emission String :=
  match Alias.find? name with
  | some entry => if entry.ofSelf then site.substitute entry.replacement else pure name
  | none => pure name

/-- The function of a call that no built-in function takes. -/
def Site.calleeCode (site : Site) (name : String) : Emission String :=
  match Alias.find? name with
  | some entry => do
    let text ← site.substitute entry.replacement
    return if entry.ofSelf then "this." ++ text else text
  | none =>
    pure (if Text.startsWith name "player" || Text.startsWith name "setplayer" then
      "player." ++ name else "this." ++ name)

/-- A call, by the built-in function of that name unless it declines. -/
def Site.callCode (site : Site) (name : String) (arguments : List Argument) : Emission String :=
  match (Builtin.find? name).bind fun builtin => builtin.apply site arguments with
  | some code => code
  | none => do
    let callee ← site.calleeCode name
    return callee ++ "(" ++ joinArguments (← codes arguments) ++ ")"

/-- An operator in front of or behind the code of its operand.  The negation of
a test is parenthesised. -/
def unaryCode (op : UnaryOp) (operand : Expr) (code : String) : String :=
  match op, operand with
  | .not, .binary inner _ _ => if inner.isTest then "!(" ++ code ++ ")" else "!" ++ code
  | _, _ => op.attach code

/-- The tiles of one row of a level. -/
def boardWidth : Nat :=
  64

/-- Whether an expression names the tiles of the level. -/
def isBoard (target : Expr) : Bool :=
  match target.name? with
  | some name => name == "tiles" || name == "board"
  | none => false

/-- An indexed expression.  Two indices into the tiles of the level are a column
and a row of a flat array. -/
def indexCode (asBoard : Bool) (base : String) (indices : List String) : String :=
  match asBoard, indices with
  | true, [column, row] =>
    base ++ "[(" ++ row ++ ")*" ++ toString boardWidth ++ "+(" ++ column ++ ")]"
  | _, _ => base ++ String.join (indices.map fun index => "[" ++ index ++ "]")

mutual

/-- The code for an expression, given the code for texts. -/
def renderWith (text : String → Emission String) (site : Site) (context : ExprContext)
    (position : Position) : Expr → Emission String
  | .number spelling => pure (numberCode spelling)
  | .text value => text value
  | .name spelling =>
    match position with
    | .free => site.nameCode context spelling
    | .member => site.memberCode spelling
  | .list items => do
    let items ← Emission.sequence (renderAllWith text site context.arguments .free items)
    return "[" ++ joinArguments items ++ "]"
  | .range low high => do
    let low ← renderWith text site context.arguments .free low
    let high ← renderWith text site context.arguments .free high
    return "[" ++ low ++ ", " ++ high ++ "]"
  | .grouped inner => do
    return "(" ++ (← renderWith text site context .free inner) ++ ")"
  | .unary op operand => do
    return unaryCode op operand (← renderWith text site context .free operand)
  | .binary .pow left right => do
    let left ← renderWith text site context.arguments .free left
    let right ← renderWith text site context.arguments .free right
    return "pow(" ++ left ++ ", " ++ right ++ ")"
  | .binary .mod left right => do
    let left ← renderWith text site context.arguments .free left
    let right ← renderWith text site context.arguments .free right
    return "mod(" ++ left ++ ", " ++ right ++ ")"
  | .binary .isIn left (.range low high) => do
    let value ← renderWith text site context.arguments .free left
    let low ← renderWith text site context.arguments .free low
    let high ← renderWith text site context.arguments .free high
    return "inRange(" ++ value ++ ", " ++ low ++ ", " ++ high ++ ")"
  | .binary .isIn left right => do
    let value ← renderWith text site context.arguments .free left
    let collection ← renderWith text site context.arguments .free right
    return collection ++ ".find(" ++ value ++ ") !== null"
  | .binary op left right => do
    let left ← renderWith text site context .free left
    let right ← renderWith text site context .free right
    let spelling := if op = .assign ∧ context.inCondition then "==" else op.spelling
    return left ++ " " ++ spelling ++ " " ++ right
  | .conditional condition whenTrue whenFalse => do
    let condition ← renderWith text site context.tested .free condition
    let whenTrue ← renderWith text site context.arguments .free whenTrue
    let whenFalse ← renderWith text site context.arguments .free whenFalse
    return "if(" ++ condition ++ ", " ++ whenTrue ++ ", " ++ whenFalse ++ ")"
  | .call function arguments =>
    let rendered := renderAllWith text site context.arguments .free arguments
    match position with
    | .free => site.callCode function (List.zipWith Argument.mk arguments rendered)
    | .member => do
      return function ++ "(" ++ joinArguments (← Emission.sequence rendered) ++ ")"
  | .index target indices => do
    let base ← renderWith text site context position target
    let indices ← Emission.sequence (renderAllWith text site context.arguments .free indices)
    return indexCode (position = .free ∧ isBoard target) base indices
  | .dotted [] => pure ""
  | .dotted (head :: members) => do
    let head ← renderWith text site context .free head
    let members ← Emission.sequence (renderAllWith text site context.suppressed .member members)
    return ".".intercalate (head :: members)

/-- The code for each of several expressions, given the code for texts. -/
def renderAllWith (text : String → Emission String) (site : Site) (context : ExprContext)
    (position : Position) : List Expr → List (Emission String)
  | [] => []
  | first :: rest =>
    renderWith text site context position first ::
      renderAllWith text site context position rest

end

/-- The code for several expressions is the code for each of them. -/
theorem renderAllWith_eq_map (text : String → Emission String) (site : Site)
    (context : ExprContext) (position : Position) (items : List Expr) :
    renderAllWith text site context position items =
      items.map (renderWith text site context position) := by
  induction items with
  | nil => rfl
  | cons first rest ih => simp [renderAllWith, ih]

end EventScript
