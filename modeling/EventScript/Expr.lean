import EventScript.Token

/-!
# Expressions

The expression trees of the script language and their printed form.  Printing
adds no parentheses: a tree keeps the ones that were written as `grouped`
nodes.
-/

namespace EventScript

/-- Operators with one operand. -/
inductive UnaryOp where
  | not
  | negate
  | preIncrement
  | preDecrement
  | postIncrement
  | postDecrement
  deriving DecidableEq, Repr

/-- Operators with two operands. -/
inductive BinaryOp where
  | add
  | sub
  | mul
  | div
  | mod
  | pow
  | equal
  | notEqual
  | less
  | greater
  | lessEqual
  | greaterEqual
  | isIn
  | and
  | or
  | assign
  | addAssign
  | subAssign
  | mulAssign
  | divAssign
  deriving DecidableEq, Repr

/-- An expression. -/
inductive Expr where
  /-- A number, as it is spelled. -/
  | number (spelling : String)
  /-- A text; property codes inside it are not expanded yet. -/
  | text (value : String)
  /-- A bare name. -/
  | name (spelling : String)
  /-- A list in braces. -/
  | list (items : List Expr)
  /-- A range in angle brackets, the right side of a membership test. -/
  | range (low high : Expr)
  /-- An expression in parentheses. -/
  | grouped (inner : Expr)
  | unary (op : UnaryOp) (operand : Expr)
  | binary (op : BinaryOp) (left right : Expr)
  /-- The choice between two expressions by a condition. -/
  | conditional (condition whenTrue whenFalse : Expr)
  | call (function : String) (arguments : List Expr)
  | index (target : Expr) (indices : List Expr)
  /-- A chain of members, the first segment being the object. -/
  | dotted (segments : List Expr)

instance : Inhabited Expr :=
  ⟨.name ""⟩

namespace UnaryOp

/-- Whether the operator stands behind its operand. -/
def isPostfix : UnaryOp → Bool
  | postIncrement => true
  | postDecrement => true
  | _ => false

/-- How an operator is spelled. -/
def spelling : UnaryOp → String
  | not => "!"
  | negate => "-"
  | preIncrement => "++"
  | preDecrement => "--"
  | postIncrement => "++"
  | postDecrement => "--"

/-- Put an operator at the text of its operand. -/
def attach (op : UnaryOp) (operand : String) : String :=
  if op.isPostfix then operand ++ op.spelling else op.spelling ++ operand

/-- The operator that a token in front of an operand stands for. -/
def ofToken? : Token → Option UnaryOp
  | .symbol .not => some not
  | .symbol .minus => some negate
  | .symbol .increment => some preIncrement
  | .symbol .decrement => some preDecrement
  | _ => none

end UnaryOp

namespace BinaryOp

/-- How an operator is spelled. -/
def spelling : BinaryOp → String
  | add => "+"
  | sub => "-"
  | mul => "*"
  | div => "/"
  | mod => "%"
  | pow => "^"
  | equal => "=="
  | notEqual => "!="
  | less => "<"
  | greater => ">"
  | lessEqual => "<="
  | greaterEqual => ">="
  | isIn => "in"
  | and => "&&"
  | or => "||"
  | assign => "="
  | addAssign => "+="
  | subAssign => "-="
  | mulAssign => "*="
  | divAssign => "/="

/-- How tightly an operator binds.  Between the assignments and the logical
"or" there is room for the conditional. -/
def strength : BinaryOp → Nat
  | assign => 0
  | addAssign => 0
  | subAssign => 0
  | mulAssign => 0
  | divAssign => 0
  | or => 2
  | and => 3
  | equal => 4
  | notEqual => 4
  | less => 5
  | greater => 5
  | lessEqual => 5
  | greaterEqual => 5
  | isIn => 5
  | add => 6
  | sub => 6
  | mul => 7
  | div => 7
  | mod => 7
  | pow => 8

/-- Whether the operator yields a truth value. -/
def isTest : BinaryOp → Bool
  | equal => true
  | notEqual => true
  | less => true
  | greater => true
  | lessEqual => true
  | greaterEqual => true
  | isIn => true
  | and => true
  | or => true
  | _ => false

/-- The operator that a token stands for. -/
def ofToken? : Token → Option BinaryOp
  | .symbol .plus => some add
  | .symbol .minus => some sub
  | .symbol .star => some mul
  | .symbol .slash => some div
  | .symbol .percent => some mod
  | .symbol .caret => some pow
  | .symbol .equal => some equal
  | .symbol .notEqual => some notEqual
  | .symbol .less => some less
  | .symbol .greater => some greater
  | .symbol .lessEqual => some lessEqual
  | .symbol .greaterEqual => some greaterEqual
  | .keyword .inWord => some isIn
  | .symbol .and => some and
  | .symbol .or => some or
  | .symbol .assign => some assign
  | .symbol .plusEqual => some addAssign
  | .symbol .minusEqual => some subAssign
  | .symbol .starEqual => some mulAssign
  | .symbol .slashEqual => some divAssign
  | _ => none

end BinaryOp

namespace Expr

/-- The name of a bare name. -/
def name? : Expr → Option String
  | name spelling => some spelling
  | _ => none

/-- Strip the parentheses around an expression. -/
def ungrouped : Expr → Expr
  | grouped inner => inner.ungrouped
  | other => other

/-- Index an expression.  At the end of a chain the index belongs to the last
segment. -/
def indexedBy (target : Expr) (indices : List Expr) : Expr :=
  match target with
  | dotted segments =>
    match segments.getLast? with
    | some last => dotted (segments.dropLast ++ [index last indices])
    | none => dotted []
  | other => index other indices

/-- Select a member of an expression.  A chain grows by one segment. -/
def withMember (target segment : Expr) : Expr :=
  match target with
  | dotted segments => dotted (segments ++ [segment])
  | other => dotted [other, segment]

mutual

/-- The printed form of an expression. -/
def display : Expr → String
  | number spelling => spelling
  | text value => "\"" ++ value ++ "\""
  | name spelling => spelling
  | list items => "\x7b" ++ ", ".intercalate (displayAll items) ++ "\x7d"
  | range low high => "<" ++ low.display ++ ", " ++ high.display ++ ">"
  | grouped inner => "(" ++ inner.display ++ ")"
  | unary op operand => op.attach operand.display
  | binary op left right => left.display ++ " " ++ op.spelling ++ " " ++ right.display
  | conditional condition whenTrue whenFalse =>
    condition.display ++ " ? " ++ whenTrue.display ++ " : " ++ whenFalse.display
  | call function arguments => function ++ "(" ++ ", ".intercalate (displayAll arguments) ++ ")"
  | index target indices => target.display ++ "[" ++ ", ".intercalate (displayAll indices) ++ "]"
  | dotted segments => ".".intercalate (displayAll segments)

/-- The printed forms of the members of a list. -/
def displayAll : List Expr → List String
  | [] => []
  | item :: rest => item.display :: displayAll rest

end

@[simp]
theorem displayAll_eq_map (items : List Expr) : displayAll items = items.map display := by
  induction items with
  | nil => rfl
  | cons item rest ih => simp [displayAll, ih]

end Expr

end EventScript
