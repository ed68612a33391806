import EventScript.Expr
import EventScript.Parser
import EventScript.Vocabulary.Signature

/-!
# Reading expressions

The grammar of expressions, from loose to tight binding:

* assignments, to the right;
* conditionals;
* "or", "and", equality, comparison and membership, sums, products, powers, all
  to the left;
* operators in front of an operand;
* indices, members and operators behind an operand;
* numbers, texts, names, calls, groups and lists.

A rule that comes back to an earlier one does so behind a token of its own.
The rules therefore take the parsers of such inner parts as an argument, and
`nested` provides them to a given depth.
-/

namespace EventScript.Parser

/-- Parsers for the parts of an expression that begin behind one of its own
tokens. -/
structure Nested where
  expression : Parser Expr
  conditional : Parser Expr
  unary : Parser Expr

/-- Fail at a token that begins no operand. -/
def refuse {α : Type} : Parser α := do
  fail (.notAnOperand (← current))

/-- The operator of a given strength that a token stands for. -/
def operatorOf? (strength : Nat) (token : Token) : Option BinaryOp :=
  (BinaryOp.ofToken? token).filter fun op => op.strength == strength

/-- Operands joined to the left by the operators of one strength. -/
def chain (strength : Nat) (operand : Parser Expr) (right : BinaryOp → Parser Expr) :
    Parser Expr := do
  let first ← operand
  loop
    (fun left => do
      match operatorOf? strength (← current) with
      | some op =>
        advance
        return some (.binary op left (← right op))
      | none => return none)
    first

/-! ## Arguments and lists -/

/-- One argument of a function, counted from zero.  A quoted text is always
read as an expression. -/
def argument (expression : Parser Expr) (function : String) (position : Nat) :
    Parser Expr := do
  if Signature.readsRaw function position && !(← current).isText then
    return .text (← takeRaw)
  else
    expression

/-- The arguments of a function, at least one. -/
def arguments (expression : Parser Expr) (function : String) : Parser (List Expr) := do
  let first ← argument expression function 0
  loop
    (fun read => do
      if ← accept (.symbol .comma) then
        return some (read ++ [← argument expression function read.length])
      else
        return none)
    [first]

/-- The arguments of a call from its opening parenthesis on. -/
def callArguments (expression : Parser Expr) (function : String) : Parser (List Expr) := do
  advance
  let read ←
    if ← isAt (.symbol .closeParen) then pure [] else arguments expression function
  expect (.symbol .closeParen) .closeArguments
  return read

/-- A name, or a call if a parenthesis follows the name. -/
def nameOrCall (expression : Parser Expr) (spelling : String) : Parser Expr := do
  advance
  if ← isAt (.symbol .openParen) then
    return .call spelling (← callArguments expression spelling)
  else
    return .name spelling

/-- Expressions between commas, in front of a closing token. -/
def expressions (expression : Parser Expr) (closing : Token) : Parser (List Expr) := do
  if ← isAt closing then
    return []
  else
    let first ← expression
    loop
      (fun read => do
        if ← accept (.symbol .comma) then
          return some (read ++ [← expression])
        else
          return none)
      [first]

/-! ## The rules -/

/-- Numbers, texts, names, calls, groups and lists. -/
def primary (inner : Nested) : Parser Expr := do
  match ← current with
  | .number spelling =>
    advance
    return .number spelling
  | .text value =>
    advance
    return .text value
  | .name spelling => nameOrCall inner.expression spelling
  | .symbol .openParen =>
    advance
    let content ← inner.expression
    expect (.symbol .closeParen) .closeGroup
    return .grouped content
  | .symbol .openBrace =>
    advance
    let items ← expressions inner.expression (.symbol .closeBrace)
    expect (.symbol .closeBrace) .closeList
    return .list items
  | _ => refuse

/-- One index, member or operator behind an operand, if there is one. -/
def suffix (inner : Nested) (target : Expr) : Parser (Option Expr) := do
  match ← current with
  | .symbol .openBracket =>
    advance
    let indices ← expressions inner.expression (.symbol .closeBracket)
    expect (.symbol .closeBracket) .closeIndex
    return some (target.indexedBy indices)
  | .symbol .dot =>
    advance
    match ← current with
    | .name spelling => return some (target.withMember (← nameOrCall inner.expression spelling))
    | _ => fail (.missing .memberName)
  | .symbol .increment =>
    advance
    return some (.unary .postIncrement target)
  | .symbol .decrement =>
    advance
    return some (.unary .postDecrement target)
  | _ => return none

/-- An operand with everything behind it. -/
def suffixed (inner : Nested) : Parser Expr := do
  loop (suffix inner) (← primary inner)

/-- Operators in front of an operand. -/
def unary (inner : Nested) : Parser Expr := do
  match UnaryOp.ofToken? (← current) with
  | some op =>
    advance
    return .unary op (← inner.unary)
  | none => suffixed inner

/-- Powers. -/
def power (inner : Nested) : Parser Expr :=
  chain 8 (unary inner) fun _ => unary inner

/-- Products, quotients and remainders. -/
def product (inner : Nested) : Parser Expr :=
  chain 7 (power inner) fun _ => power inner

/-- Sums and differences. -/
def sum (inner : Nested) : Parser Expr :=
  chain 6 (product inner) fun _ => product inner

/-- What membership is tested in: a range or a collection. -/
def collection (inner : Nested) : Parser Expr := do
  if ← accept (.symbol .less) then
    let low ← sum inner
    expect (.symbol .comma) .commaInRange
    let high ← sum inner
    expect (.symbol .greater) .closeRange
    return .range low high
  else
    sum inner

/-- Comparisons and membership tests. -/
def comparison (inner : Nested) : Parser Expr :=
  chain 5 (sum inner) fun op => if op = .isIn then collection inner else sum inner

/-- Tests for equality. -/
def equality (inner : Nested) : Parser Expr :=
  chain 4 (comparison inner) fun _ => comparison inner

/-- Conjunctions. -/
def conjunction (inner : Nested) : Parser Expr :=
  chain 3 (equality inner) fun _ => equality inner

/-- Disjunctions. -/
def disjunction (inner : Nested) : Parser Expr :=
  chain 2 (conjunction inner) fun _ => conjunction inner

/-- Conditionals. -/
def conditional (inner : Nested) : Parser Expr := do
  let condition ← disjunction inner
  if ← accept (.symbol .question) then
    let whenTrue ← inner.expression
    expect (.symbol .colon) .colonInConditional
    return .conditional condition whenTrue (← inner.conditional)
  else
    return condition

/-- Assignments. -/
def assignment (inner : Nested) : Parser Expr := do
  let target ← conditional inner
  match operatorOf? 0 (← current) with
  | some op =>
    advance
    return .binary op target (← inner.expression)
  | none => return target

/-! ## Nesting -/

/-- Parsers for expressions that are nested to a given depth.  An inner level is
made when a parser runs, so only the levels that a text needs are made. -/
def nested : Nat → Nested
  | 0 => ⟨refuse, refuse, refuse⟩
  | depth + 1 =>
    { expression := fun stream => assignment (nested depth) stream
      conditional := fun stream => conditional (nested depth) stream
      unary := fun stream => unary (nested depth) stream }

theorem nested_succ (depth : Nat) :
    nested (depth + 1) =
      ⟨assignment (nested depth), conditional (nested depth), unary (nested depth)⟩ :=
  rfl

/-- An expression.  Each level of nesting passes at least one character, so the
characters that are left bound the depth. -/
def expression : Parser Expr := do
  (nested ((← get).remaining + 1)).expression

end EventScript.Parser

namespace EventScript.Expr

/-- Read a text that is one expression.  An error in front of the first token
is an error of the expression. -/
def parse (source : String) : Except ScriptError Expr :=
  let stream := Stream.ofText source.toList
  match stream.findings with
  | finding :: _ => .error finding.error
  | [] =>
    let whole : Parser Expr := do
      let value ← Parser.expression
      match ← Parser.current with
      | .endOfInput => return value
      | token => Parser.fail (.trailing token)
    (whole.runOn stream).1

end EventScript.Expr
