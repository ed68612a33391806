import EventScript.Proofs.Parser.Agreement
import EventScript.Stmt.Parse
import Mathlib.Logic.Function.Iterate

/-!
# The depth of nested expressions and statements

Expressions and statements are read with a bound on how deep they are nested.
Every level passes at least one character, so bounds above the number of
characters left all read the same, whatever is done where the bound is reached.
The rules therefore hold as if there was no bound.
-/

namespace EventScript.Parser

variable {count : Nat} {domain : Stream → Prop}
variable {depth twinDepth : Nat} {stream : Stream}

/-! ## Steps of loops -/

/-- The step of a chain of operands. -/
def chainStep (strength : Nat) (right : BinaryOp → Parser Expr) (left : Expr) :
    Parser (Option Expr) := do
  match operatorOf? strength (← current) with
  | some op =>
    advance
    return some (.binary op left (← right op))
  | none => return none

theorem chain_eq (strength : Nat) (operand : Parser Expr) (right : BinaryOp → Parser Expr) :
    chain strength operand right = operand >>= loop (chainStep strength right) :=
  rfl

/-- The step of a list with commas. -/
def itemStep (item : List Expr → Parser Expr) (read : List Expr) : Parser (Option (List Expr)) := do
  if ← accept (.symbol .comma) then
    return some (read ++ [← item read])
  else
    return none

/-- Lists of arguments and of indices are read by a loop over their items. -/
theorem arguments_eq (expression : Parser Expr) (function : String) :
    arguments expression function = argument expression function 0 >>= fun first =>
      loop (itemStep fun read => argument expression function read.length) [first] :=
  rfl

theorem callArguments_eq (expression : Parser Expr) (function : String) :
    callArguments expression function = advance >>= fun _ =>
      isAt (.symbol .closeParen) >>= fun found =>
        (if found = true then pure [] else arguments expression function) >>= fun read =>
          expect (.symbol .closeParen) .closeArguments >>= fun _ => pure read := by
  refine congrArg (advance >>= ·) (funext fun _ => congrArg (isAt _ >>= ·) (funext ?_))
  rintro (_ | _) <;> rfl

theorem expressions_eq (expression : Parser Expr) (closing : Token) :
    expressions expression closing = isAt closing >>= fun found =>
      if found = true then pure []
      else expression >>= fun first => loop (itemStep fun _ => expression) [first] :=
  rfl

/-! ## Lists of expressions -/

section Lists

variable (lasting : Lasting domain) {expression twin : Parser Expr}
  (agree : Agree domain expression twin)

include lasting agree

theorem agree_chain {right rightTwin : BinaryOp → Parser Expr} (strength : Nat)
    (agreeRight : ∀ op, Agree domain (right op) (rightTwin op)) :
    Agree domain (chain strength expression right) (chain strength twin rightTwin) := by
  rw [chain_eq, chain_eq]
  apply Agree.bind lasting agree
  intro first
  apply Agree.loop lasting
  intro left
  apply Agree.current_bind
  intro token
  refine Agree.narrow ?_ fun _ => And.left
  split
  · exact Agree.bind lasting (.refl .advance) fun _ =>
      Agree.bind_same (agreeRight _) fun _ => .pure _
  · exact .pure none

omit agree in
/-- Items with commas between them, each read by a parser that may depend on what
was read before. -/
theorem agree_items {item itemTwin : List Expr → Parser Expr}
    (agreeItem : ∀ read, Agree domain (item read) (itemTwin read)) (first : Expr) :
    Agree domain (loop (itemStep item) [first]) (loop (itemStep itemTwin) [first]) := by
  apply Agree.loop lasting
  intro read
  apply Agree.bind lasting (.refl (.accept _))
  rintro (_ | _)
  · exact .pure none
  · exact Agree.bind_same (agreeItem read) fun _ => .pure _

omit lasting in
theorem agree_argument (function : String) (position : Nat) :
    Agree domain (argument expression function position) (argument twin function position) := by
  apply Agree.current_bind
  intro token
  split
  · exact .refl (Tame.takeRaw.bind fun _ => .pure _)
  · exact agree.narrow fun _ => And.left

theorem agree_arguments (function : String) :
    Agree domain (arguments expression function) (arguments twin function) := by
  rw [arguments_eq, arguments_eq]
  exact Agree.bind lasting (agree_argument agree function 0) fun first =>
    agree_items lasting (fun read => agree_argument agree function read.length) first

theorem agree_callArguments (function : String) :
    Agree domain (callArguments expression function) (callArguments twin function) := by
  apply Agree.bind lasting (.refl .advance)
  intro _
  apply Agree.isAt_bind
  rintro (_ | _)
  · exact Agree.bind lasting (agree_arguments lasting agree function) fun read =>
      Agree.expect_bind lasting _ _ (.pure read)
  · exact Agree.bind lasting (.pure []) fun read =>
      Agree.expect_bind lasting _ _ (.pure read)

theorem agree_expressions (closing : Token) :
    Agree domain (expressions expression closing) (expressions twin closing) := by
  rw [expressions_eq, expressions_eq]
  apply Agree.isAt_bind
  rintro (_ | _)
  · exact Agree.bind lasting agree fun first =>
      agree_items lasting (fun _ => agree) first
  · exact .pure []

end Lists

theorem agree_nameOrCall {expression twin : Parser Expr}
    (agree : Agree (Stream.Below count) expression twin) {token : Token}
    (inside : token ≠ .endOfInput) (spelling : String) :
    Agree (fun stream => stream.Below (count + 1) ∧ stream.current = token)
      (nameOrCall expression spelling) (nameOrCall twin spelling) := by
  apply Agree.advance_bind inside
  apply Agree.isAt_bind
  rintro (_ | _)
  · exact .pure _
  · exact Agree.bind_same (agree_callArguments (lasting_below count) agree spelling) fun _ => .pure _

/-! ## The rules for expressions -/

/-- Parsers of inner parts that agree with others. -/
structure Nested.Agree (domain : Stream → Prop) (inner twin : Nested) : Prop where
  expression : Parser.Agree domain inner.expression twin.expression
  conditional : Parser.Agree domain inner.conditional twin.conditional
  unary : Parser.Agree domain inner.unary twin.unary

/-- The parsers of the parts around given inner parts. -/
def around (inner : Nested) : Nested :=
  ⟨assignment inner, conditional inner, unary inner⟩

section Rules

variable {inner twin : Nested} (agree : inner.Agree (Stream.Below count) twin)

include agree

theorem agree_primary : Agree (Stream.Below (count + 1)) (primary inner) (primary twin) := by
  have lasting := lasting_below count
  apply Agree.current_bind
  intro token
  split
  · exact .refl (Tame.advance.bind fun _ => .pure _)
  · exact .refl (Tame.advance.bind fun _ => .pure _)
  · exact agree_nameOrCall agree.expression (by rintro ⟨⟩) _
  · exact Agree.advance_bind (by rintro ⟨⟩) (Agree.bind lasting agree.expression fun _ =>
      Agree.expect_bind lasting _ _ (.pure _))
  · exact Agree.advance_bind (by rintro ⟨⟩) (Agree.bind lasting
      (agree_expressions lasting agree.expression _) fun _ =>
        Agree.expect_bind lasting _ _ (.pure _))
  · exact .refl .refuse

theorem agree_suffix (target : Expr) :
    Agree (Stream.Below (count + 1)) (suffix inner target) (suffix twin target) := by
  have lasting := lasting_below count
  apply Agree.current_bind
  intro token
  split
  · exact Agree.advance_bind (by rintro ⟨⟩) (Agree.bind lasting
      (agree_expressions lasting agree.expression _) fun _ =>
        Agree.expect_bind lasting _ _ (.pure _))
  · apply Agree.advance_bind (by rintro ⟨⟩)
    apply Agree.current_bind
    intro next
    split
    · rename_i spelling
      have inside : Token.name spelling ≠ .endOfInput := by rintro ⟨⟩
      have member := agree_nameOrCall agree.expression inside spelling
      refine (member.bind_same fun _ => .pure _).narrow ?_
      rintro stream ⟨⟨standing, fits⟩, atName⟩
      exact ⟨⟨standing, Nat.lt_succ_of_lt fits⟩, atName⟩
    · exact .fail _
  · exact .refl (Tame.advance.bind fun _ => .pure _)
  · exact .refl (Tame.advance.bind fun _ => .pure _)
  · exact .pure none

theorem agree_unary : Agree (Stream.Below (count + 1)) (unary inner) (unary twin) := by
  apply Agree.current_bind
  intro token
  split
  · rename_i op isOperator
    have inside : token ≠ .endOfInput := by
      rintro rfl
      cases isOperator
    exact Agree.advance_bind inside (Agree.bind_same agree.unary fun _ => .pure _)
  · refine Agree.narrow ?_ fun _ => And.left
    exact Agree.bind (lasting_below _) (agree_primary agree) fun first =>
      Agree.loop (lasting_below _) (agree_suffix agree) first

theorem agree_sum : Agree (Stream.Below (count + 1)) (sum inner) (sum twin) := by
  have lasting := lasting_below (count + 1)
  have unary := agree_unary agree
  have power : Agree (Stream.Below (count + 1)) (power inner) (power twin) :=
    agree_chain lasting unary 8 fun _ => unary
  have product : Agree (Stream.Below (count + 1)) (product inner) (product twin) :=
    agree_chain lasting power 7 fun _ => power
  exact agree_chain lasting product 6 fun _ => product

theorem agree_collection :
    Agree (Stream.Below (count + 1)) (collection inner) (collection twin) := by
  have lasting := lasting_below (count + 1)
  have sum := agree_sum agree
  apply Agree.bind lasting (.refl (.accept _))
  rintro (_ | _)
  · exact sum
  · exact Agree.bind lasting sum fun _ => Agree.expect_bind lasting _ _
      (Agree.bind lasting sum fun _ => Agree.expect_bind lasting _ _ (.pure _))

theorem agree_disjunction :
    Agree (Stream.Below (count + 1)) (disjunction inner) (disjunction twin) := by
  have lasting := lasting_below (count + 1)
  have comparison : Agree (Stream.Below (count + 1)) (comparison inner) (comparison twin) := by
    apply agree_chain lasting (agree_sum agree) 5
    intro op
    split
    · exact agree_collection agree
    · exact agree_sum agree
  have equality : Agree (Stream.Below (count + 1)) (equality inner) (equality twin) :=
    agree_chain lasting comparison 4 fun _ => comparison
  have conjunction : Agree (Stream.Below (count + 1)) (conjunction inner) (conjunction twin) :=
    agree_chain lasting equality 3 fun _ => equality
  exact agree_chain lasting conjunction 2 fun _ => conjunction

theorem agree_conditional :
    Agree (Stream.Below (count + 1)) (conditional inner) (conditional twin) := by
  apply Agree.bind (lasting_below _) (agree_disjunction agree)
  intro condition
  refine Agree.accept_bind (by rintro ⟨⟩) ?_ (.pure _)
  have lasting := lasting_below count
  exact Agree.bind lasting agree.expression fun _ =>
    Agree.expect_bind lasting _ _ (Agree.bind_same agree.conditional fun _ => .pure _)

theorem agree_assignment :
    Agree (Stream.Below (count + 1)) (assignment inner) (assignment twin) := by
  apply Agree.bind (lasting_below _) (agree_conditional agree)
  intro target
  apply Agree.current_bind
  intro token
  split
  · rename_i op isOperator
    have inside : token ≠ .endOfInput := by
      rintro rfl
      cases isOperator
    exact Agree.advance_bind inside (Agree.bind_same agree.expression fun _ => .pure _)
  · exact .pure _

theorem agree_around : (around inner).Agree (Stream.Below (count + 1)) (around twin) :=
  ⟨agree_assignment agree, agree_conditional agree, agree_unary agree⟩

end Rules

/-- A parser that is made for the characters that are left. -/
theorem runOn_remaining {α : Type} (parser : Nat → Parser α) (stream : Stream) :
    (get >>= fun found => parser (found.remaining + 1)).runOn stream =
      (parser (stream.remaining + 1)).runOn stream :=
  rfl

/-- Bounds that exceed the characters left read the same, whatever is done where
the second one is reached. -/
theorem agree_nested (enough : count ≤ depth) (twinEnough : count ≤ twinDepth) (bottom : Nested) :
    (nested depth).Agree (Stream.Below count) (around^[twinDepth] bottom) := by
  induction depth generalizing count twinDepth with
  | zero =>
    have none : count = 0 := Nat.le_zero.mp enough
    subst none
    exact ⟨.of_tame .refuse, .of_tame .refuse, .of_tame .refuse⟩
  | succ depth ih =>
    cases count with
    | zero =>
      obtain ⟨expression, conditional, unary⟩ :=
        agree_around (ih (Nat.zero_le _) (Nat.zero_le twinDepth))
      exact ⟨.of_tame expression.tame, .of_tame conditional.tame, .of_tame unary.tame⟩
    | succ count =>
      cases twinDepth with
      | zero => cases twinEnough
      | succ twinDepth =>
        rw [Function.iterate_succ_apply']
        exact agree_around (ih (Nat.le_of_succ_le_succ enough)
          (Nat.le_of_succ_le_succ twinEnough))

/-- The bound on the depth of an expression is never reached. -/
theorem runOn_around_expression (standing : stream.Standing) (enough : stream.remaining < depth)
    (bottom : Nested) :
    (around^[depth] bottom).expression.runOn stream = expression.runOn stream := by
  have agree := (agree_nested (Nat.le_refl (stream.remaining + 1)) enough bottom).expression
  rw [expression, runOn_remaining fun depth => (nested depth).expression]
  exact (agree.agrees stream ⟨standing, Nat.lt_succ_self _⟩).symm

theorem nested_eq_iterate (depth : Nat) :
    nested depth = around^[depth] ⟨refuse, refuse, refuse⟩ := by
  induction depth with
  | zero => rfl
  | succ depth ih =>
    rw [Function.iterate_succ_apply', ← ih]
    rfl

/-- Any two bounds that exceed the characters left read the same. -/
theorem agree_nested_nested (enough : count ≤ depth) (twinEnough : count ≤ twinDepth) :
    (nested depth).Agree (Stream.Below count) (nested twinDepth) := by
  rw [nested_eq_iterate twinDepth]
  exact agree_nested enough twinEnough _

theorem tame_expression : Tame expression :=
  .get_bind fun _ => (agree_nested_nested (Nat.zero_le _) (Nat.zero_le 0)).expression.tame

/-- The parsers of inner parts without a bound on the depth. -/
def unbounded : Nested where
  expression := expression
  conditional := do (nested ((← get).remaining + 1)).conditional
  unary := do (nested ((← get).remaining + 1)).unary

theorem agree_unbounded (enough : count ≤ depth) :
    (nested depth).Agree (Stream.Below count) unbounded := by
  have tame := agree_nested_nested (Nat.zero_le depth) (Nat.zero_le 0)
  have both (stream : Stream) (below : stream.Below count) :
      (nested depth).Agree (Stream.Below (stream.remaining + 1)) (nested (stream.remaining + 1)) :=
    agree_nested_nested (Nat.le_trans below.fits enough) (Nat.le_refl _)
  constructor
  · refine ⟨tame.expression.tame, fun stream below => ?_⟩
    rw [unbounded, expression, runOn_remaining fun depth => (nested depth).expression]
    exact (both stream below).expression.agrees stream ⟨below.standing, Nat.lt_succ_self _⟩
  · refine ⟨tame.conditional.tame, fun stream below => ?_⟩
    rw [unbounded, runOn_remaining fun depth => (nested depth).conditional]
    exact (both stream below).conditional.agrees stream ⟨below.standing, Nat.lt_succ_self _⟩
  · refine ⟨tame.unary.tame, fun stream below => ?_⟩
    rw [unbounded, runOn_remaining fun depth => (nested depth).unary]
    exact (both stream below).unary.agrees stream ⟨below.standing, Nat.lt_succ_self _⟩

/-- Without a bound the inner parts are read by the rules around them. -/
theorem agree_around_unbounded : unbounded.Agree Stream.Standing (around unbounded) := by
  have tame (depth : Nat) := agree_nested_nested (Nat.zero_le depth) (Nat.zero_le 0)
  have agree (stream : Stream) := agree_around (agree_unbounded (Nat.le_refl stream.remaining))
  constructor
  · refine ⟨tame_expression, fun stream standing => ?_⟩
    rw [unbounded, expression, runOn_remaining fun depth => (nested depth).expression, nested_succ]
    exact (agree stream).expression.agrees stream ⟨standing, Nat.lt_succ_self _⟩
  · refine ⟨.get_bind fun _ => (tame _).conditional.tame, fun stream standing => ?_⟩
    rw [unbounded, runOn_remaining fun depth => (nested depth).conditional, nested_succ]
    exact (agree stream).conditional.agrees stream ⟨standing, Nat.lt_succ_self _⟩
  · refine ⟨.get_bind fun _ => (tame _).unary.tame, fun stream standing => ?_⟩
    rw [unbounded, runOn_remaining fun depth => (nested depth).unary, nested_succ]
    exact (agree stream).unary.agrees stream ⟨standing, Nat.lt_succ_self _⟩

theorem agree_unbounded_self (domain : Stream → Prop) : unbounded.Agree domain unbounded :=
  ⟨.refl agree_around_unbounded.expression.tame, .refl agree_around_unbounded.conditional.tame,
    .refl agree_around_unbounded.unary.tame⟩

/-- An expression is read by the rule for assignments, with expressions inside. -/
theorem runOn_expression (standing : stream.Standing) :
    expression.runOn stream = (assignment unbounded).runOn stream :=
  agree_around_unbounded.expression.agrees stream standing

/-! ## Statements without statements inside -/

theorem tame_optionalExpression (closing : Token) : Tame (optionalExpression closing) := by
  apply Tame.isAt_bind
  rintro (_ | _)
  · exact tame_expression.bind fun _ => .pure _
  · exact .pure none

theorem tame_endStatement : Tame endStatement := by
  apply Tame.current_bind
  intro token
  split
  · exact .advance
  · exact .pure ()
  · exact .pure ()
  · exact .fail _

theorem tame_skipStatement : Tame skipStatement := by
  apply Tame.loop
  intro _
  apply Tame.current_bind
  intro token
  split
  · exact Tame.advance.bind fun _ => .pure _
  · exact .pure _
  · exact .pure _
  · exact Tame.advance.bind fun _ => .pure _

theorem startsBehind_giveBack : Tame.StartsBehind giveBack := by
  have ended (value : Option Expr) : Tame (endStatement >>= fun _ => pure (Stmt.giveBack value)) :=
    tame_endStatement.bind fun _ => .pure _
  refine ⟨_, rfl, ?_⟩
  apply Tame.current_bind
  intro token
  split
  · exact (Tame.pure none).bind ended
  · exact (Tame.pure none).bind ended
  · exact (tame_expression.map some).bind ended

theorem tame_arguments (function : String) : Tame (arguments expression function) :=
  (agree_arguments (lasting_below 0) (.refl tame_expression) function).tame

theorem startsBehind_command (name : String) : Tame.StartsBehind (command name) := by
  have ended (read : List Expr) : Tame (endStatement >>= fun _ => pure (Stmt.command name read)) :=
    tame_endStatement.bind fun _ => .pure _
  refine ⟨_, rfl, ?_⟩
  apply Tame.isAt_bind
  rintro (_ | _)
  · exact (tame_arguments name).bind ended
  · exact (Tame.pure []).bind ended

theorem tame_expressionStatement : Tame expressionStatement := by
  apply tame_expression.bind
  intro value
  apply tame_endStatement.bind
  intro _
  split
  · exact .pure _
  · exact .pure _

theorem startsBehind_condition (word : Keyword) : Tame.StartsBehind (condition word) :=
  ⟨_, rfl, (Tame.expect _ _).bind fun _ => tame_expression.bind fun _ =>
    (Tame.expect _ _).bind fun _ => .pure _⟩

/-! ## Nested statements -/

section Statements

variable {inner twin : Parser Stmt}

/-- What is done behind a statement that was tried. -/
def recovered (read : List Stmt) : Except ScriptError Stmt → Parser (Option (List Stmt))
  | .ok value => return some (read ++ [value])
  | .error error => do
    report error
    skipStatement
    return some read

theorem recovering_eq (statement : Parser Stmt) (read : List Stmt) :
    recovering statement read = attempt statement >>= recovered read :=
  rfl

theorem Tame.recovering (tame : Tame inner) (read : List Stmt) : Tame (recovering inner read) := by
  rw [recovering_eq]
  exact tame.recover (fun _ => .pure _) (fun _ => rfl) fun _ =>
    tame_skipStatement.bind fun _ => .pure _

theorem Agree.recovering (agree : Agree domain inner twin) (read : List Stmt) :
    Agree domain (recovering inner read) (recovering twin read) where
  tame := agree.tame.recovering read
  agrees stream admitted := by
    rw [recovering_eq, recovering_eq, runOn_bind, runOn_bind, runOn_attempt, runOn_attempt,
      agree.agrees stream admitted]

theorem Agree.condition_bind {second secondTwin : Expr → Parser Stmt} (word : Keyword)
    {token : Token} (inside : token ≠ .endOfInput)
    (agree : ∀ test, Agree (Stream.Below count) (second test) (secondTwin test)) :
    Agree (fun stream => stream.Below (count + 1) ∧ stream.current = token)
      (condition word >>= second) (condition word >>= secondTwin) := by
  rw [condition, bind_assoc advance, bind_assoc advance]
  apply Agree.advance_bind inside
  refine Agree.bind (lasting_below count) (.refl ?_) agree
  exact (Tame.expect _ _).bind fun _ => tame_expression.bind fun _ =>
    (Tame.expect _ _).bind fun _ => .pure _

variable (agree : Agree (Stream.Below count) inner twin)

include agree

theorem agree_block {token : Token} (inside : token ≠ .endOfInput) :
    Agree (fun stream => stream.Below (count + 1) ∧ stream.current = token) (block inner)
      (block twin) := by
  apply Agree.advance_bind inside
  apply Agree.bind (lasting_below count)
  · apply Agree.loop (lasting_below count)
    intro read
    apply Agree.current_bind
    intro token
    split
    · exact .pure none
    · exact .pure none
    · exact (agree.recovering read).narrow fun _ => And.left
  · intro statements
    apply Agree.refl
    apply Tame.current_bind
    intro token
    split
    · exact .breakOff .block
    · exact Tame.advance.bind fun _ => .pure _

theorem agree_branch {token : Token} (inside : token ≠ .endOfInput) :
    Agree (fun stream => stream.Below (count + 1) ∧ stream.current = token) (branch inner)
      (branch twin) := by
  have lasting := lasting_below count
  apply Agree.condition_bind _ inside
  intro test
  apply Agree.bind lasting agree
  intro whenTrue
  apply Agree.bind lasting (.refl (.accept _))
  rintro (_ | _)
  · exact .pure _
  · exact agree.bind_same fun otherwise => .pure _

theorem agree_whileLoop {token : Token} (inside : token ≠ .endOfInput) :
    Agree (fun stream => stream.Below (count + 1) ∧ stream.current = token) (whileLoop inner)
      (whileLoop twin) :=
  Agree.condition_bind _ inside fun _ => agree.bind_same fun _ => .pure _

theorem agree_forLoop {token : Token} (inside : token ≠ .endOfInput) :
    Agree (fun stream => stream.Below (count + 1) ∧ stream.current = token) (forLoop inner)
      (forLoop twin) := by
  have lasting := lasting_below count
  apply Agree.advance_bind inside
  apply Agree.expect_bind lasting
  apply Agree.bind lasting (.refl (tame_optionalExpression _))
  intro init
  apply Agree.expect_bind lasting
  apply Agree.bind lasting (.refl (tame_optionalExpression _))
  intro test
  apply Agree.expect_bind lasting
  apply Agree.bind lasting (.refl (tame_optionalExpression _))
  intro step
  apply Agree.expect_bind lasting
  exact agree.bind_same fun body => .pure _

theorem agree_function {token : Token} (inside : token ≠ .endOfInput) :
    Agree (fun stream => stream.Below (count + 1) ∧ stream.current = token) (function inner)
      (function twin) := by
  have lasting := lasting_below count
  have body (spelling : String) :
      Agree (Stream.Below count)
        (isAt (.symbol .openBrace) >>= fun found =>
          if found = true then return Stmt.function spelling (← block inner)
          else fail (.missing .functionBody))
        (isAt (.symbol .openBrace) >>= fun found =>
          if found = true then return Stmt.function spelling (← block twin)
          else fail (.missing .functionBody)) := by
    rw [isAt_bind_eq, isAt_bind_eq]
    apply Agree.current_bind
    intro token
    cases isBrace : token == .symbol .openBrace with
    | false => exact .fail _
    | true =>
      have isBrace := eq_of_beq isBrace
      subst isBrace
      have block : Agree (fun stream => stream.Below (count + 1) ∧
          stream.current = .symbol .openBrace) (block inner) (block twin) :=
        agree_block agree (by rintro ⟨⟩)
      refine (block.bind_same fun _ => .pure _).narrow ?_
      rintro stream ⟨⟨standing, fits⟩, atBrace⟩
      exact ⟨⟨standing, Nat.lt_succ_of_lt fits⟩, atBrace⟩
  apply Agree.advance_bind inside
  apply Agree.current_bind
  intro name
  split
  · refine Agree.narrow ?_ fun _ => And.left
    apply Agree.bind lasting (.refl .advance)
    intro _
    apply Agree.bind lasting (.refl (.accept _))
    rintro (_ | _)
    · exact body _
    · exact Agree.expect_bind lasting _ _ (body _)
  · exact .fail _

theorem agree_statementAround :
    Agree (Stream.Below (count + 1)) (statementAround inner) (statementAround twin) := by
  apply Agree.current_bind
  intro token
  split
  · exact agree_branch agree (by rintro ⟨⟩)
  · exact agree_whileLoop agree (by rintro ⟨⟩)
  · exact agree_forLoop agree (by rintro ⟨⟩)
  · exact agree_function agree (by rintro ⟨⟩)
  · exact .refl startsBehind_giveBack.tame
  · exact agree_block agree (by rintro ⟨⟩)
  · exact .refl (Tame.advance.bind fun _ => tame_endStatement.bind fun _ => .pure _)
  · exact .refl (Tame.advance.bind fun _ => tame_endStatement.bind fun _ => .pure _)
  · exact .refl (Tame.advance.bind fun _ => .pure _)
  · refine .refl (.get_bind fun stream => ?_)
    split
    · exact (startsBehind_command _).tame
    · exact tame_expressionStatement
  · exact .refl tame_expressionStatement

end Statements

/-- Bounds that exceed the characters left read the same, whatever is done where
the second one is reached. -/
theorem agree_statementUpTo (enough : count ≤ depth) (twinEnough : count ≤ twinDepth)
    (bottom : Parser Stmt) :
    Agree (Stream.Below count) (statementUpTo depth) (statementAround^[twinDepth] bottom) := by
  induction depth generalizing count twinDepth with
  | zero =>
    have none : count = 0 := Nat.le_zero.mp enough
    subst none
    exact .of_tame .refuse
  | succ depth ih =>
    cases count with
    | zero =>
      exact .of_tame
        (agree_statementAround (ih (Nat.zero_le _) (Nat.zero_le twinDepth))).tame
    | succ count =>
      cases twinDepth with
      | zero => cases twinEnough
      | succ twinDepth =>
        rw [Function.iterate_succ_apply']
        exact agree_statementAround (ih (Nat.le_of_succ_le_succ enough)
          (Nat.le_of_succ_le_succ twinEnough))

/-- The bound on the depth of a statement is never reached. -/
theorem runOn_statementAround (standing : stream.Standing) (enough : stream.remaining < depth)
    (bottom : Parser Stmt) :
    (statementAround^[depth] bottom).runOn stream = statement.runOn stream := by
  have agree := agree_statementUpTo (Nat.le_refl (stream.remaining + 1)) enough bottom
  rw [statement, runOn_remaining statementUpTo]
  exact (agree.agrees stream ⟨standing, Nat.lt_succ_self _⟩).symm

theorem tame_statement : Tame statement :=
  .get_bind fun _ => (agree_statementUpTo (Nat.zero_le _) (Nat.zero_le 0) refuse).tame

/-- A statement is read by the rule for statements, with statements inside. -/
theorem runOn_statement (standing : stream.Standing) :
    statement.runOn stream = (statementAround statement).runOn stream := by
  have inner : Agree (Stream.Below stream.remaining) statement
      (statementAround^[stream.remaining] refuse) := by
    refine ⟨tame_statement, fun other below => ?_⟩
    exact (runOn_statementAround below.standing below.fits refuse).symm
  rw [(agree_statementAround inner).agrees stream ⟨standing, Nat.lt_succ_self _⟩,
    ← Function.iterate_succ_apply' statementAround]
  exact (runOn_statementAround standing (Nat.lt_succ_self _) refuse).symm

/-! ## Scripts -/

theorem tame_script : Tame script := by
  apply Tame.loop
  intro read
  apply Tame.current_bind
  intro token
  split
  · exact .pure none
  · exact .report_bind .strayBrace (Tame.advance.bind fun _ => .pure _)
  · exact tame_statement.recovering read

end EventScript.Parser
