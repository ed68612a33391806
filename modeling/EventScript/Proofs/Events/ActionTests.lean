import EventScript.Proofs.Events.Guards
import EventScript.Proofs.Printing.Display
import EventScript.Session

/-!
# Tests of the event being handled

A condition made of flags of events and of what a player says is a condition on
the event being handled.  In generated code it becomes a condition on the name
of the event and on the text, and that text is read back here and evaluated.

An operand of `!` is an atom of the script, but its code may be a comparison
without parentheses, and `!` binds more tightly than a comparison: it is then
read as part of the left operand, and the comparison of a truth value with a
text fails.  Everywhere else the code holds if and only if the condition does.
-/

namespace EventScript

variable {condition : Expr} {place : Section}

/-! ## Conditions on the event -/

namespace Expr

/-- Conditions made of flags, of what a player says, `!`, `&&`, `||` and
parentheses. -/
inductive ActionTest : Expr → Prop
  | flag {spelling : String} {action : Action} (found : Action.find? spelling = some action) :
      ActionTest (name spelling)
  | chat {said : String} (noMark : '#' ∉ said.toList) :
      ActionTest (call "playersays" [text said])
  | grouped {inner : Expr} (inside : ActionTest inner) : ActionTest (grouped inner)
  | negated {operand : Expr} (inside : ActionTest operand) : ActionTest (unary .not operand)
  | both {left right : Expr} (testLeft : ActionTest left) (testRight : ActionTest right) :
      ActionTest (binary .and left right)
  | either {left right : Expr} (testLeft : ActionTest left) (testRight : ActionTest right) :
      ActionTest (binary .or left right)

/-- Whether a condition holds while an event is handled; `spoken` is what the
player said, if the event is that one did. -/
def holdsIn (event spoken : String) : Expr → Bool
  | name spelling => spelling == event
  | call _ [text said] => event == Action.chat.name && spoken == said
  | grouped inner => inner.holdsIn event spoken
  | unary .not operand => !operand.holdsIn event spoken
  | binary .and left right => left.holdsIn event spoken && right.holdsIn event spoken
  | binary .or left right => left.holdsIn event spoken || right.holdsIn event spoken
  | _ => false

/-- Whether the code for a condition is a comparison without parentheses, perhaps
behind negations. -/
def isBareComparison (place : Section) : Expr → Bool
  | name _ => place == .dispatcher || place == .prologue
  | call _ _ =>
    match place with
    | .event current => current.name == Action.chat.name
    | _ => false
  | unary .not operand => operand.isBareComparison place
  | _ => false

/-- Whether a negation somewhere in a condition stands in front of the code of a
comparison without parentheses. -/
def negatesComparison (place : Section) : Expr → Bool
  | grouped inner => inner.negatesComparison place
  | unary _ operand => operand.isBareComparison place || operand.negatesComparison place
  | binary _ left right => left.negatesComparison place || right.negatesComparison place
  | _ => false

/-- Whether the code for a condition holds while an event is handled.  The
negation of a comparison without parentheses never does. -/
def holdsAsCode (place : Section) (event spoken : String) : Expr → Bool
  | grouped inner => inner.holdsAsCode place event spoken
  | unary .not operand =>
    !operand.isBareComparison place && !operand.holdsAsCode place event spoken
  | binary .and left right =>
    left.holdsAsCode place event spoken && right.holdsAsCode place event spoken
  | binary .or left right =>
    left.holdsAsCode place event spoken || right.holdsAsCode place event spoken
  | atom => atom.holdsIn event spoken

/-- Without such a negation the code holds if and only if the condition does. -/
theorem ActionTest.holdsAsCode_eq (tested : ActionTest condition)
    (apart : condition.negatesComparison place = false) (event spoken : String) :
    condition.holdsAsCode place event spoken = condition.holdsIn event spoken := by
  induction tested with
  | flag | chat => rfl
  | grouped _ ih => exact ih apart
  | negated _ ih =>
    rw [negatesComparison, Bool.or_eq_false_iff] at apart
    rw [holdsAsCode, holdsIn, apart.1, ih apart.2]
    rfl
  | both _ _ holdsLeft holdsRight | either _ _ holdsLeft holdsRight =>
    rw [negatesComparison, Bool.or_eq_false_iff] at apart
    rw [holdsAsCode, holdsIn, holdsLeft apart.1, holdsRight apart.2]

end Expr

/-! ## Values of generated code -/

/-- Values of conditions of generated code. -/
inductive CodeValue where
  | truth (holds : Bool)
  | text (content : String)
  deriving DecidableEq

/-- Whether a value counts as true. -/
def CodeValue.isTrue : CodeValue → Bool
  | truth holds => holds
  | text content => content != ""

/-- The value of a variable or a constant while an event is handled. -/
def nameValue? (event spoken spelling : String) : Option CodeValue :=
  if spelling == "_actionName" then some (.text event)
  else if spelling == "text" then some (.text spoken)
  else if spelling == "true" then some (.truth true)
  else if spelling == "false" then some (.truth false)
  else none

/-- The value of a condition of generated code while an event is handled. -/
def Expr.value? (event spoken : String) : Expr → Option CodeValue
  | .text content => some (.text content)
  | .name spelling => nameValue? event spoken spelling
  | .grouped inner => inner.value? event spoken
  | .unary .not operand => do
    let value ← operand.value? event spoken
    return .truth !value.isTrue
  | .binary .equal left right => do
    let left ← left.value? event spoken
    let right ← right.value? event spoken
    return .truth (left == right)
  | .binary .and left right => do
    let left ← left.value? event spoken
    let right ← right.value? event spoken
    return .truth (left.isTrue && right.isTrue)
  | .binary .or left right => do
    let left ← left.value? event spoken
    let right ← right.value? event spoken
    return .truth (left.isTrue || right.isTrue)
  | _ => none

/-! ## Reading the code -/

/-- What a player says, as a condition of generated code. -/
def Section.chatTree (place : Section) (said : String) : Expr :=
  let compared := Expr.binary .equal (.name "text") (.text said)
  match place with
  | event current => if current.name == Action.chat.name then compared else .name "false"
  | dispatcher | prologue =>
    .grouped (.binary .and (.binary .equal (.name "_actionName") (.text Action.chat.name)) compared)
  | _ => .name "false"

namespace Expr

/-- How the text of an expression is read behind `!`. -/
def behindNot : Expr → Expr
  | binary op left right => binary op left.behindNot right
  | operand => unary .not operand

/-- How the code for a condition is read. -/
def asRead (place : Section) : Expr → Expr
  | name spelling =>
    match Action.find? spelling with
    | some action => place.flagTree action
    | none => name spelling
  | call _ [text said] => place.chatTree said
  | grouped inner => grouped (inner.asRead place)
  | unary _ operand => (operand.asRead place).behindNot
  | binary op left right => binary op (left.asRead place) (right.asRead place)
  | other => other

theorem code_behindNot (expr : Expr) : expr.behindNot.code = "!" ++ expr.code := by
  cases expr with
  | binary op left right =>
    change left.behindNot.code ++ " " ++ op.spelling ++ " " ++ right.code =
      "!" ++ (left.code ++ " " ++ op.spelling ++ " " ++ right.code)
    rw [code_behindNot left]
    simp only [String.append_assoc]
  | _ => rfl

end Expr

theorem code_chatTree (place : Section) (said : String) :
    (place.chatTree said).code = place.chatTest (Text.quote said) := by
  have compared : (Expr.binary .equal (.name "text") (.text said)).code =
      "text == " ++ Text.quote said :=
    rfl
  have shared : (Expr.grouped (.binary .and
      (.binary .equal (.name "_actionName") (.text Action.chat.name))
        (.binary .equal (.name "text") (.text said)))).code =
      "(_actionName == \"" ++ Action.chat.name ++ "\" && text == " ++ Text.quote said ++ ")" := by
    change "(" ++ ("_actionName" ++ " " ++ "==" ++ " " ++ Text.quote Action.chat.name ++ " " ++
      "&&" ++ " " ++ ("text" ++ " " ++ "==" ++ " " ++ Text.quote said)) ++ ")" = _
    rw [quote_of_isWord (isWord_of_mem_table (by decide +kernel))]
    simp only [String.append_assoc, ← String.toList_inj, String.toList_append]
    rfl
  cases place with
  | event current =>
    unfold Section.chatTree Section.chatTest
    dsimp only
    split
    · exact compared
    · rfl
  | dispatcher | prologue => exact shared
  | global | create => rfl

theorem printable_chatTree (place : Section) (said : String) :
    (place.chatTree said).Printable := by
  have constant : (Expr.name "false").Printable := ⟨.name (by decide), trivial⟩
  have compared := @printable_comparison "text" (by decide) said
  have shared := @printable_comparison "_actionName" (by decide) Action.chat.name
  cases place with
  | event current =>
    unfold Section.chatTree
    dsimp only
    split
    · exact compared
    · exact constant
  | dispatcher | prologue =>
    refine ⟨.grouped (.operation (by decide) shared.shaped ?_ compared.shaped ?_),
      shared.writable, compared.writable⟩
    all_goals simp [Expr.level, BinaryOp.strength]
  | global | create => exact constant

namespace Expr

variable {tree : Expr} {bare : Bool}

/-- The code for a condition is the text of what it is read as. -/
theorem ActionTest.render_eq (tested : ActionTest condition) (shaped : condition.Shaped)
    (site : Site) : render site .condition condition = pure (condition.asRead site.place).code := by
  rw [render]
  induction tested with
  | @flag spelling action found =>
    rw [renderWith, asRead, found, code_flagTree _ (Action.mem_table_of_find? found)]
    simp [Site.nameCode, ExprContext.condition, found]
  | chat noMark =>
    rw [renderWith, asRead, code_chatTree, renderAllWith, renderWith, renderAllWith,
      expand_of_no_mark site noMark]
    rfl
  | grouped _ ih =>
    cases shaped with
    | grouped inside =>
      rw [renderWith, ih inside]
      rfl
  | negated _ ih =>
    cases shaped with
    | prefixed _ inside tight =>
      rw [renderWith, ih inside, asRead, code_behindNot]
      simp only [unaryCode_of_tight tight]
      rfl
    | postfixed behind _ _ => cases behind
  | both _ _ renderLeft renderRight | either _ _ renderLeft renderRight =>
    cases shaped with
    | assignment loose _ _ _ => cases loose
    | operation _ shapedLeft _ shapedRight _ =>
      rw [renderWith_plainOperator _ site rfl, renderLeft shapedLeft, renderRight shapedRight]
      rfl

/-! ## Operands of negations -/

/-- What the code of an operand of `!` is read as: a comparison with a text, or
an expression that binds as tightly as the operand. -/
inductive ReadOperand : Bool → Expr → Prop
  | comparison {left : Expr} {content : String} (tight : 9 ≤ left.level) :
      ReadOperand true (binary .equal left (text content))
  | operand {tree : Expr} (tight : 9 ≤ tree.level) : ReadOperand false tree

theorem behindNot_of_tight (tight : 9 ≤ tree.level) : tree.behindNot = unary .not tree := by
  cases tree with
  | binary op _ _ =>
    have bounded := op.strength_le
    simp only [level] at tight
    omega
  | _ => rfl

/-- A negation of an operand is an operand of the same kind. -/
theorem ReadOperand.behindNot (operand : ReadOperand bare tree) :
    ReadOperand bare tree.behindNot := by
  cases operand with
  | comparison tight =>
    rw [Expr.behindNot, behindNot_of_tight tight]
    exact .comparison (Nat.le_refl 9)
  | operand tight =>
    rw [behindNot_of_tight tight]
    exact .operand (Nat.le_refl 9)

theorem Printable.not (printable : tree.Printable) (tight : 9 ≤ tree.level) :
    (unary .not tree).Printable :=
  ⟨.prefixed rfl printable.shaped tight, printable.writable, by simp⟩

theorem ReadOperand.printable_behindNot (operand : ReadOperand bare tree)
    (printable : tree.Printable) : tree.behindNot.Printable := by
  cases operand with
  | comparison tight =>
    rw [Expr.behindNot, behindNot_of_tight tight]
    obtain ⟨shaped, writable⟩ := printable
    cases shaped with
    | assignment loose _ _ _ => cases loose
    | operation tighter shapedLeft _ shapedRight tightRight =>
      have negated := Printable.not ⟨shapedLeft, writable.1⟩ tight
      exact ⟨.operation tighter negated.shaped (by simp [level, BinaryOp.strength,
        UnaryOp.isPostfix]) shapedRight tightRight, negated.writable, writable.2⟩
  | operand tight =>
    rw [behindNot_of_tight tight]
    exact printable.not tight

/-- The negation of a comparison compares a truth value with a text and fails. -/
theorem ReadOperand.value?_behindNot (operand : ReadOperand bare tree) {event spoken : String}
    {holds : Bool} (value : tree.value? event spoken = some (.truth holds)) :
    tree.behindNot.value? event spoken = some (.truth (!bare && !holds)) := by
  cases operand with
  | @comparison left content tight =>
    rw [Expr.behindNot, behindNot_of_tight tight]
    cases leftValue : left.value? event spoken with
    | none => simp [value?, leftValue] at value
    | some found => simp [value?, leftValue]
  | operand tight =>
    rw [behindNot_of_tight tight]
    simp [value?, value, CodeValue.isTrue]

theorem ActionTest.readOperand (tested : ActionTest condition) (shaped : condition.Shaped)
    (tight : 9 ≤ condition.level) (place : Section) :
    ReadOperand (condition.isBareComparison place) (condition.asRead place) := by
  induction tested with
  | flag found =>
    rw [asRead, found]
    cases place with
    | dispatcher | prologue => exact .comparison (by simp [level])
    | event | global | create => exact .operand (by simp [Section.flagTree, level])
  | chat noMark =>
    rw [asRead]
    cases place with
    | event current =>
      rw [isBareComparison, Section.chatTree]
      cases current.name == Action.chat.name with
      | true => exact .comparison (by simp [level])
      | false => exact .operand (by simp [level])
    | dispatcher | prologue | global | create =>
      exact .operand (by simp [Section.chatTree, level])
  | grouped => exact .operand (by simp [asRead, level])
  | negated _ ih =>
    cases shaped with
    | prefixed _ inside tightInside => exact (ih inside tightInside).behindNot
    | postfixed behind _ _ => cases behind
  | both | either => simp [level, BinaryOp.strength] at tight

/-! ## The value of the code -/

theorem ReadOperand.four_le_level (operand : ReadOperand bare tree) : 4 ≤ tree.level := by
  cases operand with
  | comparison => simp [level, BinaryOp.strength]
  | operand tight => omega

/-- The code for a condition binds as tightly as the operators around it need. -/
theorem ActionTest.level_le_asRead (tested : ActionTest condition) (shaped : condition.Shaped)
    (place : Section) {bound : Nat} (tight : bound ≤ condition.level) (bounded : bound ≤ 4) :
    bound ≤ (condition.asRead place).level := by
  by_cases isOperand : 9 ≤ condition.level
  · exact Nat.le_trans bounded (tested.readOperand shaped isOperand place).four_le_level
  · cases tested with
    | both | either => exact tight
    | negated => simp [level, UnaryOp.isPostfix] at isOperand
    | _ => simp [level] at isOperand

/-- The code for a condition can be read back. -/
theorem ActionTest.printable_asRead (tested : ActionTest condition) (shaped : condition.Shaped)
    (place : Section) : (condition.asRead place).Printable := by
  induction tested with
  | flag found =>
    rw [asRead, found]
    exact (printable_flagTree place _).1
  | chat => exact printable_chatTree place _
  | grouped _ ih =>
    cases shaped with
    | grouped inside =>
      have printable := ih inside
      exact ⟨.grouped printable.shaped, printable.writable⟩
  | negated inside ih =>
    cases shaped with
    | prefixed _ shapedInside tight =>
      exact (inside.readOperand shapedInside tight place).printable_behindNot
        (ih shapedInside)
    | postfixed behind _ _ => cases behind
  | both testLeft testRight printableLeft printableRight
  | either testLeft testRight printableLeft printableRight =>
    cases shaped with
    | assignment loose _ _ _ => cases loose
    | operation tighter shapedLeft tightLeft shapedRight tightRight =>
      have left := printableLeft shapedLeft
      have right := printableRight shapedRight
      exact ⟨.operation tighter
        left.shaped (testLeft.level_le_asRead shapedLeft place tightLeft (by decide))
        right.shaped (testRight.level_le_asRead shapedRight place tightRight (by decide)),
        left.writable, right.writable⟩

end Expr

/-- Whether code of a section runs while an event is handled. -/
def Section.Handles (place : Section) (event : String) : Prop :=
  match place with
  | .event current => current.name = event
  | dispatcher => True
  | prologue => True
  | _ => False

theorem value?_flagTree {event : String} (handles : place.Handles event) (spoken : String)
    (action : Action) :
    (place.flagTree action).value? event spoken = some (.truth (action.name == event)) := by
  cases place with
  | event current =>
    obtain rfl := handles
    rw [Section.flagTree, BEq.comm]
    cases action.name == current.name <;> rfl
  | dispatcher | prologue =>
    rw [BEq.comm]
    simp [Section.flagTree, Expr.value?, nameValue?, Bool.beq_eq_decide_eq]
  | global | create => exact handles.elim

theorem value?_chatTree {event : String} (handles : place.Handles event) (spoken said : String) :
    (place.chatTree said).value? event spoken =
      some (.truth (event == Action.chat.name && spoken == said)) := by
  cases place with
  | event current =>
    obtain rfl := handles
    rw [Section.chatTree]
    cases current.name == Action.chat.name with
    | true => simp [Expr.value?, nameValue?, Bool.beq_eq_decide_eq]
    | false => rfl
  | dispatcher | prologue =>
    simp [Section.chatTree, Expr.value?, nameValue?, CodeValue.isTrue, Bool.beq_eq_decide_eq]
  | global | create => exact handles.elim

namespace Expr

theorem ActionTest.value?_asRead (tested : ActionTest condition) (shaped : condition.Shaped)
    {event : String} (handles : place.Handles event) (spoken : String) :
    (condition.asRead place).value? event spoken =
      some (.truth (condition.holdsAsCode place event spoken)) := by
  induction tested with
  | flag found =>
    rw [asRead, found]
    dsimp only
    rw [value?_flagTree handles, Action.name_of_find? found]
    rfl
  | chat => exact value?_chatTree handles spoken _
  | grouped _ ih =>
    cases shaped with
    | grouped inside => exact ih inside
  | negated inside ih =>
    cases shaped with
    | prefixed _ shapedInside tight =>
      exact (inside.readOperand shapedInside tight place).value?_behindNot
        (ih shapedInside)
    | postfixed behind _ _ => cases behind
  | both _ _ valueLeft valueRight | either _ _ valueLeft valueRight =>
    cases shaped with
    | assignment loose _ _ _ => cases loose
    | operation _ shapedLeft _ shapedRight _ =>
      rw [asRead, value?, valueLeft shapedLeft, valueRight shapedRight]
      rfl

/-- The code for a condition on the event can be read back, and it holds as
`holdsAsCode` says.  If no negation stands in front of a comparison without
parentheses, it holds if and only if the condition does. -/
theorem ActionTest.value?_of_expression {condition : Expr} (tested : ActionTest condition)
    (shaped : condition.Shaped) (session : Session) {event : String}
    (handles : session.place.Handles event) (spoken : String) :
    ∃ tree, Expr.parse (session.expression .condition condition).1 = .ok tree ∧
      tree.value? event spoken =
        some (.truth (condition.holdsAsCode session.place event spoken)) ∧
      (condition.negatesComparison session.place = false →
        tree.value? event spoken = some (.truth (condition.holdsIn event spoken))) := by
  have printable := tested.printable_asRead shaped session.place
  have value := tested.value?_asRead shaped handles spoken
  refine ⟨condition.asRead session.place, ?_, value, fun apart => ?_⟩
  · rw [Session.expression, Session.perform, tested.render_eq shaped]
    exact printable.shaped.parse_written printable.writable
  · rw [value, tested.holdsAsCode_eq apart]

set_option maxRecDepth 20000 in
/-- Negations of a flag in parentheses and of what a player says, which the
dispatcher tests in parentheses. -/
theorem value?_of_expression_chat :
    let condition := binary .and (unary .not (grouped (name "playerenters")))
      (unary .not (call "playersays" [text "hi"]))
    let session : Session := { options := {}, place := .dispatcher }
    Expr.parse "!(playerenters)&&!playersays(\"hi\")" = .ok condition ∧
      condition.negatesComparison .dispatcher = false ∧
      ∃ tree, Expr.parse (session.expression .condition condition).1 = .ok tree ∧
        tree.value? "playerchats" "hello" = some (.truth true) := by
  have tested : ActionTest (binary .and (unary .not (grouped (name "playerenters")))
      (unary .not (call "playersays" [text "hi"]))) :=
    .both (.negated (.grouped (.flag rfl))) (.negated (.chat (by decide)))
  have parsed : Expr.parse "!(playerenters)&&!playersays(\"hi\")" =
      .ok (binary .and (unary .not (grouped (name "playerenters")))
        (unary .not (call "playersays" [text "hi"]))) := by
    rfl
  intro condition session
  have handles : session.place.Handles "playerchats" := trivial
  obtain ⟨tree, read, -, value⟩ :=
    tested.value?_of_expression (Expr.shaped_of_parse parsed) session handles "hello"
  exact ⟨parsed, rfl, tree, read, value rfl⟩

set_option maxRecDepth 20000 in
/-- The negation of a flag in the dispatcher is read as the comparison of a truth
value with a name.  It fails for an event for which the condition holds. -/
theorem negated_flag_in_dispatcher :
    Expr.parse "!playerenters" = .ok (unary .not (name "playerenters")) ∧
      (({ options := {}, place := .dispatcher } : Session).expression .condition
        (unary .not (name "playerenters"))).1 = "!_actionName == \"playerenters\"" ∧
      Expr.parse "!_actionName == \"playerenters\"" =
        .ok (binary .equal (unary .not (name "_actionName")) (text "playerenters")) ∧
      (binary .equal (unary .not (name "_actionName")) (text "playerenters")).value?
        "playerchats" "" = some (.truth false) ∧
      (unary .not (name "playerenters")).holdsIn "playerchats" "" = true := by
  refine ⟨by rfl, ?_, by rfl, rfl, rfl⟩
  decide +kernel

end Expr

end EventScript
