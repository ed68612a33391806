import EventScript.Expr.Actions
import EventScript.Proofs.Grammar.Subterms
import EventScript.Render.Property
import Mathlib.Logic.Relation

/-!
# Where code is generated

A spot is an expression with what surrounds it while code is generated for it.
The code for a spot is put together from the code for its parts: the operands
of its outermost construction, and for a text the expressions inside its
property codes.  What code is generated for a statement is found by following
parts from the spots that the statement begins with.
-/

namespace EventScript

open scoped List

/-! ## Operands -/

/-- What surrounds the operands of an operator.  Some operators are written as
calls. -/
def ExprContext.operands (context : ExprContext) : BinaryOp → ExprContext
  | .pow => context.arguments
  | .mod => context.arguments
  | .isIn => context.arguments
  | _ => context

namespace Expr

/-- The bounds of a range; other expressions stand for themselves. -/
def bounds : Expr → List Expr
  | range low high => [low, high]
  | other => [other]

/-- The operands of an operator for which code is generated. -/
def operandsOf (op : BinaryOp) (left right : Expr) : List Expr :=
  left :: if op = .isIn then right.bounds else [right]

/-- The function that sets a flag. -/
def flagFunction : String :=
  "set"

/-- An argument that names a variable, unless a text is the name itself. -/
def asVariable : Expr → List Expr
  | text _ => []
  | other => [other]

end Expr

namespace Builtin

/-- The arguments of a call for which code is generated. -/
def written : Builtin → List Expr → List Expr
  | variableTemplate least _, first :: others =>
    (if least ≤ (first :: others).length then first.asVariable else [first]) ++ others
  | setFlag, first :: _ => first.asVariable
  | clearFlag, first :: _ => first.asVariable
  | setProperty owner, .text code :: second :: others =>
    if (propertyTarget? code owner).isSome then [second] else .text code :: second :: others
  | chatTest, first :: _ => [first]
  | placeBaddy least, kind :: x :: y :: others =>
    (if least ≤ (kind :: x :: y :: others).length ∧
        (Argument.mk kind (pure "")).baddyNumber?.isSome then [] else [kind]) ++
      x :: y :: others
  | _, arguments => arguments

end Builtin

/-- The arguments of a call for which code is generated, by the name of the
function. -/
def writtenArguments (function : String) (arguments : List Expr) : List Expr :=
  match Builtin.find? function with
  | some builtin => builtin.written arguments
  | none => arguments

/-! ## Spots -/

/-- An expression with what surrounds it. -/
structure Spot where
  context : ExprContext
  position : Position
  expr : Expr

/-- The spot of the expression that a text is read as, if it can be read. -/
def Spot.ofSource (source : String) : List Spot :=
  match Expr.parse source with
  | .ok expr => [⟨{}, .free, expr⟩]
  | .error _ => []

/-- The spot of the expression by which a property code addresses its owner, if
the owner is found out when the code runs. -/
def Spot.ofOwner (argument : Option String) : List Spot :=
  match argument.map Text.trim with
  | none => []
  | some "-1" => []
  | some "0" => []
  | some owner => if owner.toList.all Char.isDigit then [] else ofSource owner

/-- The spots of the expressions inside one segment of a property string. -/
def Segment.spots : Segment → List Spot
  | text _ => []
  | code letter slot argument =>
    match letter, argument with
    | 'v', some source => Spot.ofSource source
    | 's', some source => Spot.ofSource source
    | 't', some source => Spot.ofSource source
    | 'e', some source =>
      match argumentParts source with
      | [start, length, content] =>
        Spot.ofSource start ++ Spot.ofSource length ++ [⟨{}, .free, .text content⟩]
      | _ => []
    | 'w', _ =>
      match argument.map Text.trim with
      | none => []
      | some "-1" => []
      | some weapon => Spot.ofSource weapon
    | _, _ => if (slotProperty? letter slot).isSome then Spot.ofOwner argument else []

namespace Spot

/-- Spots of arguments, indices and members of a list. -/
def arguments (spot : Spot) (items : List Expr) : List Spot :=
  items.map fun item => ⟨spot.context.arguments, .free, item⟩

/-- The spots from which the outermost construction of an expression is put
together. -/
def operands (spot : Spot) : List Spot :=
  match spot.expr with
  | .number _ => []
  | .text _ => []
  | .name _ => []
  | .list items => spot.arguments items
  | .range low high => spot.arguments [low, high]
  | .grouped inner => [⟨spot.context, .free, inner⟩]
  | .unary _ operand => [⟨spot.context, .free, operand⟩]
  | .binary op left right =>
    (Expr.operandsOf op left right).map fun operand =>
      ⟨spot.context.operands op, .free, operand⟩
  | .conditional condition whenTrue whenFalse =>
    ⟨spot.context.tested, .free, condition⟩ :: spot.arguments [whenTrue, whenFalse]
  | .call function arguments =>
    match spot.position with
    | .free => spot.arguments (writtenArguments function arguments)
    | .member => spot.arguments arguments
  | .index target indices =>
    ⟨spot.context, spot.position, target⟩ :: spot.arguments indices
  | .dotted [] => []
  | .dotted (head :: members) =>
    ⟨spot.context, .free, head⟩ ::
      members.map fun member => ⟨spot.context.suppressed, .member, member⟩

/-- The spots inside the property codes of a text. -/
def embedded (spot : Spot) : List Spot :=
  match spot.expr with
  | .text value => (segments value).flatMap Segment.spots
  | _ => []

/-- The spots from which the code for a spot is put together. -/
def parts (spot : Spot) : List Spot :=
  spot.operands ++ spot.embedded

/-- Code for one spot is generated as part of the code for another. -/
def Reaches : Spot → Spot → Prop :=
  Relation.ReflTransGen fun whole part => part ∈ whole.parts

/-- The events whose flags the code for a spot tests itself, not in its
parts. -/
def tests (spot : Spot) : List Action :=
  match spot.position, spot.expr with
  | .free, .name spelling =>
    if spot.context.inRegion then (Action.find? spelling).toList else []
  | .free, .call function (_ :: _) =>
    if function == Expr.chatFunction then [Action.chat] else []
  | _, _ => []

/-- A spot where a flag is set, so that the code for it calls the
dispatcher. -/
def SetsFlag (spot : Spot) : Prop :=
  spot.position = .free ∧
    ∃ first others, spot.expr = .call Expr.flagFunction (first :: others)

/-- The code for a spot, given the code for texts. -/
def codeWith (text : String → Emission String) (site : Site) (spot : Spot) : Emission String :=
  renderWith text site spot.context spot.position spot.expr

/-- The code for a spot. -/
def code (site : Site) (spot : Spot) : Emission String :=
  spot.codeWith (expand site) site

end Spot

/-! ## Operands are smaller -/

/-- Arguments are left out, but none is written twice or out of order. -/
theorem Builtin.written_sublist (builtin : Builtin) (arguments : List Expr) :
    builtin.written arguments <+ arguments := by
  have variable_sublist (argument : Expr) : argument.asVariable <+ [argument] := by
    cases argument <;> simp [Expr.asVariable]
  unfold written
  split
  · next first others =>
    refine List.Sublist.append (?_ : _ <+ [first]) (.refl others)
    split
    · exact variable_sublist first
    · exact .refl _
  · next first others => exact (variable_sublist first).trans (by simp)
  · next first others => exact (variable_sublist first).trans (by simp)
  · split <;> simp
  · simp
  · next least kind x y others =>
    refine List.Sublist.append (?_ : _ <+ [kind]) (.refl (x :: y :: others))
    split <;> simp
  · exact .refl _

theorem writtenArguments_sublist (function : String) (arguments : List Expr) :
    writtenArguments function arguments <+ arguments := by
  unfold writtenArguments
  split
  · exact Builtin.written_sublist _ _
  · exact .refl _

theorem mem_of_mem_writtenArguments {function : String} {arguments : List Expr} {expr : Expr}
    (member : expr ∈ writtenArguments function arguments) : expr ∈ arguments :=
  (writtenArguments_sublist function arguments).subset member

namespace Spot

theorem expr_mem_of_mem_arguments {spot part : Spot} {items : List Expr}
    (member : part ∈ spot.arguments items) : part.expr ∈ items := by
  obtain ⟨item, inside, rfl⟩ := List.mem_map.mp member
  exact inside

/-- An operand is built from inside the expression, and smaller. -/
theorem smaller_of_mem_operands {spot part : Spot} (member : part ∈ spot.operands) :
    part.expr ∈ spot.expr.subterms ∧ sizeOf part.expr < sizeOf spot.expr := by
  have ofChild {whole child : Expr} (isChild : child ∈ whole.children) :
      child ∈ whole.subterms ∧ sizeOf child < sizeOf whole :=
    ⟨Expr.mem_subterms_of_mem_children isChild, Expr.sizeOf_lt_of_mem_children isChild⟩
  obtain ⟨context, position, expr⟩ := spot
  cases expr with
  | number _ | text _ | name _ => cases member
  | list items | range low high => exact ofChild (expr_mem_of_mem_arguments member)
  | grouped inner | unary _ inner =>
    obtain rfl := List.mem_singleton.mp member
    exact ofChild (.head _)
  | binary op left right =>
    obtain ⟨operand, isOperand, rfl⟩ := List.mem_map.mp member
    rcases List.mem_cons.mp isOperand with rfl | isRight
    · exact ofChild (.head _)
    · have rightChild := @ofChild (.binary op left right) right (.tail _ (.head _))
      split at isRight
      · -- the bounds of a range are two levels down
        cases right with
        | range low high =>
          have bound := @ofChild (.range low high) operand isRight
          exact ⟨Expr.mem_subterms_trans bound.1 rightChild.1,
            Nat.lt_trans bound.2 rightChild.2⟩
        | _ =>
          obtain rfl := List.mem_singleton.mp isRight
          exact rightChild
      · obtain rfl := List.mem_singleton.mp isRight
        exact rightChild
  | conditional condition whenTrue whenFalse =>
    rcases List.mem_cons.mp member with rfl | isBranch
    · exact ofChild (.head _)
    · exact ofChild (.tail _ (expr_mem_of_mem_arguments isBranch))
  | call function arguments =>
    cases position with
    | free =>
      exact ofChild (mem_of_mem_writtenArguments (expr_mem_of_mem_arguments member))
    | member => exact ofChild (expr_mem_of_mem_arguments member)
  | index target indices =>
    rcases List.mem_cons.mp member with rfl | isIndex
    · exact ofChild (.head _)
    · exact ofChild (.tail _ (expr_mem_of_mem_arguments isIndex))
  | dotted segments =>
    cases segments with
    | nil => cases member
    | cons head members =>
      rcases List.mem_cons.mp member with rfl | isMember
      · exact ofChild (.head _)
      · obtain ⟨segment, inside, rfl⟩ := List.mem_map.mp isMember
        exact ofChild (.tail _ inside)

/-- What holds of a spot whenever it holds of its operands holds of every
spot. -/
@[elab_as_elim]
theorem operandInduction {motive : Spot → Prop}
    (step : ∀ spot : Spot, (∀ part ∈ spot.operands, motive part) → motive spot)
    (spot : Spot) : motive spot :=
  step spot fun part member =>
    have := (smaller_of_mem_operands member).2
    operandInduction step part
termination_by sizeOf spot.expr

end Spot

end EventScript
