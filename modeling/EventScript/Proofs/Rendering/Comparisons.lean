import EventScript.Proofs.Grammar.Soundness
import EventScript.Session

/-!
# Assignments that compare

In the condition of a branch or a loop `=` compares, but only where the
condition is exposed: not inside arguments, indices, lists, ranges and the
branches of a conditional.  `Expr.comparing` replaces the exposed assignments by
comparisons.  The code for a condition is the code for that expression outside
a condition, so the context does nothing else.
-/

namespace EventScript

namespace Expr

mutual

/-- An expression with its exposed assignments replaced by comparisons. -/
def comparing : Expr → Expr
  | grouped inner => grouped inner.comparing
  | unary op operand => unary op operand.comparing
  | binary .pow left right => binary .pow left right
  | binary .mod left right => binary .mod left right
  | binary .isIn left right => binary .isIn left right
  | binary .assign left right => binary .equal left.comparing right.comparing
  | binary op left right => binary op left.comparing right.comparing
  | index target indices => index target.comparing indices
  | dotted segments => dotted (comparingHead segments)
  | other => other

/-- The segments of a chain, with the exposed assignments of the first one
replaced. -/
def comparingHead : List Expr → List Expr
  | [] => []
  | head :: members => head.comparing :: members

end

/-- Replacing assignments neither makes a name nor removes one. -/
theorem name?_comparing (expr : Expr) : expr.comparing.name? = expr.name? := by
  cases expr with
  | binary op left right => cases op <;> simp only [comparing, name?]
  | _ => simp only [comparing, name?]

/-- An operand of a prefix or postfix operator is written alike with and without
its assignments, since it is no operation itself. -/
theorem unaryCode_comparing {operand : Expr} (tight : 9 ≤ operand.level) (op : UnaryOp)
    (code : String) : unaryCode op operand.comparing code = unaryCode op operand code := by
  cases operand with
  | binary inner left right =>
    have loose := inner.strength_le
    simp only [level] at tight
    omega
  | _ => simp only [comparing, unaryCode]

end Expr

section Rendering

variable {text : String → Emission String} {site : Site}

/-- The code for a member does not depend on whether the chain stands in a
condition. -/
theorem renderWith_member_tested {member : Expr} (isMember : member.isMember = true)
    (context : ExprContext) :
    renderWith text site context.tested .member member =
      renderWith text site { context with inCondition := false } .member member := by
  induction member using Expr.childInduction with
  | step member ih =>
    cases member with
    | name spelling => simp only [renderWith]
    | call function arguments =>
      simp only [renderWith, ExprContext.tested, ExprContext.arguments]
    | index target indices =>
      have sameTarget := ih target (.head _) isMember
      simp only [renderWith, sameTarget]
      simp only [ExprContext.tested, ExprContext.arguments]
    | _ => cases isMember

/-- In a condition the code for an expression is the code for the expression
with its exposed assignments replaced. -/
theorem renderWith_tested {expr : Expr} (shaped : expr.Shaped) (context : ExprContext) :
    renderWith text site context.tested .free expr =
      renderWith text site { context with inCondition := false } .free expr.comparing := by
  have sameArguments : context.tested.arguments =
    ExprContext.arguments { context with inCondition := false } := rfl
  induction shaped with
  | number | text => simp only [Expr.comparing, renderWith]
  | name =>
    simp only [Expr.comparing, renderWith]
    rfl
  | list | call => simp only [Expr.comparing, renderWith, sameArguments]
  | grouped _ ih => simp only [Expr.comparing, renderWith, ih]
  | prefixed _ _ tight ih =>
    simp only [Expr.comparing, renderWith, ih, Expr.unaryCode_comparing tight]
  | postfixed _ _ tight ih =>
    simp only [Expr.comparing, renderWith, ih,
      Expr.unaryCode_comparing (Nat.le_of_succ_le tight)]
  | @assignment op target value loose _ _ _ sameTarget sameValue =>
    cases op with
    | assign | addAssign | subAssign | mulAssign | divAssign =>
      simp only [Expr.comparing, renderWith, sameTarget, sameValue]
      rfl
    | _ => cases loose
  | @operation op left right tighter _ _ _ _ sameLeft sameRight =>
    cases op with
    | pow | mod => simp only [Expr.comparing, renderWith, sameArguments]
    | isIn => cases right <;> simp only [Expr.comparing, renderWith, sameArguments]
    | assign | addAssign | subAssign | mulAssign | divAssign => cases tighter
    | _ =>
      simp only [Expr.comparing, renderWith, sameLeft, sameRight]
      rfl
  | within => simp only [Expr.comparing, renderWith, sameArguments]
  | conditional =>
    simp only [Expr.comparing, renderWith, sameArguments]
    rfl
  | @index target indices _ _ _ _ sameTarget _ =>
    simp only [Expr.comparing, renderWith, sameArguments, sameTarget, isBoard, Expr.name?_comparing]
  | @dotted head members _ _ _ _ _ areMembers sameHead _ =>
    have sameMembers : renderAllWith text site context.tested.suppressed .member members =
        renderAllWith text site
          (ExprContext.suppressed { context with inCondition := false }) .member members := by
      rw [renderAllWith_eq_map, renderAllWith_eq_map]
      apply List.map_congr_left
      intro member among
      exact renderWith_member_tested (areMembers member among) context.suppressed
    simp only [Expr.comparing, Expr.comparingHead, renderWith, sameHead, sameMembers]

end Rendering

/-- In a condition `=` compares exactly where it is exposed: the code for an
expression that is read, and all effects of generating it, are those of the
expression with its exposed assignments replaced, outside a condition. -/
theorem Session.expression_tested {expr : Expr} (shaped : expr.Shaped) (session : Session)
    (context : ExprContext) :
    session.expression { context with inCondition := true } expr =
      session.expression { context with inCondition := false } expr.comparing := by
  have same : render session.site context.tested expr =
      render session.site { context with inCondition := false } expr.comparing :=
    renderWith_tested shaped context
  unfold Session.expression
  exact congrArg session.perform same

set_option maxRecDepth 20000 in
/-- Assignments in a group, in arguments, in an index and in a branch of a
conditional, the last three of them hidden. -/
theorem Session.expression_tested_hidden :
    let condition := Expr.binary .assign
      (.binary .and (.unary .not (.grouped (.binary .assign (.name "a") (.number "1"))))
        (.dotted [.index (.call "f" [.binary .assign (.name "b") (.number "2")])
          [.binary .assign (.name "c") (.number "3")], .name "g"]))
      (.grouped (.conditional (.name "d") (.binary .assign (.name "e") (.number "4")) (.name "h")))
    let session : Session := { options := {} }
    Expr.parse "!(a = 1) && f(b = 2)[c = 3].g = (d ? e = 4 : h)" = .ok condition ∧
      session.expression .condition condition =
        session.expression { inRegion := true } condition.comparing ∧
      (session.expression { inRegion := true } condition.comparing).1 =
        "!(this.a == 1) && this.f(this.b = 2)[this.c = 3].g == (if(this.d, this.e = 4, this.h))" := by
  intro condition session
  have parsed : Expr.parse "!(a = 1) && f(b = 2)[c = 3].g = (d ? e = 4 : h)" = .ok condition := by
    rfl
  exact ⟨parsed, session.expression_tested (Expr.shaped_of_parse parsed) .condition,
    by decide +kernel⟩

end EventScript
