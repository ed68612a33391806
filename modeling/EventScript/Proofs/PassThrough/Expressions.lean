import EventScript.Proofs.Printing.Lines
import Mathlib.Data.List.TakeWhile

/-!
# Expressions that pass through

The core of the expression language is carried over to generated code as it
stands: only bare names are qualified, and numbers get a digit in front of
their point.  The code for an expression of the core is the text of the
qualified tree, which is a tree of the grammar again.
-/

namespace EventScript

variable {expr : Expr} {context : ExprContext}

namespace Expr

variable {tested : Bool}

/-! ## The core -/

/-- A name that is neither the flag of an event nor stands for something else. -/
def isPlainName (name : String) : Bool :=
  (Action.find? name).isNone && (Alias.find? name).isNone && !isRoot name

/-- Operators that are carried over.  Where a condition is tested, `=` would be
taken for a comparison. -/
def isPlainOperator (tested : Bool) : BinaryOp → Bool
  | .pow => false
  | .mod => false
  | .isIn => false
  | .assign => !tested
  | _ => true

/-- Expressions of the core; `tested` says whether the expression is the
condition of a branch or a loop. -/
def isCore (tested : Bool) : Expr → Bool
  | number _ => true
  | text value => !value.toList.contains '#'
  | name spelling => isPlainName spelling
  | grouped inner => inner.isCore tested
  | unary op operand => operand.isCore tested && !(op == .negate && operand.startsMinus)
  | binary op left right =>
    isPlainOperator tested op && left.isCore tested && right.isCore tested
  | _ => false

/-- The expression of generated code that an expression of the core becomes:
names are members of the script object, and no number begins with a point. -/
def qualified : Expr → Expr
  | number spelling => number (numberCode spelling)
  | name spelling => dotted [name "this", name spelling]
  | grouped inner => grouped inner.qualified
  | unary op operand => unary op operand.qualified
  | binary op left right => binary op left.qualified right.qualified
  | other => other

/-! ## Qualified trees -/

theorem level_le_qualified {level : Nat} (tight : level ≤ expr.level) (bounded : level ≤ 10) :
    level ≤ expr.qualified.level := by
  cases expr with
  | name _ => exact bounded
  | _ => exact tight

theorem startsMinus_qualified (expr : Expr) : expr.qualified.startsMinus = expr.startsMinus := by
  cases expr with
  | unary op _ => cases op <;> rfl
  | _ => rfl

theorem isNumeral_numberCode {spelling : String} (numeral : IsNumeral spelling.toList) :
    IsNumeral (numberCode spelling).toList := by
  rw [numberCode]
  split
  · rw [String.toList_append]
    exact isNumeral_cons (by decide) numeral
  · exact numeral

/-- A name as a member of the script object. -/
theorem shaped_member_this {spelling : String} (named : IsName spelling) :
    Shaped (dotted [name "this", name spelling]) := by
  refine .dotted (.name (by decide)) (by decide) rfl (by simp) ?_ ?_
  · rw [List.forall_mem_singleton]
    exact .name named
  · rw [List.forall_mem_singleton]
    rfl

/-- Qualifying a tree of the grammar gives a tree of the grammar. -/
theorem Shaped.qualified (shaped : Shaped expr) (core : expr.isCore tested = true) :
    Shaped expr.qualified := by
  induction shaped with
  | number numeral => exact .number (isNumeral_numberCode numeral)
  | text value => exact .text value
  | name named => exact shaped_member_this named
  | grouped _ ih => exact .grouped (ih core)
  | prefixed inFront _ tight ih =>
    rw [isCore, Bool.and_eq_true] at core
    exact .prefixed inFront (ih core.1) (level_le_qualified tight (by decide))
  | postfixed behind _ tight ih =>
    rw [isCore, Bool.and_eq_true] at core
    exact .postfixed behind (ih core.1) (level_le_qualified tight (by decide))
  | assignment loose _ tight _ shapedLeft shapedRight =>
    rw [isCore, Bool.and_eq_true, Bool.and_eq_true] at core
    exact .assignment loose (shapedLeft core.1.2) (level_le_qualified tight (by decide))
      (shapedRight core.2)
  | @operation op _ _ tighter _ tightLeft _ tightRight shapedLeft shapedRight =>
    have bounded := op.strength_le
    rw [isCore, Bool.and_eq_true, Bool.and_eq_true] at core
    exact .operation tighter (shapedLeft core.1.2) (level_le_qualified tightLeft (by omega))
      (shapedRight core.2) (level_le_qualified tightRight (by omega))
  | _ => cases core

theorem writable_member_this (spelling : String) :
    (dotted [name "this", name spelling]).Writable Text.quote :=
  ⟨⟨trivial, trivial, trivial⟩, by rintro _ ⟨rfl⟩; rfl⟩

/-- A qualified tree can be written. -/
theorem writable_qualified (core : expr.isCore tested = true) :
    expr.qualified.Writable Text.quote := by
  induction expr using Expr.qualified.induct with
  | case1 spelling => trivial
  | case2 spelling => exact writable_member_this spelling
  | case3 inner ih => exact ih core
  | case4 op operand ih =>
    rw [isCore, Bool.and_eq_true] at core
    refine ⟨ih core.1, ?_⟩
    rintro rfl
    rw [startsMinus_qualified]
    simpa using core.2
  | case5 op left right writableLeft writableRight =>
    rw [isCore, Bool.and_eq_true, Bool.and_eq_true] at core
    exact ⟨writableLeft core.1.2, writableRight core.2⟩
  | case6 other notNumber notName notGrouped notUnary notBinary =>
    cases other with
    | text value => exact quotes_quote value
    | number _ => exact absurd rfl (notNumber _)
    | name _ => exact absurd rfl (notName _)
    | grouped _ => exact absurd rfl (notGrouped _)
    | unary _ _ => exact absurd rfl (notUnary _ _)
    | binary _ _ _ => exact absurd rfl (notBinary _ _ _)
    | _ => cases core

/-- A qualified tree can be written and read back. -/
theorem printable_qualified (shaped : Shaped expr) (core : expr.isCore tested = true) :
    expr.qualified.Printable :=
  ⟨shaped.qualified core, writable_qualified core⟩

/-- A qualified tree that stands as a statement is read as an expression: it is
no call, and a name at its front is followed by a point. -/
theorem standsAlone_qualified (core : expr.isCore tested = true) :
    Stmt.StandsAlone expr.qualified := by
  have begins (rest : List Token) :
      (∀ more, expr.qualified.tokens ++ rest ≠ .symbol .openBrace :: more) ∧
        ∀ name next more, expr.qualified.tokens ++ rest = .name name :: next :: more →
          Parser.startsCommand next = false := by
    induction expr using Expr.qualified.induct generalizing rest with
    | case1 spelling => simp [qualified, tokens]
    | case2 spelling =>
      constructor
      · rintro _ ⟨⟩
      · rintro _ _ _ ⟨⟩
        rfl
    | case3 inner _ => simp [qualified, tokens]
    | case4 op operand ih =>
      rw [isCore, Bool.and_eq_true] at core
      have behind := ih core.1 ([op.token] ++ rest)
      rw [← List.append_assoc] at behind
      cases op with
      | postIncrement => exact behind
      | postDecrement => exact behind
      | _ => simp [qualified, tokens, UnaryOp.token, UnaryOp.isPostfix]
    | case5 op left right begins _ =>
      rw [isCore, Bool.and_eq_true, Bool.and_eq_true] at core
      have behind := begins core.1.2 (op.token :: right.qualified.tokens ++ rest)
      rwa [← List.append_assoc] at behind
    | case6 other notNumber notName notGrouped notUnary notBinary =>
      cases other with
      | text value => simp [qualified, tokens]
      | number _ => exact absurd rfl (notNumber _)
      | name _ => exact absurd rfl (notName _)
      | grouped _ => exact absurd rfl (notGrouped _)
      | unary _ _ => exact absurd rfl (notUnary _ _)
      | binary _ _ _ => exact absurd rfl (notBinary _ _ _)
      | _ => cases core
  obtain ⟨noBlock, noCommand⟩ := begins [.symbol .semicolon]
  refine ⟨?_, ?_⟩
  · intro function arguments
    cases expr with
    | call _ _ => cases core
    | _ => simp [qualified]
  · split
    next more front => exact noBlock more front
    next name next more front => exact noCommand name next more front
    next => trivial

end Expr

/-! ## The code for an expression -/

/-- A text without property codes is one segment. -/
theorem segments_of_no_mark {content : String} (noMark : '#' ∉ content.toList)
    (nonempty : content.toList ≠ []) : segments content = [.text content] := by
  have unmarked : ∀ character ∈ content.toList, (!Segment.isMark character) = true := by
    intro character member
    rw [Segment.isMark, Bool.not_eq_true', beq_eq_false_iff_ne]
    rintro rfl
    exact noMark member
  rw [segments]
  cases characters : content.toList with
  | nil => exact absurd characters nonempty
  | cons first others =>
    rw [characters] at unmarked noMark
    have read : Segment.read (first :: others) = (.text content, []) := by
      have notMark : first ≠ '#' := by
        rintro rfl
        exact noMark List.mem_cons_self
      rw [Segment.read, List.takeWhile_eq_self_iff.mpr unmarked,
        List.dropWhile_eq_nil_iff.mpr unmarked, ← characters, String.ofList_toList]
      · intro _ doubled
        exact notMark (List.cons.inj doubled).1
      · intro _ marked
        exact notMark (List.cons.inj marked).1
    rw [List.length_cons, Segment.readUpTo, read]
    cases others.length <;> rfl

/-- A text without property codes is a literal. -/
theorem expand_of_no_mark (site : Site) {content : String} (noMark : '#' ∉ content.toList) :
    expand site content = pure (Text.quote content) := by
  by_cases nonempty : content.toList = []
  · rw [String.toList_eq_nil_iff.mp nonempty]
    rfl
  · have notEmpty : content.isEmpty = false := by
      rw [String.isEmpty_eq_false_iff]
      rintro rfl
      exact nonempty rfl
    rw [expand, expandUpTo, segments_of_no_mark noMark nonempty]
    simp [concatenation, literalPart, joinConcatenation, notEmpty]

theorem unaryCode_of_tight {operand : Expr} (tight : 9 ≤ operand.level) (op : UnaryOp)
    (code : String) : unaryCode op operand code = op.attach code := by
  cases operand with
  | binary inner _ _ =>
    have bounded := inner.strength_le
    simp only [Expr.level] at tight
    omega
  | _ => cases op <;> rfl

theorem nameCode_of_isPlainName (site : Site) {name : String} (plain : Expr.isPlainName name = true)
    (notMember : context.suppressSelf = false) :
    site.nameCode context name = pure ("this." ++ name) := by
  rw [Expr.isPlainName, Bool.and_eq_true, Bool.and_eq_true, Option.isNone_iff_eq_none,
    Option.isNone_iff_eq_none, Bool.not_eq_true'] at plain
  obtain ⟨⟨noAction, noAlias⟩, noRoot⟩ := plain
  simp [Site.nameCode, noAction, noAlias, noRoot, notMember]

/-- An operator of the core stands between the code of its operands. -/
theorem renderWith_plainOperator (text : String → Emission String) (site : Site) {op : BinaryOp}
    (plain : Expr.isPlainOperator context.inCondition op = true) (left right : Expr) :
    renderWith text site context .free (.binary op left right) = do
      let left ← renderWith text site context .free left
      let right ← renderWith text site context .free right
      return left ++ " " ++ op.spelling ++ " " ++ right := by
  cases op with
  | assign =>
    have noTest : context.inCondition = false := by
      simpa [Expr.isPlainOperator] using plain
    rw [renderWith, if_neg (by simp [noTest])]
    all_goals simp
  | pow | mod | isIn => cases plain
  | _ =>
    rw [renderWith, if_neg (by rintro ⟨⟨⟩, _⟩)]
    all_goals simp

/-- The code for an expression of the core is the text of the qualified tree. -/
theorem render_of_isCore (site : Site) (notMember : context.suppressSelf = false)
    (shaped : expr.Shaped) (core : expr.isCore context.inCondition = true) :
    render site context expr = pure expr.qualified.code := by
  rw [render]
  induction shaped with
  | number numeral => rfl
  | text value =>
    rw [Expr.isCore, Bool.not_eq_true', List.contains_eq_mem, decide_eq_false_iff_not] at core
    exact expand_of_no_mark site core
  | name named =>
    rw [renderWith, nameCode_of_isPlainName site core notMember]
    rfl
  | grouped _ ih =>
    rw [renderWith, ih core]
    rfl
  | prefixed _ _ tight ih =>
    rw [Expr.isCore, Bool.and_eq_true] at core
    rw [renderWith, ih core.1, pure_bind, unaryCode_of_tight tight]
    rfl
  | postfixed _ _ tight ih =>
    rw [Expr.isCore, Bool.and_eq_true] at core
    rw [renderWith, ih core.1, pure_bind,
      unaryCode_of_tight (Nat.le_trans (by decide) tight)]
    rfl
  | assignment _ _ _ _ renderLeft renderRight | operation _ _ _ _ _ renderLeft renderRight =>
    rw [Expr.isCore, Bool.and_eq_true, Bool.and_eq_true] at core
    rw [renderWith_plainOperator _ site core.1.1, renderLeft core.1.2, renderRight core.2]
    rfl
  | _ => cases core

end EventScript
