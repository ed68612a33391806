import EventScript.Expr

/-!
# Expressions inside expressions

The expressions from which an expression is built, directly or at any depth,
and induction along them.
-/

namespace EventScript.Expr

variable {inner expr : Expr}

/-- The expressions from which an expression is built directly. -/
def children : Expr → List Expr
  | number _ => []
  | text _ => []
  | name _ => []
  | list items => items
  | range low high => [low, high]
  | grouped inner => [inner]
  | unary _ operand => [operand]
  | binary _ left right => [left, right]
  | conditional condition whenTrue whenFalse => [condition, whenTrue, whenFalse]
  | call _ arguments => arguments
  | index target indices => target :: indices
  | dotted segments => segments

mutual

/-- An expression and the expressions inside it, at any depth. -/
def subterms : Expr → List Expr
  | number spelling => [number spelling]
  | text value => [text value]
  | name spelling => [name spelling]
  | list items => list items :: subtermsOfAll items
  | range low high => range low high :: (low.subterms ++ high.subterms)
  | grouped inner => grouped inner :: inner.subterms
  | unary op operand => unary op operand :: operand.subterms
  | binary op left right => binary op left right :: (left.subterms ++ right.subterms)
  | conditional condition whenTrue whenFalse =>
    conditional condition whenTrue whenFalse ::
      (condition.subterms ++ whenTrue.subterms ++ whenFalse.subterms)
  | call function arguments => call function arguments :: subtermsOfAll arguments
  | index target indices =>
    index target indices :: (target.subterms ++ subtermsOfAll indices)
  | dotted segments => dotted segments :: subtermsOfAll segments

/-- Several expressions and the expressions inside them. -/
def subtermsOfAll : List Expr → List Expr
  | [] => []
  | first :: rest => first.subterms ++ subtermsOfAll rest

end

theorem mem_subtermsOfAll {items : List Expr} :
    inner ∈ subtermsOfAll items ↔ ∃ item ∈ items, inner ∈ item.subterms := by
  induction items with
  | nil => simp [subtermsOfAll]
  | cons first rest ih => simp [subtermsOfAll, ih]

/-- What is inside an expression is the expression itself or inside one of its
children. -/
theorem mem_subterms_iff :
    inner ∈ expr.subterms ↔ inner = expr ∨ ∃ child ∈ expr.children, inner ∈ child.subterms := by
  cases expr <;> simp [subterms, children, mem_subtermsOfAll]

theorem self_mem_subterms (expr : Expr) : expr ∈ expr.subterms :=
  mem_subterms_iff.mpr (.inl rfl)

theorem mem_subterms_of_mem_children {child : Expr} (member : child ∈ expr.children) :
    child ∈ expr.subterms :=
  mem_subterms_iff.mpr (.inr ⟨child, member, child.self_mem_subterms⟩)

/-- A child is smaller than the expression. -/
theorem sizeOf_lt_of_mem_children {child : Expr} (member : child ∈ expr.children) :
    sizeOf child < sizeOf expr := by
  cases expr with
  | list items | call _ items | dotted items =>
    have smaller := List.sizeOf_lt_of_mem (show child ∈ items from member)
    simp only [list.sizeOf_spec, call.sizeOf_spec, dotted.sizeOf_spec]
    omega
  | index target indices =>
    simp only [index.sizeOf_spec]
    rcases List.mem_cons.mp member with rfl | inside
    · omega
    · have smaller := List.sizeOf_lt_of_mem inside
      omega
  | range low high | binary _ low high =>
    simp only [children, List.mem_cons, List.not_mem_nil, or_false] at member
    rcases member with rfl | rfl <;> simp <;> omega
  | conditional condition whenTrue whenFalse =>
    simp only [children, List.mem_cons, List.not_mem_nil, or_false] at member
    rcases member with rfl | rfl | rfl <;> simp <;> omega
  | grouped inner | unary _ inner =>
    simp only [children, List.mem_singleton] at member
    subst member
    simp only [grouped.sizeOf_spec, unary.sizeOf_spec]
    omega
  | number _ | text _ | name _ => cases member

/-- What holds of an expression whenever it holds of its children holds of every
expression. -/
@[elab_as_elim]
theorem childInduction {motive : Expr → Prop}
    (step : ∀ expr : Expr, (∀ child ∈ expr.children, motive child) → motive expr)
    (expr : Expr) : motive expr :=
  step expr fun child member =>
    have := sizeOf_lt_of_mem_children member
    childInduction step child
termination_by sizeOf expr

/-- What is inside something inside an expression is inside the expression. -/
theorem mem_subterms_trans {middle outer : Expr} (first : inner ∈ middle.subterms)
    (second : middle ∈ outer.subterms) : inner ∈ outer.subterms := by
  induction outer using childInduction with
  | step outer ih =>
    rcases mem_subterms_iff.mp second with rfl | ⟨child, isChild, inside⟩
    · exact first
    · exact mem_subterms_iff.mpr (.inr ⟨child, isChild, ih child isChild inside⟩)

end EventScript.Expr
