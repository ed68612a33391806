import EventScript.Proofs.Events.Running
import EventScript.Proofs.Outline.Routes
import EventScript.Proofs.PassThrough.Expressions

/-!
# Guards

A guard is a condition that is put together from flags of events and from tests.
In generated code a flag becomes a constant or a comparison, depending on the
section.  The code for a guard reads as a tree with those in place of the flags,
and the tree holds if and only if the guard does.
-/

namespace EventScript

variable {condition : Expr}

/-! ## Guards of a script -/

namespace Expr

/-- Conditions made of flags, tests, `&&`, `||` and parentheses. -/
inductive Guard : Expr → Prop
  | flag {spelling : String} {action : Action} (found : Action.find? spelling = some action) :
      Guard (name spelling)
  | test {spelling : String} (plain : isPlainName spelling = true) : Guard (name spelling)
  | grouped {inner : Expr} (inside : Guard inner) : Guard (grouped inner)
  | both {left right : Expr} (guardLeft : Guard left) (guardRight : Guard right) :
      Guard (binary .and left right)
  | either {left right : Expr} (guardLeft : Guard left) (guardRight : Guard right) :
      Guard (binary .or left right)

/-- Whether a guard holds, from the flags that are set and the outcomes of the
tests. -/
def holds (flags tests : String → Bool) : Expr → Bool
  | name spelling => if (Action.find? spelling).isSome then flags spelling else tests spelling
  | grouped inner => inner.holds flags tests
  | binary .and left right => left.holds flags tests && right.holds flags tests
  | binary .or left right => left.holds flags tests || right.holds flags tests
  | _ => false

theorem find?_of_isPlainName {spelling : String} (plain : isPlainName spelling = true) :
    Action.find? spelling = none := by
  rw [isPlainName, Bool.and_eq_true, Bool.and_eq_true, Option.isNone_iff_eq_none] at plain
  exact plain.1.1

theorem holds_ungrouped (flags tests : String → Bool) (condition : Expr) :
    condition.ungrouped.holds flags tests = condition.holds flags tests := by
  fun_induction ungrouped condition with
  | case1 inner ih => exact ih
  | case2 => rfl

/-- Whether a guard holds depends on no flags but its own. -/
theorem Guard.holds_congr {first second : String → Bool} (guard : Guard condition)
    (agree : ∀ action ∈ condition.flags .free, first action.name = second action.name)
    (tests : String → Bool) : condition.holds first tests = condition.holds second tests := by
  induction guard with
  | @flag spelling action found =>
    have same := agree action (by simp [flags, found])
    rw [Action.name_of_find? found] at same
    simp [holds, found, same]
  | test plain => simp [holds, find?_of_isPlainName plain]
  | grouped _ ih => exact ih agree
  | both _ _ holdsLeft holdsRight | either _ _ holdsLeft holdsRight =>
    rw [flags, List.forall_mem_append] at agree
    rw [holds, holds, holdsLeft agree.1, holdsRight agree.2]

/-- A guard without flags holds when all tests succeed. -/
theorem Guard.holds_of_no_flags (guard : Guard condition) (noFlags : condition.flags .free = [])
    (set : String → Bool) : condition.holds set (fun _ => true) = true := by
  induction guard with
  | flag found => simp [flags, found] at noFlags
  | test plain => simp [holds, find?_of_isPlainName plain]
  | grouped _ ih => exact ih noFlags
  | both _ _ holdsLeft holdsRight | either _ _ holdsLeft holdsRight =>
    rw [flags, List.append_eq_nil_iff] at noFlags
    rw [holds, holdsLeft noFlags.1, holdsRight noFlags.2]
    rfl

end Expr

/-! ## Flags in generated code -/

/-- The flag of an event as a condition of generated code. -/
def Section.flagTree (place : Section) (action : Action) : Expr :=
  match place with
  | event current => .name (if current.name == action.name then "true" else "false")
  | dispatcher => .binary .equal (.name "_actionName") (.text action.name)
  | prologue => .binary .equal (.name "_actionName") (.text action.name)
  | _ => .name "false"

/-- Names of events are words. -/
theorem isWord_of_mem_table {action : Action} (known : action ∈ Action.table) :
    isWord action.name.toList = true := by
  have words : ∀ action ∈ Action.table, isWord action.name.toList = true := by decide +kernel
  exact words action known

/-- A word is quoted as it stands. -/
theorem quote_of_isWord {text : String} (word : isWord text.toList = true) :
    Text.quote text = "\"" ++ text ++ "\"" := by
  have kept : ∀ character ∈ text.toList, Text.escape character = [character] := by
    intro character member
    have apart (other : Char) (notNamed : isNameChar other = false) : character ≠ other :=
      ne_of_isNameChar (isNameChar_of_mem_word word member) notNamed
    unfold Text.escape
    split
    all_goals first | rfl | exact absurd rfl (apart _ (by decide))
  have unescaped : text.toList.flatMap Text.escape = text.toList := by
    rw [List.flatMap_def, List.map_congr_left kept, ← List.flatMap_def, List.flatMap_singleton']
  rw [Text.quote, Text.quoteChars, unescaped, ← String.toList_inj]
  simp

/-- The tree of a flag is written as the section tests the flag. -/
theorem code_flagTree (place : Section) {action : Action} (known : action ∈ Action.table) :
    (place.flagTree action).code = place.actionTest action := by
  have comparison : (Expr.binary .equal (.name "_actionName") (.text action.name)).code =
      "_actionName == \"" ++ action.name ++ "\"" := by
    have quoted := quote_of_isWord (isWord_of_mem_table known)
    change "_actionName" ++ " " ++ "==" ++ " " ++ Text.quote action.name = _
    rw [quoted, ← String.append_assoc, ← String.append_assoc]
    rfl
  cases place with
  | event current =>
    unfold Section.flagTree Section.actionTest
    dsimp only
    split <;> rfl
  | dispatcher | prologue => exact comparison
  | global | create => rfl

/-- A variable compared with a text can be written and read back. -/
theorem printable_comparison {spelling : String} (named : IsName spelling) (content : String) :
    (Expr.binary .equal (.name spelling) (.text content)).Printable := by
  refine ⟨.operation (by decide) (.name named) ?_ (.text _) ?_, trivial,
    Expr.quotes_quote content⟩
  all_goals simp [Expr.level, BinaryOp.strength]

theorem printable_flagTree (place : Section) (action : Action) :
    (place.flagTree action).Printable ∧ 4 ≤ (place.flagTree action).level := by
  have constant (value : Bool) :
      (Expr.name (if value then "true" else "false")).Printable ∧
        4 ≤ (Expr.name (if value then "true" else "false")).level := by
    refine ⟨⟨.name ?_, trivial⟩, by simp [Expr.level]⟩
    cases value <;> decide
  have comparison : (Expr.binary .equal (.name "_actionName") (.text action.name)).Printable ∧
      4 ≤ (Expr.binary .equal (.name "_actionName") (.text action.name)).level := by
    exact ⟨printable_comparison (by decide) action.name, by simp [Expr.level, BinaryOp.strength]⟩
  cases place with
  | event current => exact constant _
  | dispatcher | prologue => exact comparison
  | global | create => exact constant false

namespace Expr

/-- A guard in generated code, with its flags as a section tests them and its
tests as members of the script object. -/
def placed (place : Section) : Expr → Expr
  | name spelling =>
    match Action.find? spelling with
    | some action => place.flagTree action
    | none => dotted [name "this", name spelling]
  | grouped inner => grouped (inner.placed place)
  | binary op left right => binary op (left.placed place) (right.placed place)
  | other => other

theorem level_le_placed (place : Section) {level : Nat} (tight : level ≤ condition.level)
    (bounded : level ≤ 4) : level ≤ (condition.placed place).level := by
  cases condition with
  | name spelling =>
    rw [placed]
    split
    · exact Nat.le_trans bounded (printable_flagTree place _).2
    · exact Nat.le_trans bounded (by simp [Expr.level])
  | _ => exact tight

/-- A guard in generated code can be written and read back. -/
theorem Guard.printable_placed (guard : Guard condition) (shaped : condition.Shaped)
    (place : Section) : (condition.placed place).Printable := by
  induction guard with
  | flag found =>
    rw [placed, found]
    exact (printable_flagTree place _).1
  | test plain =>
    rw [placed, find?_of_isPlainName plain]
    cases shaped with
    | name named => exact ⟨shaped_member_this named, writable_member_this _⟩
  | grouped _ ih =>
    cases shaped with
    | grouped inside =>
      exact ⟨.grouped (ih inside).shaped, (ih inside).writable⟩
  | both _ _ printableLeft printableRight | either _ _ printableLeft printableRight =>
    cases shaped with
    | assignment loose _ _ _ => cases loose
    | operation tighter shapedLeft tightLeft shapedRight tightRight =>
      have left := printableLeft shapedLeft
      have right := printableRight shapedRight
      refine ⟨.operation tighter left.shaped (level_le_placed place tightLeft (by decide))
        right.shaped (level_le_placed place tightRight (by decide)), left.writable,
          right.writable⟩

/-- The code for a guard is the text of the guard in that section. -/
theorem Guard.render_eq (guard : Guard condition) (site : Site) :
    render site .condition condition = pure (condition.placed site.place).code := by
  rw [render]
  induction guard with
  | @flag spelling action found =>
    rw [renderWith, placed, found, code_flagTree _ (Action.mem_table_of_find? found)]
    simp [Site.nameCode, ExprContext.condition, found]
  | test plain =>
    rw [renderWith, placed, find?_of_isPlainName plain, nameCode_of_isPlainName site plain rfl]
    rfl
  | grouped _ ih =>
    rw [renderWith, ih]
    rfl
  | both _ _ renderLeft renderRight | either _ _ renderLeft renderRight =>
    rw [renderWith_plainOperator _ site rfl, renderLeft, renderRight]
    rfl

/-- A guard in generated code holds when the guard does, given that the flags do. -/
theorem Guard.truth?_placed (guard : Guard condition) {place : Section} {scene : Scene}
    {flags : String → Bool}
    (agree : ∀ action, scene.truth? (place.flagTree action) = some (flags action.name)) :
    scene.truth? (condition.placed place) = some (condition.holds flags scene.tests) := by
  induction guard with
  | @flag spelling action found =>
    rw [placed, found, agree, Action.name_of_find? found]
    simp [holds, found]
  | test plain =>
    rw [placed, find?_of_isPlainName plain]
    simp [Scene.truth?, holds, find?_of_isPlainName plain]
  | grouped _ ih => exact ih
  | both _ _ truthLeft truthRight | either _ _ truthLeft truthRight =>
    simp only [placed, Scene.truth?, truthLeft, truthRight, holds]
    cases holds flags scene.tests _ <;> rfl

end Expr

/-- In the callback of an event exactly the flag of the event is set. -/
theorem truth?_flagTree_event (tests : String → Bool) (current action : Action) :
    Scene.truth? { tests := tests } ((Section.event current).flagTree action) =
      some (action.name == current.name) := by
  rw [Section.flagTree, BEq.comm]
  cases action.name == current.name <;> rfl

/-- In the dispatcher exactly the flag of the event is set that it was called with. -/
theorem truth?_flagTree_dispatcher (tests : String → Bool) (event : String) (action : Action) :
    Scene.truth? { tests := tests, event? := some event } (Section.dispatcher.flagTree action) =
      some (action.name == event) := by
  rw [BEq.comm]
  rfl

end EventScript
