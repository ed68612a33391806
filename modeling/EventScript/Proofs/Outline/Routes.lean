import EventScript.Outline

/-!
# The routes of top-level statements

`Stmt.GoesTo` lists the rules by which a top-level statement finds its section,
each rule with its full condition.  The rules exclude each other and cover
every statement that is neither a block nor empty, and `Stmt.route` follows
them.
-/

namespace EventScript

variable {condition : Expr} {action : Action}

/-- A condition that is nothing but the flag of an event, in any number of
parentheses. -/
def Expr.IsFlagOf (condition : Expr) (action : Action) : Prop :=
  ∃ flag, condition.ungrouped = .name flag ∧ Action.find? flag = some action

/-- Statements that belong to no section of their own and run on creation. -/
def Stmt.RunsOnCreation : Stmt → Prop
  | .function _ _ => False
  | .branch _ _ _ => False
  | .block _ => False
  | .empty => False
  | _ => True

/-- The rules for the section of a top-level statement. -/
inductive Stmt.GoesTo : Stmt → Route → Prop
  | declaration (name : String) (body : Stmt) : GoesTo (.function name body) .declaration
  | contents {condition : Expr} {action : Action} (body : Stmt)
      (isFlag : condition.IsFlagOf action) :
      GoesTo (.branch condition body none) (.contents action body)
  | prologue {condition : Expr} (body : Stmt) (otherwise : Option Stmt)
      (untested : condition.actions = []) :
      GoesTo (.branch condition body otherwise) .prologue
  | guarded {condition : Expr} {action : Action} (body : Stmt)
      (noFlag : ∀ action, ¬condition.IsFlagOf action) (tested : condition.actions = [action]) :
      GoesTo (.branch condition body none) (.guarded action)
  | dispatched {condition : Expr} (body : Stmt) (otherwise : Option Stmt)
      (tested : condition.actions ≠ [])
      (several : otherwise = none → condition.actions.length ≠ 1) :
      GoesTo (.branch condition body otherwise) (.dispatched condition.actions)
  | creation {statement : Stmt} (other : statement.RunsOnCreation) :
      GoesTo statement .creation

/-! ## Flags that stand alone -/

/-- Parentheses around a condition do not change its flags. -/
theorem Expr.flags_ungrouped (condition : Expr) :
    condition.ungrouped.flags .free = condition.flags .free := by
  fun_induction Expr.ungrouped condition with
  | case1 inner ih => rw [ih, Expr.flags]
  | case2 => rfl

/-- A flag that stands alone is the only event that the condition tests. -/
theorem Expr.IsFlagOf.actions_eq (isFlag : condition.IsFlagOf action) :
    condition.actions = [action] := by
  obtain ⟨flag, bare, found⟩ := isFlag
  rw [Expr.actions, ← Expr.flags_ungrouped, bare]
  simp [Expr.flags, found, distinctActions]

/-- The event of a flag that stands alone, as the outline looks it up. -/
theorem Expr.isFlagOf_iff (condition : Expr) (action : Action) :
    condition.IsFlagOf action ↔
      condition.ungrouped.name?.bind Action.find? = some action := by
  constructor
  · rintro ⟨flag, bare, found⟩
    simp [bare, Expr.name?, found]
  · intro looked
    obtain ⟨flag, named, found⟩ := Option.bind_eq_some_iff.mp looked
    refine ⟨flag, ?_, found⟩
    cases shape : condition.ungrouped with
    | name spelling =>
      rw [shape] at named
      simpa [Expr.name?] using named
    | _ =>
      rw [shape] at named
      simp [Expr.name?] at named

/-! ## The rules and the outline -/

/-- A branch on a flag that stands alone, without another branch. -/
theorem branchRoute_of_isFlagOf (body : Stmt) (isFlag : condition.IsFlagOf action) :
    branchRoute condition body false = .contents action body := by
  simp [branchRoute, (Expr.isFlagOf_iff condition action).mp isFlag]

/-- Where a branch goes that is not on a flag alone, from the events that its
condition tests. -/
def Route.ofTested : (actions : List Action) → (hasOther : Bool) → Route
  | [], _ => .prologue
  | [action], false => .guarded action
  | actions, _ => .dispatched actions

/-- Every other branch is sorted by the events its condition tests. -/
theorem branchRoute_of_noFlag {hasOther : Bool} (body : Stmt)
    (noFlag : hasOther = false → ∀ action, ¬condition.IsFlagOf action) :
    branchRoute condition body hasOther = Route.ofTested condition.actions hasOther := by
  unfold branchRoute
  split
  · rename_i action found
    exact absurd ((Expr.isFlagOf_iff condition action).mpr found) (noFlag rfl action)
  · rfl

/-- A condition on several events, or on one with another branch, is shared. -/
theorem Route.ofTested_of_several {actions : List Action} {hasOther : Bool}
    (tested : actions ≠ []) (several : hasOther = false → actions.length ≠ 1) :
    Route.ofTested actions hasOther = .dispatched actions := by
  unfold Route.ofTested
  split
  · contradiction
  · exact absurd rfl (several rfl)
  · rfl

/-- A statement goes where the rules say. -/
theorem Stmt.GoesTo.route_eq {statement : Stmt} {route : Route}
    (goes : statement.GoesTo route) : statement.route = route := by
  cases goes with
  | declaration name body => rfl
  | contents body isFlag => exact branchRoute_of_isFlagOf body isFlag
  | prologue body otherwise untested =>
    refine (branchRoute_of_noFlag body ?_).trans (by rw [untested]; rfl)
    intro _ action isFlag
    rw [isFlag.actions_eq] at untested
    contradiction
  | guarded body noFlag tested =>
    exact (branchRoute_of_noFlag body fun _ => noFlag).trans (by rw [tested]; rfl)
  | @dispatched condition body otherwise tested several =>
    have several : otherwise.isSome = false → condition.actions.length ≠ 1 := by
      intro alone
      exact several (Option.isSome_eq_false_iff.mp alone |> Option.isNone_iff_eq_none.mp)
    refine (branchRoute_of_noFlag body ?_).trans ?_
    · intro alone action isFlag
      exact several alone (by rw [isFlag.actions_eq]; rfl)
    · exact Route.ofTested_of_several tested several
  | creation other =>
    cases statement <;> first | rfl | exact other.elim

/-- The rules cover every statement that is neither a block nor empty. -/
theorem Stmt.goesTo_route {statement : Stmt} (noBlock : ∀ inner, statement ≠ .block inner)
    (notEmpty : statement ≠ .empty) : statement.GoesTo statement.route := by
  cases statement with
  | block inner => exact absurd rfl (noBlock inner)
  | empty => exact absurd rfl notEmpty
  | function name body => exact .declaration name body
  | branch condition body otherwise =>
    by_cases isFlag : otherwise = none ∧ ∃ action, condition.IsFlagOf action
    · obtain ⟨rfl, action, isFlag⟩ := isFlag
      have route := branchRoute_of_isFlagOf body isFlag
      exact (show Stmt.route (.branch condition body none) = _ from route) ▸
        GoesTo.contents body isFlag
    · have noFlag : otherwise.isSome = false → ∀ action, ¬condition.IsFlagOf action := by
        intro alone action flag
        exact isFlag ⟨Option.isNone_iff_eq_none.mp (Option.isSome_eq_false_iff.mp alone),
          action, flag⟩
      rw [Stmt.route, branchRoute_of_noFlag body noFlag]
      by_cases untested : condition.actions = []
      · rw [untested]
        exact .prologue body otherwise untested
      · by_cases several : otherwise = none → condition.actions.length ≠ 1
        · rw [Route.ofTested_of_several untested (by simpa using several)]
          exact .dispatched body otherwise untested several
        · simp only [ne_eq, Classical.not_imp, Classical.not_not] at several
          obtain ⟨rfl, single⟩ := several
          obtain ⟨action, tested⟩ := List.length_eq_one_iff.mp single
          rw [tested]
          exact .guarded body (noFlag rfl) tested
  | _ => exact .creation trivial

mutual

/-- What a statement stands for is neither a block nor empty. -/
theorem Stmt.goesTo_route_of_mem_flattened {statement : Stmt} :
    ∀ {first : Stmt}, statement ∈ first.flattened → statement.GoesTo statement.route
  | .block inner, member => by
    rw [Stmt.flattened] at member
    exact Script.goesTo_route_of_mem_flattened member
  | .empty, member => by
    simp [Stmt.flattened] at member
  | .branch _ _ _, member | .forLoop _ _ _ _, member | .whileLoop _ _, member
  | .breakLoop, member | .continueLoop, member | .giveBack _, member
  | .command _ _, member | .function _ _, member | .expression _, member => by
    rw [Stmt.flattened] at member
    · obtain rfl := List.mem_singleton.mp member
      exact Stmt.goesTo_route (by simp) (by simp)
    all_goals simp

/-- The rules cover every statement of a flattened script. -/
theorem Script.goesTo_route_of_mem_flattened {statement : Stmt} :
    ∀ {script : Script}, statement ∈ Script.flattened script →
      statement.GoesTo statement.route
  | [], member => by simp [Script.flattened] at member
  | first :: rest, member => by
    rw [Script.flattened] at member
    rcases List.mem_append.mp member with member | member
    · exact Stmt.goesTo_route_of_mem_flattened member
    · exact Script.goesTo_route_of_mem_flattened member

end

/-! ## Events of the table -/

/-- Events are told apart by their names, and so are their callbacks. -/
theorem Action.eq_of_mem_table {first second : Action} (known : first ∈ table)
    (knownSecond : second ∈ table)
    (same : first.name = second.name ∨ first.callback = second.callback) : first = second := by
  have apart : ∀ first ∈ table, ∀ second ∈ table,
      first.name = second.name ∨ first.callback = second.callback → first = second := by
    decide +kernel
  exact apart first known second knownSecond same

theorem Action.mem_table_of_find? {name : String} (found : Action.find? name = some action) :
    action ∈ Action.table :=
  List.mem_of_find?_eq_some found

theorem Action.name_of_find? {spelling : String} (found : Action.find? spelling = some action) :
    action.name = spelling := by
  have same := List.find?_some found
  exact beq_iff_eq.mp same

/-- Every flag is the flag of an event in the table. -/
theorem Expr.mem_table_of_mem_flags (position : Position) (expr : Expr) :
    action ∈ expr.flags position → action ∈ Action.table := by
  have chats : Action.chat ∈ Action.table := by decide
  apply Expr.flags.induct (fun position expr => action ∈ expr.flags position → action ∈ Action.table)
    (fun position exprs => action ∈ Expr.flagsOfAll position exprs → action ∈ Action.table)
  case case6 =>
    intro spelling member
    rw [Expr.flags, Option.mem_toList] at member
    exact Action.mem_table_of_find? member
  all_goals simp +contextual [Expr.flags, Expr.flagsOfAll, or_imp, chats]

theorem mem_of_mem_distinctActions {actions : List Action}
    (member : action ∈ distinctActions actions) : action ∈ actions := by
  induction actions with
  | nil => exact member
  | cons first rest ih =>
    rw [distinctActions, List.mem_cons, List.mem_filter] at member
    rcases member with rfl | ⟨later, _⟩
    · exact List.mem_cons_self
    · exact List.mem_cons_of_mem _ (ih later)

/-- A condition tests events of the table. -/
theorem Expr.mem_table_of_mem_actions {action : Action} {condition : Expr}
    (member : action ∈ condition.actions) : action ∈ Action.table :=
  condition.mem_table_of_mem_flags .free (mem_of_mem_distinctActions member)

end EventScript
