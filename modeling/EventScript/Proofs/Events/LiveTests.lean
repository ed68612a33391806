import EventScript.Proofs.Events.Links
import EventScript.Proofs.Rendering.Scanning

/-!
# Live tests in the shared functions

The shared functions compare the event that they are called for with the events
whose flags are tested in them.  A test is live if the event has a callback, and
in the dispatcher if that callback calls the dispatcher.  Callbacks are made for
the events of the outermost conditions.  Tests that are written for an outermost
condition are live; tests elsewhere in a statement are live if an outermost
condition tests the event too.
-/

namespace EventScript

/-! ## Where tests are written -/

/-- The comparison of the event that a shared function is called for with
another one. -/
def Action.comparison (action : Action) : String :=
  "_actionName == \"" ++ action.name ++ "\""

/-- The functions that are told the event by their caller. -/
def Section.IsShared (place : Section) : Prop :=
  place = .dispatcher ∨ place = .prologue

theorem Section.IsShared.actionTest_eq {place : Section} (shared : place.IsShared)
    (action : Action) : place.actionTest action = action.comparison := by
  rcases shared with rfl | rfl <;> rfl

theorem Section.IsShared.chatTest_eq {place : Section} (shared : place.IsShared) (said : String) :
    place.chatTest said = "(" ++ Action.chat.comparison ++ (" && text == " ++ said ++ ")") := by
  have opening : "(_actionName == \"" = "(" ++ "_actionName == \"" := by decide
  have closing : "\" && text == " = "\"" ++ " && text == " := by decide
  have spelled : place.chatTest said =
      "(_actionName == \"" ++ Action.chat.name ++ "\" && text == " ++ said ++ ")" := by
    rcases shared with rfl | rfl <;> rfl
  unfold Action.comparison
  rw [spelled, opening, closing]
  simp only [String.append_assoc]

theorem Builtin.find?_chatFunction : Builtin.find? Expr.chatFunction = some .chatTest := by
  decide +kernel

namespace Spot

variable {spot : Spot}

/-- In the shared functions the code for a spot compares the event with the ones
that are tested there. -/
theorem exists_comparison_of_mem_tests {action : Action} (tested : action ∈ spot.tests)
    {site : Site} (shared : site.place.IsShared) :
    ∃ before behind, (spot.code site).value = before ++ action.comparison ++ behind := by
  obtain ⟨context, position, expr⟩ := spot
  cases position with
  | member => cases expr <;> cases tested
  | free =>
    cases expr with
    | name spelling =>
      have found : (if context.inRegion then Action.find? spelling else none) =
          some action := by
        by_cases inRegion : context.inRegion <;> simp_all [tests]
      refine ⟨"", "", ?_⟩
      rw [code, codeWith, renderWith, Site.nameCode, found]
      simp [shared.actionTest_eq]
    | call function arguments =>
      cases arguments with
      | nil => cases tested
      | cons first others =>
        obtain ⟨rfl, rfl⟩ : function = Expr.chatFunction ∧ action = .chat := by
          by_cases chats : function = Expr.chatFunction <;> simp_all [tests]
        rw [code, codeWith, renderWith, zipWith_renderAllWith, Site.callCode,
          Builtin.find?_chatFunction]
        exact ⟨_, _, shared.chatTest_eq _⟩
    | _ => cases tested

/-- A spot is an operand of another, at any depth, outside texts. -/
def Encloses : Spot → Spot → Prop :=
  Relation.ReflTransGen fun whole part => part ∈ whole.operands

/-- What a tree of the grammar encloses are such trees, and the scan goes through
them. -/
theorem Sound.of_encloses {part : Spot} (sound : spot.Sound) (encloses : spot.Encloses part) :
    part.Sound ∧ part.flags ⊆ spot.flags := by
  induction encloses with
  | refl => exact ⟨sound, fun _ found => found⟩
  | tail _ member ih =>
    obtain ⟨soundWhole, scannedWhole⟩ := ih
    obtain ⟨soundPart, scanned⟩ := soundWhole.of_mem_operands member
    exact ⟨soundPart, fun _ found => scannedWhole (scanned found)⟩

/-- The events that are tested in a condition, outside texts, are reported. -/
theorem mem_actions_of_encloses {condition : Expr} (shaped : condition.Shaped)
    (encloses : (Spot.condition condition).Encloses spot) {action : Action}
    (tested : action ∈ spot.tests) : action ∈ condition.actions := by
  have sound : (Spot.condition condition).Sound := .free shaped
  have found : action ∈ condition.flags .free :=
    (sound.of_encloses encloses).2 (mem_flags_of_mem_tests tested)
  obtain ⟨reported, isReported, sameName⟩ := Expr.exists_mem_actions_of_mem_flags found
  obtain rfl := Action.eq_of_mem_table (Expr.mem_table_of_mem_actions isReported)
    (condition.mem_table_of_mem_flags .free found) (.inl sameName)
  exact isReported

end Spot

/-! ## Callbacks for tested events -/

/-- Which tests in the shared functions of the code for a script are live. -/
structure Outline.LiveTests (outline : Outline) (script : Script) (code : String) : Prop where
  /-- Every callback is in the code. -/
  callbacks : ∃ front behind, code = "\n".intercalate
    (front ++ outline.callbacks.map (EventBody.callback outline.options outline.prologue) ++ behind)
  /-- Where the flag of an event is tested, the shared functions compare. -/
  compared : ∀ (spot : Spot) (place : Section), place.IsShared → ∀ action ∈ spot.tests,
    ∃ before behind, (spot.code ⟨outline.options, place⟩).value =
      before ++ action.comparison ++ behind
  /-- An event that is tested in the condition of a branch in the dispatcher,
  outside texts, has a callback that calls the dispatcher. -/
  outermost : ∀ condition body otherwise actions,
    .branch condition body otherwise ∈ Script.flattened script →
    (Stmt.branch condition body otherwise).GoesTo (.dispatched actions) →
    ∀ spot, (Spot.condition condition).Encloses spot → ∀ action ∈ spot.tests,
      ∃ event ∈ outline.callbacks, event.action = action ∧
        ∃ before behind, event.body = before ++ Piece.forwardingLine action ++ behind
  /-- The condition of a branch in the prologue tests no event outside texts. -/
  untested : ∀ condition body otherwise,
    .branch condition body otherwise ∈ Script.flattened script →
    (Stmt.branch condition body otherwise).GoesTo .prologue →
    ∀ spot, (Spot.condition condition).Encloses spot → spot.tests = []
  /-- The events that are forwarded to the dispatcher are those of the conditions
  of the branches in it. -/
  forwarded : ∀ action,
    (∃ event ∈ outline.callbacks, event.action = action ∧ event.forwards = true) ↔
      script.Dispatches action
  /-- The events with a callback are those that are handled.  Where none is, a
  prologue is run on creation. -/
  handled : ∀ action, (∃ event ∈ outline.callbacks, event.action = action) ↔
    script.Handles action ∨
      action = .created ∧ script.HasPrologue ∧ ∀ other, ¬script.Handles other

/-- Which tests are live in the code for a script that was read. -/
theorem Outline.liveTests_convert (options : Options) (source : String) :
    (Outline.addScript { options := options } (Script.parse source).script).LiveTests
      (Script.parse source).script (convert options source).code := by
  have shapedCondition {condition : Expr} {body : Stmt} {otherwise : Option Stmt}
      (member : .branch condition body otherwise ∈
        Script.flattened (Script.parse source).script) : condition.Shaped := by
    cases Stmt.shaped_of_mem_flattened_parse member with
    | branch tested _ _ => exact tested
  constructor
  case callbacks => exact Outline.exists_sections_convert options source
  case compared =>
    exact fun spot place shared action tested => Spot.exists_comparison_of_mem_tests tested shared
  case outermost =>
    intro condition body otherwise actions member goes spot encloses action tested
    have reported := Spot.mem_actions_of_encloses (shapedCondition member) encloses tested
    have dispatches : (Script.parse source).script.Dispatches action := by
      refine ⟨_, member, actions, goes, ?_⟩
      cases goes with
      | dispatched => exact reported
    obtain ⟨before, behind, -, whole⟩ := Piece.exists_body_eq
      ((Script.any_forwards_iff dispatches.handles.mem_table).mpr dispatches)
    exact ⟨_, Outline.eventBody_mem_callbacks dispatches.handles, rfl, before, behind, whole⟩
  case untested =>
    intro condition body otherwise member goes spot encloses
    refine List.eq_nil_iff_forall_not_mem.mpr fun action tested => ?_
    have reported := Spot.mem_actions_of_encloses (shapedCondition member) encloses tested
    cases goes with
    | prologue _ _ untested => exact absurd (untested ▸ reported) List.not_mem_nil
  case forwarded =>
    intro action
    constructor
    · rintro ⟨event, member, rfl, forwards⟩
      obtain ⟨isBody, _⟩ := Outline.mem_callbacks_iff.mp member
      have known := (Outline.body_of_mem_callbacks member).1
      exact (Script.any_forwards_iff known).mp ((congrArg EventBody.forwards isBody).symm.trans
        forwards)
    · intro dispatches
      exact ⟨_, Outline.eventBody_mem_callbacks dispatches.handles, rfl,
        (Script.any_forwards_iff dispatches.handles.mem_table).mpr dispatches⟩
  case handled =>
    intro action
    constructor
    · rintro ⟨event, member, rfl⟩
      exact (Outline.mem_callbacks_iff.mp member).2
    · intro handled
      exact ⟨Piece.eventBody (Script.pieces options _) action,
        Outline.mem_callbacks_iff.mpr ⟨rfl, handled⟩, rfl⟩

/-- A test behind `else` that is dead: the dispatcher compares the event with one
that has no callback. -/
theorem dead_test_behind_else :
    let code := (convert {} "if (playerenters || timeout) hide; else if (wasshot) show;").code
    ((functionBody? code dispatcherName).any fun body =>
        Text.contains body "_actionName == \"wasshot\"") = true ∧
      definitions "onWasShot" code = 0 := by
  dsimp only
  constructor
  · rw [convert_code_eq_functions,
      functionBody?_intercalate (wellFormed_functions_parse _ _) (by decide)]
    decide +kernel
  · rw [definitions_convert _ _ (by decide)]
    decide +kernel

end EventScript
