import EventScript.Proofs.Outline.Routes
import EventScript.Proofs.Text.WholeLines

/-!
# Lines of the outline

The code for statements inside functions is indented, whatever the statements
hold, and every line that the outline adds itself is one line.
-/

namespace EventScript

open Text

variable {action : Action} {event : EventBody}

/-! ## Statements -/

theorem indented_enclosed (depth : Nat) (opening : String) {body : String}
    (indented : Indented body) : Indented (enclosed (depth + 1) opening body) :=
  ((indented_block depth _).append indented).append (indented_block depth _)

mutual

/-- The code for a statement inside a function is indented. -/
theorem indented_renderStmt (site : Site) :
    ∀ (form : StmtForm) (depth : Nat) (statement : Stmt),
      Indented (renderStmt site form (depth + 1) statement).value
  | form, depth, .block statements => by
    cases form with
    | contents => exact indented_renderStmts site depth statements
    | plain | alternative =>
      exact ((indented_block depth _).append
        (indented_renderStmts site (depth + 1) statements)).append (indented_block depth _)
  | form, depth, .branch condition whenTrue none =>
    ((indented_block depth _).append
      (indented_renderStmt site .contents (depth + 1) whenTrue)).append (indented_block depth _)
  | form, depth, .branch condition whenTrue (some other) => by
    have opened := (indented_block depth
      (form.lead ++ "if (" ++ (render site .condition condition).value ++ ") \x7b")).append
        (indented_renderStmt site .contents (depth + 1) whenTrue)
    rw [renderStmt, Emission.value_bind, Emission.value_bind]
    dsimp only
    split
    · exact opened.append (indented_renderStmt site .alternative depth other)
    · exact opened.append
        (indented_enclosed depth _ (indented_renderStmt site .contents (depth + 1) other))
  | form, depth, .forLoop _ _ _ body =>
    indented_enclosed depth _ (indented_renderStmt site .contents (depth + 1) body)
  | form, depth, .whileLoop _ body =>
    indented_enclosed depth _ (indented_renderStmt site .contents (depth + 1) body)
  | _, depth, .breakLoop => indented_block depth _
  | _, depth, .continueLoop => indented_block depth _
  | _, depth, .giveBack none => indented_block depth _
  | _, depth, .giveBack (some _) => indented_block depth _
  | _, depth, .command _ _ => indented_block depth _
  | _, depth, .function _ body =>
    indented_enclosed depth _ (indented_renderStmt site .contents (depth + 1) body)
  | _, depth, .expression _ => indented_block depth _
  | _, _, .empty => consists_empty

theorem indented_renderStmts (site : Site) :
    ∀ (depth : Nat) (statements : List Stmt),
      Indented (renderStmts site (depth + 1) statements).value
  | _, [] => consists_empty
  | depth, first :: others =>
    (indented_renderStmt site .plain depth first).append
      (indented_renderStmts site depth others)

end

/-! ## Lines around the statements -/

/-- Names of events and callbacks are on one line. -/
theorem oneLine_of_mem_table (member : action ∈ Action.table) :
    OneLine action.name ∧ OneLine action.callback := by
  have named : ∀ action ∈ Action.table,
      OneLine action.name ∧ OneLine action.callback := by decide +kernel
  exact named action member

/-- The names of callbacks end in front of their parameters. -/
theorem bare_callback_of_mem_table (member : action ∈ Action.table) :
    '(' ∉ action.callback.toList := by
  have bare : ∀ action ∈ Action.table, '(' ∉ action.callback.toList := by decide +kernel
  exact bare action member

theorem oneLine_roleArgument (place : Section) (role : Role) :
    OneLine (place.roleArgument role) := by
  rw [Section.roleArgument]
  split
  · cases role <;> decide
  · decide

/-- The lines in front of the body of a callback are on one line each. -/
theorem oneLine_playerLines (options : Options) (action : Action) :
    ∀ line ∈ EventBody.playerLines options action, OneLine line := by
  have found : OneLine (EventBody.playerSource options action) := by
    have listed : OneLine (options.playerList.accessor ++ "[0]") := by
      cases options.playerList <;> decide
    rw [EventBody.playerSource]
    repeat' split
    · decide
    · decide
    · exact listed
  rw [EventBody.playerLines, List.forall_mem_cons]
  refine ⟨?_, ?_⟩
  · simp only [oneLine_append]
    exact ⟨⟨by decide, found⟩, by decide⟩
  · split <;> decide

theorem oneLine_prologueCall (known : event.action ∈ Action.table) (prologue : String) :
    OneLine (event.prologueCall prologue) := by
  have player (chosen : Bool) : OneLine (if chosen then Role.player.name else "null") := by
    cases chosen <;> decide
  unfold EventBody.prologueCall
  simp only [oneLine_append, and_assoc]
  exact ⟨by decide, by decide, by decide, (oneLine_of_mem_table known).1, by decide, player _,
    by decide, oneLine_roleArgument _ _, by decide, oneLine_roleArgument _ _, by decide⟩

/-- The call of the dispatcher in an event is on one line. -/
theorem oneLine_dispatchCall (known : action ∈ Action.table) :
    OneLine (Section.event action).dispatchCall := by
  unfold Section.dispatchCall Section.actionName
  simp only [oneLine_append, and_assoc]
  exact ⟨by decide, by decide, (oneLine_of_mem_table known).1, by decide, by decide,
    oneLine_roleArgument _ _, by decide, oneLine_roleArgument _ _, by decide,
    oneLine_roleArgument _ _, by decide⟩

theorem indented_codeLine (depth : Nat) {content : String} (oneLine : OneLine content) :
    Indented (codeLine (depth + 1) content) := by
  refine consists_line (noFeed_indentation_append oneLine)
    (isInner_indentation depth content.toList) ?_
  rw [codeLine, String.toList_ofList]
  rfl

theorem oneLine_parameters (event : EventBody) (prologue : String) :
    OneLine (", ".intercalate ((event.parameters prologue).map Role.name)) := by
  refine oneLine_intercalate (by decide) (List.forall_mem_map.mpr ?_)
  rintro (_ | _ | _) _ <;> decide

/-- The lines in front of the body of a callback. -/
def EventBody.preamble (options : Options) (prologue : String) (event : EventBody) :
    List String :=
  (if event.findsPlayer prologue then playerLines options event.action else []) ++
    if prologue.isEmpty then [] else [event.prologueCall prologue]

/-- The body of a callback is indented if the code for its statements is. -/
theorem indented_callbackBody (options : Options) (prologue : String)
    (known : event.action ∈ Action.table) (indented : Indented event.body) :
    Indented
      (String.join ((event.preamble options prologue).map (codeLine 1)) ++ event.body) := by
  refine Consists.append ?_ indented
  refine consists_join (List.forall_mem_map.mpr ?_)
  intro line member
  refine indented_codeLine 0 ?_
  rcases List.mem_append.mp member with found | run
  · split at found
    · exact oneLine_playerLines options event.action line found
    · cases found
  · split at run
    · cases run
    · rw [List.mem_singleton.mp run]
      exact oneLine_prologueCall known prologue

theorem indented_forward (known : event.action ∈ Action.table) (indented : Indented event.body) :
    event.forward.action ∈ Action.table ∧ Indented event.forward.body := by
  rw [EventBody.forward]
  split
  · exact ⟨known, indented⟩
  · exact ⟨known, indented.append (indented_codeLine 0 (oneLine_dispatchCall known))⟩

end EventScript
