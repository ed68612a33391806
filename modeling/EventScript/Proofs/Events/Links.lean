import EventScript.Proofs.Events.Definitions
import EventScript.Proofs.Rendering.FlagCalls

/-!
# Links between callbacks and shared functions

The shared functions and the helpers are defined if something uses them, once,
and the callbacks call the shared functions if something is in them.  What a
script uses is told by the routes of its statements and the effects of the code
for them; what the code holds is told by its text.
-/

namespace EventScript

variable {action : Action} {name : String}

/-! ## What a script uses -/

namespace Script

/-- Some branch in the dispatcher tests an event in its condition. -/
def Dispatches (script : Script) (action : Action) : Prop :=
  ∃ statement ∈ Script.flattened script, ∃ actions,
    statement.GoesTo (.dispatched actions) ∧ action ∈ actions

/-- Some branch goes to the dispatcher. -/
def HasDispatched (script : Script) : Prop :=
  ∃ statement ∈ Script.flattened script, ∃ actions, statement.GoesTo (.dispatched actions)

/-- Some branch goes to the prologue. -/
def HasPrologue (script : Script) : Prop :=
  ∃ statement ∈ Script.flattened script, statement.GoesTo .prologue

/-- Some event is handled: it has code of its own or calls the dispatcher. -/
def Handles (script : Script) (action : Action) : Prop :=
  ∃ statement ∈ Script.flattened script, ∃ route,
    statement.GoesTo route ∧ action ∈ route.events

/-- A flag is set somewhere, at any depth. -/
def SetsFlag (script : Script) : Prop :=
  ∃ statement ∈ Script.flattened script, statement.SetsFlag

/-- The code for some statement requests a helper. -/
def Requests (options : Options) (script : Script) (name : String) : Prop :=
  ∃ statement ∈ Script.flattened script, ∃ route,
    statement.GoesTo route ∧ .helper name ∈ (route.emission options statement).effects

/-- The code for the statements that belong to an event, without the call of the
dispatcher. -/
def ownCode (options : Options) (script : Script) (action : Action) : String :=
  String.join ((Script.pieces options script).map (Piece.codeFor action))

end Script

/-! ## Bodies of events -/

namespace Piece

variable {pieces : List Piece} {action : Action}

/-- An event that does not call the dispatcher has its own code only. -/
theorem body_of_not_forwards (silent : pieces.any (forwards action) = false) :
    body pieces action = String.join (pieces.map (codeFor action)) := by
  induction pieces using List.reverseRecOn with
  | nil => rfl
  | append_singleton before last ih =>
    rw [List.any_append, Bool.or_eq_false_iff] at silent
    have notLast : last.forwards action = false := by simpa using silent.2
    rw [body_concat, ih silent.1, notLast]
    simp

/-- An event that calls the dispatcher has one line more than its own code. -/
theorem exists_body_eq (forwarding : pieces.any (forwards action) = true) :
    ∃ before behind, before ++ behind = String.join (pieces.map (codeFor action)) ∧
      body pieces action = before ++ forwardingLine action ++ behind := by
  induction pieces using List.reverseRecOn with
  | nil => cases forwarding
  | append_singleton before last ih =>
    rw [body_concat, List.map_append, String.join_append, List.map_singleton]
    cases already : before.any (forwards action) with
    | true =>
      obtain ⟨front, behind, own, whole⟩ := ih already
      refine ⟨front, behind ++ last.codeFor action, ?_, ?_⟩
      · rw [← String.append_assoc, own]
        simp
      · simp [whole, String.append_assoc]
    | false =>
      have now : last.forwards action = true := by
        simpa [already] using forwarding
      refine ⟨body before action ++ last.codeFor action, "", ?_, ?_⟩
      · rw [body_of_not_forwards already]
        simp
      · simp [now]

end Piece

/-! ## Pieces of a script -/

/-- The events that a statement needs are events of the table. -/
theorem Stmt.GoesTo.mem_table_of_mem_events {statement : Stmt} {route : Route}
    (goes : statement.GoesTo route) (member : action ∈ route.events) : action ∈ Action.table := by
  cases goes with
  | declaration | prologue => cases member
  | contents body isFlag =>
    obtain ⟨_, _, found⟩ := isFlag
    rw [List.mem_singleton.mp member]
    exact Action.mem_table_of_find? found
  | @guarded condition _ body noFlag tested =>
    refine @Expr.mem_table_of_mem_actions _ condition ?_
    rw [tested]
    exact member
  | dispatched => exact Expr.mem_table_of_mem_actions member
  | creation =>
    rw [List.mem_singleton.mp member]
    decide

/-- The code for a statement calls the dispatcher exactly if the statement sets a
flag, wherever the statement goes. -/
theorem Stmt.GoesTo.callsDispatcher_emission {statement : Stmt} {route : Route}
    (goes : statement.GoesTo route) (options : Options) :
    (route.emission options statement).CallsDispatcher ↔ statement.SetsFlag := by
  cases goes with
  | contents body isFlag =>
    rw [Stmt.setsFlag_branch_of_isFlagOf isFlag]
    exact callsDispatcher_renderStmt _ _ _ body
  | _ => exact callsDispatcher_renderStmt _ _ _ _

theorem Route.ledger_piece (options : Options) (statement : Stmt) (route : Route) :
    (route.piece options statement).ledger =
      Ledger.ofEffects (route.emission options statement).effects := by
  rw [Route.piece_eq]
  simp [Ledger.recordAll_eq_extend, Ledger.extend, List.removeAll]

namespace Script

variable {options : Options} {script : Script}

theorem mem_pieces {piece : Piece} :
    piece ∈ Script.pieces options script ↔
      ∃ statement ∈ Script.flattened script, ∃ route,
        statement.GoesTo route ∧ route.piece options statement = piece := by
  rw [Script.pieces, List.mem_map]
  constructor
  · rintro ⟨statement, member, rfl⟩
    exact ⟨statement, member, _, Script.goesTo_route_of_mem_flattened member, rfl⟩
  · rintro ⟨statement, member, route, goes, rfl⟩
    exact ⟨statement, member, by rw [goes.route_eq]⟩

theorem handles_of_mem_needed (member : action ∈ Piece.needed (Script.pieces options script)) :
    script.Handles action := by
  obtain ⟨piece, among, needs⟩ := List.mem_flatMap.mp (mem_of_mem_distinctActions member)
  obtain ⟨statement, isStatement, route, goes, rfl⟩ := mem_pieces.mp among
  exact ⟨statement, isStatement, route, goes, needs⟩

theorem Handles.mem_table (handles : script.Handles action) : action ∈ Action.table := by
  obtain ⟨_, _, _, goes, member⟩ := handles
  exact goes.mem_table_of_mem_events member

/-- The events that need a callback are those that are handled. -/
theorem mem_needed_iff :
    action ∈ Piece.needed (Script.pieces options script) ↔ script.Handles action := by
  refine ⟨handles_of_mem_needed, fun handles => ?_⟩
  obtain ⟨statement, isStatement, route, goes, member⟩ := handles
  have among : action ∈ (Script.pieces options script).flatMap fun piece => piece.route.events :=
    List.mem_flatMap.mpr ⟨_, mem_pieces.mpr ⟨statement, isStatement, route, goes, rfl⟩, member⟩
  have needed : ((Piece.needed (Script.pieces options script)).any fun event =>
      event.name == action.name) = true := by
    rw [Piece.needed, any_distinctActions]
    exact List.any_eq_true.mpr ⟨action, among, beq_self_eq_true _⟩
  obtain ⟨event, isNeeded, same⟩ := List.any_eq_true.mp needed
  obtain rfl := Action.eq_of_mem_table (handles_of_mem_needed isNeeded).mem_table
    (goes.mem_table_of_mem_events member) (.inl (beq_iff_eq.mp same))
  exact isNeeded

/-- The events that a branch in the dispatcher tests call the dispatcher. -/
theorem any_forwards_iff (known : action ∈ Action.table) :
    (Script.pieces options script).any (Piece.forwards action) = true ↔
      script.Dispatches action := by
  rw [List.any_eq_true]
  constructor
  · rintro ⟨piece, among, forwards⟩
    obtain ⟨statement, isStatement, route, goes, rfl⟩ := mem_pieces.mp among
    obtain ⟨event, isForwarding, same⟩ := List.any_eq_true.mp forwards
    change event ∈ route.forwarding at isForwarding
    obtain rfl := Action.eq_of_mem_table
      (goes.mem_table_of_mem_events (List.mem_append_right _ isForwarding)) known
      (.inl (beq_iff_eq.mp same))
    cases route with
    | dispatched actions => exact ⟨statement, isStatement, actions, goes, isForwarding⟩
    | _ => cases isForwarding
  · rintro ⟨statement, isStatement, actions, goes, member⟩
    exact ⟨_, mem_pieces.mpr ⟨statement, isStatement, _, goes, rfl⟩,
      List.any_eq_true.mpr ⟨action, member, beq_self_eq_true _⟩⟩

theorem Dispatches.handles (dispatches : script.Dispatches action) : script.Handles action := by
  obtain ⟨statement, isStatement, actions, goes, member⟩ := dispatches
  exact ⟨statement, isStatement, _, goes, member⟩

/-- The dispatcher is called if a branch goes there or a flag is set. -/
theorem callsDispatcher_iff :
    Piece.callsDispatcher (Script.pieces options script) = true ↔
      script.HasDispatched ∨ script.SetsFlag := by
  have called (statement : Stmt) (route : Route) :
      (route.piece options statement).ledger.dispatcherCalled = true ↔
        (route.emission options statement).CallsDispatcher := by
    rw [Route.ledger_piece]
    exact List.contains_iff_mem
  rw [Piece.callsDispatcher, List.any_eq_true]
  constructor
  · rintro ⟨piece, among, calls⟩
    obtain ⟨statement, isStatement, route, goes, rfl⟩ := mem_pieces.mp among
    rw [Bool.or_eq_true] at calls
    rcases calls with sets | forwards
    · exact .inr ⟨statement, isStatement,
        (goes.callsDispatcher_emission options).mp ((called statement route).mp sets)⟩
    · cases route with
      | dispatched actions => exact .inl ⟨statement, isStatement, actions, goes⟩
      | _ => cases forwards
  · rintro (⟨statement, isStatement, actions, goes⟩ | ⟨statement, isStatement, sets⟩)
    · refine ⟨_, mem_pieces.mpr ⟨statement, isStatement, _, goes, rfl⟩, ?_⟩
      have tested : actions ≠ [] := by
        cases goes with
        | dispatched _ _ tested _ => exact tested
      cases actions with
      | nil => exact absurd rfl tested
      | cons => exact Bool.or_true _
    · have goes := Script.goesTo_route_of_mem_flattened isStatement
      refine ⟨_, mem_pieces.mpr ⟨statement, isStatement, _, goes, rfl⟩, ?_⟩
      rw [(called statement _).mpr ((goes.callsDispatcher_emission options).mpr sets)]
      exact Bool.true_or _

theorem mem_helpers_iff :
    name ∈ Piece.helpers (Script.pieces options script) ↔ script.Requests options name := by
  have requested (statement : Stmt) (route : Route) :
      name ∈ (route.piece options statement).ledger.helpers ↔
        .helper name ∈ (route.emission options statement).effects := by
    rw [Route.ledger_piece, Ledger.ofEffects, List.mem_eraseDups, List.mem_filterMap]
    constructor
    · rintro ⟨effect, member, isHelper⟩
      cases effect with
      | helper other => exact Option.some.inj isHelper ▸ member
      | _ => cases isHelper
    · exact fun member => ⟨_, member, rfl⟩
  rw [Piece.helpers, List.mem_eraseDups, List.mem_flatMap]
  constructor
  · rintro ⟨piece, among, member⟩
    obtain ⟨statement, isStatement, route, goes, rfl⟩ := mem_pieces.mp among
    exact ⟨statement, isStatement, route, goes, (requested statement route).mp member⟩
  · rintro ⟨statement, isStatement, route, goes, member⟩
    exact ⟨_, mem_pieces.mpr ⟨statement, isStatement, route, goes, rfl⟩,
      (requested statement route).mpr member⟩

/-- Requested helpers have a source. -/
theorem Requests.find?_isSome (requests : script.Requests options name) :
    (Helper.find? name).isSome := by
  obtain ⟨statement, _, route, _, member⟩ := requests
  have known : (route.emission options statement).Known := by
    cases route <;> exact known_renderStmt _ _ _ _
  exact known _ member

theorem codesIn_eq_nil_iff {place : Section} :
    Piece.codesIn place (Script.pieces options script) = [] ↔
      ∀ statement ∈ Script.flattened script, ∀ route,
        statement.GoesTo route → route.place ≠ place := by
  rw [Piece.codesIn, List.map_eq_nil_iff, List.filter_eq_nil_iff]
  constructor
  · intro absent statement isStatement route goes here
    exact absent _ (mem_pieces.mpr ⟨statement, isStatement, route, goes, rfl⟩)
      (decide_eq_true here)
  · intro elsewhere piece among here
    obtain ⟨statement, isStatement, route, goes, rfl⟩ := mem_pieces.mp among
    exact elsewhere statement isStatement route goes (of_decide_eq_true here)

/-- Where nothing calls the dispatcher, nothing is in it. -/
theorem codesIn_dispatcher_eq_nil
    (uncalled : ¬(script.HasDispatched ∨ script.SetsFlag)) :
    Piece.codesIn .dispatcher (Script.pieces options script) = [] := by
  refine codesIn_eq_nil_iff.mpr fun statement isStatement route goes here => uncalled (.inl ?_)
  cases route with
  | dispatched actions => exact ⟨statement, isStatement, actions, goes⟩
  | _ => cases here

theorem codesIn_prologue_eq_nil_iff :
    Piece.codesIn .prologue (Script.pieces options script) = [] ↔ ¬script.HasPrologue := by
  rw [codesIn_eq_nil_iff]
  constructor
  · rintro absent ⟨statement, isStatement, goes⟩
    exact absent statement isStatement _ goes rfl
  · intro absent statement isStatement route goes here
    cases route with
    | prologue => exact absent ⟨statement, isStatement, goes⟩
    | _ => cases here

end Script

/-! ## Callbacks of a script -/

namespace Outline

variable {options : Options} {script : Script}

theorem prologue_isEmpty_iff :
    (addScript { options := options } script).prologue.isEmpty = true ↔ ¬script.HasPrologue := by
  have hasCode := @codesIn_ne_empty options _ .prologue
    (fun _ => @Script.goesTo_route_of_mem_flattened _ script) (.inr (.inr rfl))
  rw [addScript_eq_ofPieces, ofPieces, Script.pieces, isEmpty_join hasCode, List.isEmpty_iff,
    ← Script.pieces, Script.codesIn_prologue_eq_nil_iff]

/-- The callbacks are the bodies of the events that are handled.  Where none is,
a prologue is run on creation. -/
theorem mem_callbacks_iff {event : EventBody} :
    event ∈ (addScript { options := options } script).callbacks ↔
      event = Piece.eventBody (Script.pieces options script) event.action ∧
        (script.Handles event.action ∨
          event.action = .created ∧ script.HasPrologue ∧ ∀ action, ¬script.Handles action) := by
  have events : (addScript { options := options } script).events =
      (Piece.needed (Script.pieces options script)).map
        (Piece.eventBody (Script.pieces options script)) := by
    rw [addScript_eq_ofPieces]
    rfl
  have noEvents : (Piece.needed (Script.pieces options script)).isEmpty = true ↔
      ∀ action, ¬script.Handles action := by
    rw [List.isEmpty_iff, List.eq_nil_iff_forall_not_mem]
    exact forall_congr' fun _ => not_congr Script.mem_needed_iff
  have alone : ((Piece.needed (Script.pieces options script)).isEmpty &&
        !(addScript { options := options } script).prologue.isEmpty) = true ↔
      (∀ action, ¬script.Handles action) ∧ script.HasPrologue := by
    rw [Bool.and_eq_true, noEvents, Bool.not_eq_true', ← Bool.not_eq_true, prologue_isEmpty_iff,
      Classical.not_not]
  have createdBody (none : ∀ action, ¬script.Handles action) :
      Piece.eventBody (Script.pieces options script) .created = { action := .created } := by
    refine Piece.eventBody_of_absent fun other isNeeded => ?_
    exact absurd (Script.mem_needed_iff.mp isNeeded) (none other)
  rw [callbacks, events, List.isEmpty_map]
  split
  · rename_i isAlone
    obtain ⟨none, hasPrologue⟩ := alone.mp isAlone
    rw [List.mem_singleton]
    constructor
    · rintro rfl
      exact ⟨(createdBody none).symm, .inr ⟨rfl, hasPrologue, none⟩⟩
    · rintro ⟨body, handled | ⟨created, _, _⟩⟩
      · exact absurd handled (none _)
      · rw [body, created, createdBody none]
  · rename_i notAlone
    rw [List.mem_map]
    constructor
    · rintro ⟨action, isNeeded, rfl⟩
      exact ⟨rfl, .inl (Script.mem_needed_iff.mp isNeeded)⟩
    · rintro ⟨body, handled | ⟨_, hasPrologue, none⟩⟩
      · exact ⟨_, Script.mem_needed_iff.mpr handled, body.symm⟩
      · exact absurd (alone.mpr ⟨none, hasPrologue⟩) notAlone

theorem eventBody_mem_callbacks (handles : script.Handles action) :
    Piece.eventBody (Script.pieces options script) action ∈
      (addScript { options := options } script).callbacks :=
  mem_callbacks_iff.mpr ⟨rfl, .inl handles⟩

/-- An event has one callback at most. -/
theorem nodup_callbacks :
    ((addScript { options := options } script).callbacks.map EventBody.action).Nodup := by
  rw [callbacks]
  split
  · exact List.nodup_singleton _
  · rw [addScript_eq_ofPieces, ofPieces, List.map_map]
    change ((Piece.needed (Script.pieces options script)).map id).Nodup
    rw [List.map_id]
    refine (Piece.namesDiffer_needed _).imp ?_
    exact fun differ same => differ (congrArg Action.name same)

/-- A prologue is run by some callback. -/
theorem callbacks_ne_nil (hasPrologue : script.HasPrologue) :
    (addScript { options := options } script).callbacks ≠ [] := by
  by_cases none : ∀ action, ¬script.Handles action
  · exact List.ne_nil_of_mem (mem_callbacks_iff.mpr
      (⟨rfl, .inr ⟨rfl, hasPrologue, none⟩⟩ : Piece.eventBody _ Action.created = _ ∧ _))
  · obtain ⟨action, handles⟩ := Classical.not_forall_not.mp none
    exact List.ne_nil_of_mem (eventBody_mem_callbacks handles)

end Outline

/-! ## Names of shared functions and helpers -/

/-- The names of the functions that generated code defines on demand. -/
def reservedNames : List String :=
  dispatcherName :: prologueName :: Helper.table.map Helper.name

/-- The names of the functions on demand that an outline defines. -/
def Outline.linkedNames (outline : Outline) : List String :=
  (if outline.dispatcher.isEmpty && !outline.ledger.dispatcherCalled then []
    else [dispatcherName]) ++
    (if outline.prologue.isEmpty then [] else [prologueName]) ++ outline.ledger.helpers

theorem callback_not_mem_reservedNames (known : action ∈ Action.table) :
    action.callback ∉ reservedNames := by
  have apart : ∀ action ∈ Action.table, action.callback ∉ reservedNames := by decide
  exact apart action known

theorem bare_of_mem_reservedNames (reserved : name ∈ reservedNames) : '(' ∉ name.toList := by
  rcases List.mem_cons.mp reserved with rfl | isOther
  · decide
  · rcases List.mem_cons.mp isOther with rfl | isHelper
    · decide
    · obtain ⟨helper, known, rfl⟩ := List.mem_map.mp isHelper
      exact (Helper.plain_of_mem_table known).1

/-- Helpers are no shared functions. -/
theorem Helper.not_sharedName (found : (Helper.find? name).isSome) :
    ¬(name = dispatcherName ∨ name = prologueName) := by
  rintro (rfl | rfl)
  · exact absurd found (by decide)
  · exact absurd found (by decide)

theorem Helper.find?_isSome_of_mem_table {helper : Helper} (known : helper ∈ Helper.table) :
    (Helper.find? helper.name).isSome :=
  List.find?_isSome.mpr ⟨helper, known, beq_self_eq_true helper.name⟩

theorem Helper.name_of_find? {helper : Helper} (found : Helper.find? name = some helper) :
    helper.name = name := by
  have same := List.find?_some found
  exact beq_iff_eq.mp same

namespace Outline

variable {outline : Outline}

/-- The names of the functions of an outline. -/
theorem map_name_functions (known : ∀ name ∈ outline.ledger.helpers, (Helper.find? name).isSome)
    (declared : List CodeFunction) :
    (outline.functions declared).map CodeFunction.name =
      declared.map CodeFunction.name ++
        (outline.callbacks.map fun event => event.action.callback) ++ outline.linkedNames := by
  have shared (chosen : Bool) (name body : String) :
      (if chosen then [] else [CodeFunction.shared name body]).map CodeFunction.name =
        if chosen then [] else [name] := by
    cases chosen <;> rfl
  have helpers : (outline.ledger.helpers.filterMap fun name =>
        (Helper.find? name).map (Helper.function outline.options)).map CodeFunction.name =
      outline.ledger.helpers := by
    rw [List.map_filterMap]
    conv_rhs => rw [← List.filterMap_some (l := outline.ledger.helpers)]
    refine List.filterMap_congr fun name member => ?_
    obtain ⟨helper, found⟩ := Option.isSome_iff_exists.mp (known name member)
    simp [found, Helper.function, Helper.name_of_find? found]
  rw [functions, linkedNames, List.map_append, List.map_append, List.map_append, List.map_append,
    shared, shared, helpers, List.map_map, List.append_assoc, List.append_assoc, List.append_assoc,
    List.append_assoc]
  rfl

/-- Functions on demand are defined once each. -/
theorem nodup_linkedNames (known : ∀ name ∈ outline.ledger.helpers, (Helper.find? name).isSome)
    (nodup : outline.ledger.helpers.Nodup) : outline.linkedNames.Nodup := by
  have dispatcher : dispatcherName ∉ outline.ledger.helpers :=
    fun member => Helper.not_sharedName (known _ member) (.inl rfl)
  have prologue : prologueName ∉ outline.ledger.helpers :=
    fun member => Helper.not_sharedName (known _ member) (.inr rfl)
  have apart : dispatcherName ≠ prologueName := by decide
  rw [linkedNames]
  split <;> split <;> simp [nodup, dispatcher, prologue, apart]

end Outline

section Source

variable {options : Options} {source : String}

/-- The script declares no function with a name that generated code uses. -/
def Script.DeclaresNoReserved (script : Script) : Prop :=
  ∀ name body, Stmt.function name body ∈ Script.flattened script → name ∉ reservedNames

theorem known_helpers_addScript (options : Options) (script : Script) :
    ∀ name ∈ (Outline.addScript { options := options } script).ledger.helpers,
      (Helper.find? name).isSome := by
  rw [Outline.addScript_eq_ofPieces]
  intro name member
  exact (Script.mem_helpers_iff.mp member).find?_isSome

/-- The code for a script defines a function on demand once or not at all. -/
theorem definitions_convert_reserved (reserved : name ∈ reservedNames)
    (unreserved : Script.DeclaresNoReserved (Script.parse source).script) :
    definitions name (convert options source).code =
      if name ∈ (Outline.addScript { options := options }
        (Script.parse source).script).linkedNames then 1 else 0 := by
  have known := known_helpers_addScript options (Script.parse source).script
  have nodup : (Outline.addScript { options := options }
      (Script.parse source).script).ledger.helpers.Nodup := by
    rw [Outline.addScript_eq_ofPieces]
    exact nodup_eraseDups _
  have notDeclared : name ∉
      (Script.declared options (Script.parse source).script).map CodeFunction.name := by
    rw [List.mem_map]
    rintro ⟨function, isDeclared, rfl⟩
    obtain ⟨statement, among, declares⟩ := List.mem_filterMap.mp isDeclared
    cases statement with
    | function declared body =>
      obtain rfl := Option.some.inj declares
      exact unreserved declared body among reserved
    | _ => cases declares
  have noCallback : name ∉ (Outline.addScript { options := options }
      (Script.parse source).script).callbacks.map fun event => event.action.callback := by
    rw [List.mem_map]
    rintro ⟨event, member, rfl⟩
    have unmarked := (Outline.unmarked_addScript options source).callbacks event member
    exact callback_not_mem_reservedNames unmarked.1 reserved
  have counted (functions : List CodeFunction) :
      functions.countP (fun function => function.name == name) =
        (functions.map CodeFunction.name).count name := by
    rw [List.count, List.countP_map]
    rfl
  rw [definitions_convert options source (bare_of_mem_reservedNames reserved), counted,
    Outline.map_name_functions known, List.count_append, List.count_append,
    List.count_eq_zero_of_not_mem notDeclared, List.count_eq_zero_of_not_mem noCallback,
    List.Nodup.count (Outline.nodup_linkedNames known nodup), Nat.zero_add]

end Source

/-- The functions on demand that the code for a script defines are those that the
script uses. -/
theorem Script.mem_linkedNames_iff {options : Options} {script : Script} :
    name ∈ (Outline.addScript { options := options } script).linkedNames ↔
      name = dispatcherName ∧ (script.HasDispatched ∨ script.SetsFlag) ∨
        name = prologueName ∧ script.HasPrologue ∨ script.Requests options name := by
  have called : (Outline.addScript { options := options } script).ledger.dispatcherCalled =
      Piece.callsDispatcher (Script.pieces options script) := by
    rw [Outline.addScript_eq_ofPieces]
    rfl
  have unused : ((Outline.addScript { options := options } script).dispatcher.isEmpty &&
        !(Outline.addScript { options := options } script).ledger.dispatcherCalled) = true ↔
      ¬(script.HasDispatched ∨ script.SetsFlag) := by
    rw [Bool.and_eq_true, called, Bool.not_eq_true', ← Bool.not_eq_true, Script.callsDispatcher_iff]
    refine ⟨And.right, fun uncalled => ⟨?_, uncalled⟩⟩
    rw [Outline.addScript_eq_ofPieces, Outline.ofPieces, Script.codesIn_dispatcher_eq_nil uncalled]
    rfl
  have helpers : name ∈ (Outline.addScript { options := options } script).ledger.helpers ↔
      script.Requests options name := by
    rw [Outline.addScript_eq_ofPieces]
    exact Script.mem_helpers_iff
  have optional {chosen : Bool} {used : Prop} (absent : chosen = true ↔ ¬used) (shared : String) :
      name ∈ (if chosen then [] else [shared]) ↔ name = shared ∧ used := by
    cases chosen with
    | true => simp [absent.mp rfl]
    | false => simp [Classical.not_not.mp (mt absent.mpr Bool.false_ne_true)]
  rw [Outline.linkedNames, List.mem_append, List.mem_append, optional unused,
    optional Outline.prologue_isEmpty_iff, helpers, or_assoc]

/-! ## Linked code -/

/-- The lines with which a callback finds the player, if it has to. -/
def EventBody.playerCode (options : Options) (prologue : String) (event : EventBody) : String :=
  String.join ((if event.findsPlayer prologue then playerLines options event.action
    else []).map (codeLine 1))

/-- A function is defined once where it is used, and otherwise not at all. -/
def DefinedIfUsed (code name : String) (used : Prop) : Prop :=
  (used → definitions name code = 1) ∧ (¬used → definitions name code = 0)

/-- How the callbacks of an outline, the shared functions and the helpers belong
together in the code for a script. -/
structure Outline.Linked (outline : Outline) (script : Script) (code : String) : Prop where
  /-- Every callback is in the code. -/
  callbacks : ∃ front behind, code = "\n".intercalate
    (front ++ outline.callbacks.map (EventBody.callback outline.options outline.prologue) ++ behind)
  /-- Every event has one callback at most. -/
  distinct : (outline.callbacks.map EventBody.action).Nodup
  /-- Every event that a branch in the dispatcher tests has a callback. -/
  dispatched : ∀ action, script.Dispatches action →
    ∃ event ∈ outline.callbacks, event.action = action
  /-- These events call the dispatcher, in one line besides their own code. -/
  forwarding : ∀ event ∈ outline.callbacks, script.Dispatches event.action →
    ∃ before behind, before ++ behind = script.ownCode outline.options event.action ∧
      event.body = before ++ Piece.forwardingLine event.action ++ behind
  /-- All other events have their own code only. -/
  silent : ∀ event ∈ outline.callbacks, ¬script.Dispatches event.action →
    event.body = script.ownCode outline.options event.action
  dispatcher : DefinedIfUsed code dispatcherName (script.HasDispatched ∨ script.SetsFlag)
  prologue : DefinedIfUsed code prologueName script.HasPrologue
  /-- Every callback runs the prologue, behind the lines that find the player and
  in front of its own body. -/
  prologueRun : script.HasPrologue → outline.callbacks ≠ [] ∧ ∀ event ∈ outline.callbacks,
    ∃ parameters arguments, event.callback outline.options outline.prologue =
      functionCode event.action.callback parameters
        (event.playerCode outline.options outline.prologue ++
          codeLine 1 ("this._onAnyAction(\"" ++ event.action.name ++ "\", " ++ arguments ++ ");") ++
          event.body)
  /-- Without a prologue there is no such line. -/
  noPrologue : ¬script.HasPrologue → ∀ event ∈ outline.callbacks,
    ∃ parameters, event.callback outline.options outline.prologue =
      functionCode event.action.callback parameters
        (event.playerCode outline.options outline.prologue ++ event.body)
  /-- Everything that is requested is a helper. -/
  requested : ∀ name, script.Requests outline.options name →
    ∃ helper ∈ Helper.table, helper.name = name
  helpers : ∀ helper ∈ Helper.table,
    DefinedIfUsed code helper.name (script.Requests outline.options helper.name)

/-- The line of a callback that runs the prologue, and none without one. -/
theorem EventBody.callback_eq (options : Options) (prologue : String) (event : EventBody) :
    event.callback options prologue =
      functionCode event.action.callback
        (", ".intercalate ((event.parameters prologue).map Role.name))
        (event.playerCode options prologue ++
          (if prologue.isEmpty then "" else codeLine 1 (event.prologueCall prologue)) ++
          event.body) := by
  rw [EventBody.callback, EventBody.playerCode]
  cases prologue.isEmpty <;> simp

theorem EventBody.exists_prologueCall_eq (event : EventBody) (prologue : String) :
    ∃ arguments, event.prologueCall prologue =
      "this._onAnyAction(\"" ++ event.action.name ++ "\", " ++ arguments ++ ");" := by
  have called : "this." ++ prologueName ++ "(\"" = "this._onAnyAction(\"" := by decide
  refine ⟨(if event.action.has .player || event.findsPlayer prologue then Role.player.name
    else "null") ++ ", " ++ (Section.event event.action).roleArgument .npc ++ ", " ++
      (Section.event event.action).roleArgument .chatText, ?_⟩
  unfold EventBody.prologueCall
  simp only [called, String.append_assoc]

section Linking

variable {options : Options} {script : Script}

theorem Outline.options_addScript :
    (Outline.addScript { options := options } script).options = options := by
  rw [Outline.addScript_eq_ofPieces]
  rfl

/-- What is used is defined once, and what is not used is not defined. -/
theorem definedIfUsed_convert {source : String} {used : Prop} (reserved : name ∈ reservedNames)
    (unreserved : Script.DeclaresNoReserved (Script.parse source).script)
    (linked : name ∈ (Outline.addScript { options := options }
      (Script.parse source).script).linkedNames ↔ used) :
    DefinedIfUsed (convert options source).code name used := by
  rw [DefinedIfUsed, definitions_convert_reserved reserved unreserved, ← linked]
  exact ⟨fun isLinked => if_pos isLinked, fun notLinked => if_neg notLinked⟩

/-- The body of a callback is made of its own code and the call of the
dispatcher. -/
theorem Outline.body_of_mem_callbacks {event : EventBody}
    (member : event ∈ (Outline.addScript { options := options } script).callbacks) :
    event.action ∈ Action.table ∧
      event.body = Piece.body (Script.pieces options script) event.action := by
  obtain ⟨isBody, handled⟩ := Outline.mem_callbacks_iff.mp member
  refine ⟨?_, congrArg EventBody.body isBody⟩
  rcases handled with handles | ⟨created, _, _⟩
  · exact handles.mem_table
  · rw [created]
    decide

end Linking

/-- The callbacks are sections of the generated code. -/
theorem Outline.exists_sections_convert (options : Options) (source : String) :
    let outline := Outline.addScript { options := options } (Script.parse source).script
    ∃ front behind, (convert options source).code = "\n".intercalate
      (front ++ outline.callbacks.map (EventBody.callback outline.options outline.prologue) ++
        behind) := by
  rw [convert_code, Outline.text, Outline.sections, List.append_assoc, List.append_assoc]
  exact ⟨_, _, rfl⟩

/-- The shared functions of generated code are linked exactly where they are
used, for every script that declares no function of a reserved name. -/
theorem Outline.linked_convert (options : Options) (source : String)
    (unreserved : Script.DeclaresNoReserved (Script.parse source).script) :
    (Outline.addScript { options := options } (Script.parse source).script).Linked
      (Script.parse source).script (convert options source).code := by
  have notDispatcher : ¬(Script.parse source).script.Requests options dispatcherName :=
    fun requests => Helper.not_sharedName requests.find?_isSome (.inl rfl)
  have notPrologue : ¬(Script.parse source).script.Requests options prologueName :=
    fun requests => Helper.not_sharedName requests.find?_isSome (.inr rfl)
  have apart : dispatcherName ≠ prologueName := by decide
  constructor
  case callbacks => exact Outline.exists_sections_convert options source
  case distinct => exact Outline.nodup_callbacks
  case dispatched =>
    exact fun action dispatches =>
      ⟨_, Outline.eventBody_mem_callbacks dispatches.handles, rfl⟩
  case forwarding =>
    intro event member dispatches
    obtain ⟨known, body⟩ := Outline.body_of_mem_callbacks member
    rw [body, Outline.options_addScript]
    exact Piece.exists_body_eq ((Script.any_forwards_iff known).mpr dispatches)
  case silent =>
    intro event member silent
    obtain ⟨known, body⟩ := Outline.body_of_mem_callbacks member
    rw [body, Outline.options_addScript]
    exact Piece.body_of_not_forwards
      (Bool.eq_false_iff.mpr (mt (Script.any_forwards_iff known).mp silent))
  case dispatcher =>
    refine definedIfUsed_convert (by decide) unreserved ?_
    simp only [Script.mem_linkedNames_iff, notDispatcher, apart, true_and, false_and, or_false]
  case prologue =>
    refine definedIfUsed_convert (by decide) unreserved ?_
    simp only [Script.mem_linkedNames_iff, notPrologue, apart.symm, true_and, false_and, or_false,
      false_or]
  case prologueRun =>
    intro hasPrologue
    refine ⟨Outline.callbacks_ne_nil hasPrologue, fun event _ => ?_⟩
    obtain ⟨arguments, call⟩ := event.exists_prologueCall_eq
      (Outline.addScript { options := options } (Script.parse source).script).prologue
    rw [EventBody.callback_eq,
      if_neg (mt Outline.prologue_isEmpty_iff.mp (not_not_intro hasPrologue)), call]
    exact ⟨_, arguments, rfl⟩
  case noPrologue =>
    intro noPrologue event _
    rw [EventBody.callback_eq, if_pos (Outline.prologue_isEmpty_iff.mpr noPrologue),
      String.append_empty]
    exact ⟨_, rfl⟩
  case requested =>
    intro name requests
    rw [Outline.options_addScript] at requests
    obtain ⟨helper, found⟩ := Option.isSome_iff_exists.mp requests.find?_isSome
    exact ⟨helper, List.mem_of_find?_eq_some found, Helper.name_of_find? found⟩
  case helpers =>
    intro helper known
    have reserved : helper.name ∈ reservedNames :=
      .tail _ (.tail _ (List.mem_map_of_mem known))
    obtain ⟨notDispatcher, notPrologue⟩ :=
      not_or.mp (Helper.not_sharedName (Helper.find?_isSome_of_mem_table known))
    refine definedIfUsed_convert reserved unreserved ?_
    rw [Script.mem_linkedNames_iff, Outline.options_addScript]
    simp only [notDispatcher, notPrologue, false_and, false_or]

/-- A script with a declared function, a branch in the dispatcher and one in the
prologue. -/
def lampSource : String :=
  "function lamp() \x7bhide;\x7d if (playerenters || timeout) show; if (x == 1) hide;"

set_option maxRecDepth 20000 in
/-- Both shared functions are defined once, and the callbacks of the two events
run the prologue. -/
theorem Outline.linked_convert_lamp :
    Script.DeclaresNoReserved (Script.parse lampSource).script ∧
      definitions dispatcherName (convert {} lampSource).code = 1 ∧
      definitions prologueName (convert {} lampSource).code = 1 ∧
      (Outline.addScript { options := {} } (Script.parse lampSource).script).callbacks ≠ [] := by
  have parsed : (Script.parse lampSource).script =
      [.function "lamp" (.block [.command "hide" []]),
        .branch (.binary .or (.name "playerenters") (.name "timeout")) (.command "show" []) none,
        .branch (.binary .equal (.name "x") (.number "1")) (.command "hide" []) none] := by
    rfl
  have unreserved : Script.DeclaresNoReserved (Script.parse lampSource).script := by
    rw [parsed]
    intro name body member
    obtain ⟨rfl, rfl⟩ : name = "lamp" ∧ body = .block [.command "hide" []] := by
      simpa [Script.flattened, Stmt.flattened] using member
    decide
  have linked := Outline.linked_convert {} lampSource unreserved
  have hasDispatched : (Script.parse lampSource).script.HasDispatched := by
    rw [parsed]
    exact ⟨_, .tail _ (.head _), _, .dispatched _ none (by decide) (by decide)⟩
  have hasPrologue : (Script.parse lampSource).script.HasPrologue := by
    rw [parsed]
    exact ⟨_, .tail _ (.tail _ (.head _)), .prologue _ none (by decide)⟩
  exact ⟨unreserved, linked.dispatcher.1 (.inl hasDispatched), linked.prologue.1 hasPrologue,
    (linked.prologueRun hasPrologue).1⟩

end EventScript
