import EventScript.Proofs.Outline.Pieces
import EventScript.Proofs.Session.Effects
import EventScript.Proofs.Text.Blocks
import Mathlib.Data.List.Forall2
import Mathlib.Data.List.Induction

/-!
# The layout of a conversion

Converting a script is the same as converting each of its top-level statements
alone and assembling the pieces.  The outline adds the statements one by one;
`Outline.ofPieces` says what it holds after any number of them, and adding a
statement adds its piece.
-/

namespace EventScript

variable (actions : List Action)

/-! ## Adding up effects -/

/-- Dropping repetitions twice drops nothing more. -/
private theorem eraseDups_eraseDups {α : Type} [BEq α] [LawfulBEq α] :
    ∀ items : List α, items.eraseDups.eraseDups = items.eraseDups
  | [] => rfl
  | first :: rest => by
    have others := eraseDups_eraseDups (rest.filter fun item => !item == first)
    rw [List.eraseDups_cons, List.eraseDups_cons, ← eraseDups_filter, List.filter_filter]
    simpa using others
termination_by items => items.length
decreasing_by exact Nat.lt_succ_of_le (List.length_filter_le _ _)

/-- Recording effects in a session that goes on is recording them in a session of
their own and adding up the ledgers. -/
theorem Ledger.recordAll_eq_merge (requested : List String) (diagnostics : List Diagnostic)
    (called : Bool) (effects : List Effect) :
    recordAll ⟨requested.eraseDups, diagnostics, called⟩ effects =
      merge ⟨requested, diagnostics, called⟩ (recordAll {} effects) := by
  have alone : recordAll {} effects = ofEffects effects := by
    simp [recordAll_eq_extend, extend, List.removeAll]
  rw [alone, recordAll_eq_extend, extend, merge, List.eraseDups_append]
  simp only [ofEffects, List.removeAll, eraseDups_filter, eraseDups_eraseDups,
    List.elem_eq_mem, List.mem_eraseDups]

/-! ## The code of a piece -/

/-- The code for a statement at its route. -/
def Route.emission (options : Options) (statement : Stmt) : Route → Emission String
  | .declaration => renderStmt ⟨options, .global⟩ .plain 0 statement
  | .contents action body => renderStmt ⟨options, .event action⟩ .contents 1 body
  | .guarded action => renderStmt ⟨options, .event action⟩ .plain 1 statement
  | .prologue => renderStmt ⟨options, .prologue⟩ .plain 1 statement
  | .dispatched _ => renderStmt ⟨options, .dispatcher⟩ .plain 1 statement
  | .creation => renderStmt ⟨options, .create⟩ .plain 1 statement

/-- A session of its own writes the code for the statement and nothing else. -/
theorem Route.piece_eq (options : Options) (statement : Stmt) (route : Route) :
    route.piece options statement =
      ⟨route, (route.emission options statement).value,
        Ledger.recordAll {} (route.emission options statement).effects⟩ := by
  cases route <;>
    simp [Route.piece, Route.session, Route.emission, Session.statement, Session.bodyContents,
      Session.emit, Session.perform, Session.write, Session.fresh, Session.site,
      BufferStack.modifyCurrent, Buffer.text, Buffer.write]

/-- The code for a declared function is not empty. -/
private theorem renderStmt_function_ne_empty (site : Site) (form : StmtForm) (depth : Nat)
    (name : String) (body : Stmt) :
    (renderStmt site form depth (.function name body)).value ≠ "" := by
  intro empty
  simp only [renderStmt, Emission.value_bind, Emission.value_pure, enclosed,
    String.append_eq_empty_iff] at empty
  exact Text.block_ne_empty depth (by simp) empty.1.1

/-- The code for a branch is not empty. -/
private theorem renderStmt_branch_ne_empty (site : Site) (form : StmtForm) (depth : Nat)
    (condition : Expr) (whenTrue : Stmt) (otherwise : Option Stmt) :
    (renderStmt site form depth (.branch condition whenTrue otherwise)).value ≠ "" := by
  have opening (test : String) :
      Text.block depth (form.lead ++ "if (" ++ test ++ ") \x7b") ≠ "" :=
    Text.block_ne_empty depth (by simp)
  intro empty
  rw [renderStmt] at empty
  cases otherwise with
  | none => simp [opening] at empty
  | some other =>
    simp only [Emission.value_bind] at empty
    split at empty <;> simp [opening] at empty

/-- Only a piece that belongs to an event can be without code. -/
theorem Stmt.GoesTo.piece_code_ne_empty {statement : Stmt} {route : Route}
    (goes : statement.GoesTo route) (options : Options) (noEvent : route.event? = none) :
    (route.piece options statement).code ≠ "" := by
  rw [Route.piece_eq]
  cases goes with
  | declaration name body => exact renderStmt_function_ne_empty _ .plain _ _ _
  | prologue body otherwise untested
  | dispatched body otherwise tested several => exact renderStmt_branch_ne_empty _ _ _ _ _ _
  | contents body isFlag => cases noEvent
  | guarded body noFlag tested => cases noEvent
  | creation other => cases noEvent

/-! ## Events in the order of their first need -/

/-- Add an event behind the others unless it is there. -/
def insertAction (events : List Action) (action : Action) : List Action :=
  if events.any fun event => event.name == action.name then events else events ++ [action]

/-- An event is kept if it occurs at all. -/
theorem any_distinctActions (name : String) (actions : List Action) :
    ((distinctActions actions).any fun action => action.name == name) =
      actions.any fun action => action.name == name := by
  induction actions with
  | nil => rfl
  | cons first rest ih =>
    rw [distinctActions, List.any_cons, List.any_cons, ← ih, List.any_filter]
    by_cases same : first.name = name
    · simp [same]
    · simp only [beq_eq_false_iff_ne.mpr same, Bool.false_or]
      congr 1
      funext action
      by_cases named : action.name = name
      · simp [named, Ne.symm same]
      · simp [named]

/-- One event more. -/
private theorem distinctActions_concat (last : Action) :
    distinctActions (actions ++ [last]) = insertAction (distinctActions actions) last := by
  induction actions with
  | nil => rfl
  | cons first rest ih =>
    rw [List.cons_append, distinctActions, ih, distinctActions, insertAction,
      insertAction, List.any_cons, List.any_filter]
    by_cases same : first.name = last.name
    · split <;> simp [same, List.filter_append]
    · have kept : (([last] : List Action).filter fun action => action.name != first.name) =
          [last] := by simp [Ne.symm same]
      have others : ((distinctActions rest).any fun action =>
            action.name != first.name && action.name == last.name) =
          (distinctActions rest).any fun action => action.name == last.name := by
        congr 1
        funext action
        by_cases named : action.name = last.name
        · simp [named, Ne.symm same]
        · simp [named]
      rw [others, beq_eq_false_iff_ne.mpr same, Bool.false_or]
      split <;> simp [List.filter_append, kept]

/-- Several events more. -/
private theorem distinctActions_append (first second : List Action) :
    distinctActions (first ++ second) = second.foldl insertAction (distinctActions first) := by
  induction second generalizing first with
  | nil => simp
  | cons action rest ih =>
    rw [List.foldl_cons, ← distinctActions_concat, ← ih, List.append_assoc]
    rfl

/-- The names of events that are kept once each. -/
def NamesDiffer (events : List Action) : Prop :=
  events.Pairwise fun first second => first.name ≠ second.name

private theorem namesDiffer_distinctActions : NamesDiffer (distinctActions actions) := by
  induction actions with
  | nil => exact List.Pairwise.nil
  | cons first rest ih =>
    refine List.Pairwise.cons ?_ (List.Pairwise.filter _ ih)
    intro action member
    have kept := (List.mem_filter.mp member).2
    exact fun same => by simp [same] at kept

private theorem NamesDiffer.insertAction {events : List Action} (differ : NamesDiffer events)
    (action : Action) : NamesDiffer (insertAction events action) := by
  unfold EventScript.insertAction
  split
  · exact differ
  · rename_i fresh
    refine List.pairwise_append.mpr ⟨differ, List.pairwise_singleton _ _, ?_⟩
    intro event member other isAction same
    rw [List.mem_singleton.mp isAction] at same
    exact fresh (List.any_eq_true.mpr ⟨event, member, by simp [same]⟩)

/-- Changing the body of an event changes it where it is, or begins it behind the
others. -/
private theorem updateEvent_map (action : Action) (change : EventBody → EventBody)
    (events : List Action) (bodyOf : Action → EventBody)
    (named : ∀ event, (bodyOf event).action = event) (differ : NamesDiffer events)
    (begins : (∀ event ∈ events, event.name ≠ action.name) →
      bodyOf action = { action := action }) :
    updateEvent action change (events.map bodyOf) =
      (insertAction events action).map fun event =>
        if event.name == action.name then change (bodyOf event) else bodyOf event := by
  induction events with
  | nil => simp [updateEvent, insertAction, begins]
  | cons first rest ih =>
    obtain ⟨notFirst, differ⟩ := List.pairwise_cons.mp differ
    rw [List.map_cons, updateEvent, named]
    by_cases same : first.name = action.name
    · have untouched : rest.map bodyOf = rest.map fun event =>
          if event.name == action.name then change (bodyOf event) else bodyOf event := by
        refine List.map_congr_left fun event member => ?_
        rw [if_neg]
        rw [← same, beq_iff_eq]
        exact (notFirst event member).symm
      rw [untouched]
      simp [same, insertAction]
    · have isNew : (∀ event ∈ rest, event.name ≠ action.name) →
          bodyOf action = { action := action } := by
        intro fresh
        refine begins fun event member => ?_
        rcases List.mem_cons.mp member with rfl | member
        · exact same
        · exact fresh event member
      have inserted : insertAction (first :: rest) action =
          first :: insertAction rest action := by
        simp only [insertAction, List.any_cons, beq_eq_false_iff_ne.mpr same, Bool.false_or]
        split <;> rfl
      rw [if_neg (by simp [same]), ih differ isNew, inserted]
      simp [same]

/-- An event that calls the dispatcher already is left alone. -/
private theorem EventBody.forward_forward (event : EventBody) :
    event.forward.forward = event.forward := by
  unfold EventBody.forward
  split
  · simp
  · rfl

private theorem EventBody.forward_action (event : EventBody) :
    event.forward.action = event.action := by
  unfold EventBody.forward
  split <;> rfl

/-- Letting several events call the dispatcher. -/
private theorem foldl_forward_map (events : List Action) (bodyOf : Action → EventBody)
    (named : ∀ event, (bodyOf event).action = event) (differ : NamesDiffer events)
    (begins : ∀ action, (∀ event ∈ events, event.name ≠ action.name) →
      bodyOf action = { action := action }) :
    actions.foldl (fun bodies action => updateEvent action EventBody.forward bodies)
        (events.map bodyOf) =
      (actions.foldl insertAction events).map fun event =>
        if actions.any fun action => action.name == event.name then (bodyOf event).forward
        else bodyOf event := by
  induction actions generalizing events bodyOf with
  | nil => simp
  | cons action rest ih =>
    rw [List.foldl_cons, List.foldl_cons,
      updateEvent_map action _ events bodyOf named differ (begins action)]
    rw [ih]
    · refine List.map_congr_left fun event _ => ?_
      rw [List.any_cons]
      by_cases same : action.name = event.name
      · simp only [same, beq_self_eq_true, if_true, Bool.true_or,
          EventBody.forward_forward, ite_self]
      · simp only [beq_eq_false_iff_ne.mpr same, beq_eq_false_iff_ne.mpr (Ne.symm same),
          Bool.false_or, Bool.false_eq_true, if_false]
    · intro event
      split
      · rw [EventBody.forward_action, named]
      · exact named event
    · exact differ.insertAction action
    · intro other absent
      have notInserted : other.name ≠ action.name := by
        intro same
        rw [insertAction] at absent
        split at absent
        · rename_i known
          obtain ⟨event, member, isAction⟩ := List.any_eq_true.mp known
          exact absent event member ((beq_iff_eq.mp isAction).trans same.symm)
        · exact absent action (by simp) same.symm
      rw [if_neg (by simpa using notInserted)]
      refine begins other fun event member => absent event ?_
      rw [insertAction]
      split
      · exact member
      · exact List.mem_append_left _ member

/-! ## What the outline holds -/

namespace Piece

/-- The body of one event that the pieces make up. -/
def eventBody (pieces : List Piece) (action : Action) : EventBody :=
  { action := action
    body := body pieces action
    forwards := pieces.any (forwards action) }

theorem codesIn_concat (place : Section) (pieces : List Piece) (last : Piece) :
    codesIn place (pieces ++ [last]) =
      codesIn place pieces ++ if last.route.place = place then [last.code] else [] := by
  by_cases here : last.route.place = place <;> simp [codesIn, List.filter_append, here]

theorem needed_concat (pieces : List Piece) (last : Piece) :
    needed (pieces ++ [last]) = last.route.events.foldl insertAction (needed pieces) := by
  simp [needed, List.flatMap_append, distinctActions_append]

theorem namesDiffer_needed (pieces : List Piece) : NamesDiffer (needed pieces) :=
  namesDiffer_distinctActions _

/-- One piece more adds its code, and the call of the dispatcher if it is the
first one to be forwarded to. -/
theorem body_concat (pieces : List Piece) (last : Piece) (action : Action) :
    body (pieces ++ [last]) action =
      body pieces action ++ last.codeFor action ++
        if !pieces.any (forwards action) && last.forwards action then forwardingLine action
        else "" := by
  have before : (pieces.mapIdx fun index piece =>
        piece.codeFor action ++
          if (pieces ++ [last]).findIdx? (forwards action) = some index then
            forwardingLine action else "") =
      pieces.mapIdx fun index piece =>
        piece.codeFor action ++
          if pieces.findIdx? (forwards action) = some index then forwardingLine action else "" := by
    apply List.ext_getElem (by simp)
    intro index bound _
    have below : index < pieces.length := by simpa using bound
    have sameIndex : (pieces ++ [last]).findIdx? (forwards action) = some index ↔
        pieces.findIdx? (forwards action) = some index := by
      rw [List.findIdx?_append]
      cases pieces.findIdx? (forwards action) with
      | some place => simp
      | none =>
        by_cases here : last.forwards action
        · simp [here, List.findIdx?_cons, Nat.ne_of_gt below]
        · simp [here, List.findIdx?_cons]
    simp only [List.getElem_mapIdx, sameIndex]
  have atLast : ((pieces ++ [last]).findIdx? (forwards action) = some pieces.length) ↔
      (!pieces.any (forwards action) && last.forwards action) = true := by
    rw [List.findIdx?_append]
    cases found : pieces.findIdx? (forwards action) with
    | some place =>
      obtain ⟨bound, holds, -⟩ := List.findIdx?_eq_some_iff_getElem.mp found
      have some : pieces.any (forwards action) = true :=
        List.any_eq_true.mpr ⟨_, List.getElem_mem bound, holds⟩
      simp [some, Nat.ne_of_lt bound]
    | none =>
      have none : pieces.any (forwards action) = false := by
        rw [List.any_eq_false]
        simpa using List.findIdx?_eq_none_iff.mp found
      by_cases here : last.forwards action <;> simp [none, here, List.findIdx?_cons]
  rw [body, List.mapIdx_append, before, String.join_append]
  simp only [List.mapIdx_cons, List.mapIdx_nil, Nat.zero_add, String.join_cons, String.join_nil,
    String.append_empty, atLast, body, String.append_assoc]

/-- An event that no piece needs has an empty body. -/
theorem eventBody_of_absent {pieces : List Piece} {action : Action}
    (absent : ∀ event ∈ needed pieces, event.name ≠ action.name) :
    eventBody pieces action = { action := action } := by
  have unneeded : ∀ piece ∈ pieces, ∀ event ∈ piece.route.events, event.name ≠ action.name := by
    intro piece member event isEvent same
    have known : ((needed pieces).any fun event => event.name == action.name) = true := by
      rw [needed, any_distinctActions]
      exact List.any_eq_true.mpr
        ⟨event, List.mem_flatMap.mpr ⟨piece, member, isEvent⟩, by simp [same]⟩
    obtain ⟨other, isNeeded, named⟩ := List.any_eq_true.mp known
    exact absent other isNeeded (by simpa using named)
  have noCode : ∀ piece ∈ pieces, piece.codeFor action = "" := by
    intro piece member
    rw [codeFor, if_neg]
    intro named
    obtain ⟨event, isEvent, same⟩ := (Option.any_eq_true _ _).mp named
    exact unneeded piece member event (List.mem_append_left _ (by simp [isEvent]))
      (by simpa using same)
  have noForward : pieces.any (forwards action) = false := by
    rw [List.any_eq_false]
    intro piece member forwarded
    obtain ⟨event, isEvent, same⟩ := List.any_eq_true.mp forwarded
    exact unneeded piece member event (List.mem_append_right _ isEvent) (by simpa using same)
  have noIndex : pieces.findIdx? (forwards action) = none := by
    rw [List.findIdx?_eq_none_iff]
    simpa using noForward
  have noBody : body pieces action = "" := by
    apply String.toList_injective
    rw [body, String.toList_join]
    refine List.flatMap_eq_nil_iff.mpr fun code member => ?_
    obtain ⟨index, bound, rfl⟩ := List.mem_mapIdx.mp member
    simp [noIndex, noCode _ (List.getElem_mem bound)]
  rw [eventBody, noBody, noForward]

/-- The ledgers of the pieces, added up. -/
def ledgerOf (pieces : List Piece) : Ledger :=
  { helpers := helpers pieces
    diagnostics := pieces.flatMap fun piece => piece.ledger.diagnostics
    dispatcherCalled := callsDispatcher pieces }

end Piece

namespace Outline

variable (options : Options) (statement : Stmt) (route : Route)

/-- The outline that holds pieces. -/
def ofPieces (options : Options) (pieces : List Piece) : Outline :=
  { options := options
    global := "\n".intercalate (Piece.codesIn .global pieces)
    events := (Piece.needed pieces).map (Piece.eventBody pieces)
    dispatcher := String.join (Piece.codesIn .dispatcher pieces)
    prologue := String.join (Piece.codesIn .prologue pieces)
    ledger := Piece.ledgerOf pieces }

/-- Recording the effects of code adds the ledger of its piece. -/
private theorem recordAll_ledgerOf (pieces : List Piece) (noForwarding : route.forwarding = []) :
    (Piece.ledgerOf pieces).recordAll (route.emission options statement).effects =
      Piece.ledgerOf (pieces ++ [route.piece options statement]) := by
  rw [Piece.ledgerOf, Piece.helpers, Ledger.recordAll_eq_merge, Route.piece_eq]
  simp [Piece.ledgerOf, Piece.helpers, Piece.callsDispatcher, Ledger.merge, noForwarding]

/-- A piece that is not forwarded to changes the body of its event only. -/
private theorem eventBody_concat (pieces : List Piece) (last : Piece)
    (noForwarding : last.route.forwarding = []) (event : Action) :
    Piece.eventBody (pieces ++ [last]) event =
      { Piece.eventBody pieces event with
        body := Piece.body pieces event ++ last.codeFor event } := by
  have notForwarded : last.forwards event = false := by
    simp [Piece.forwards, noForwarding]
  simp [Piece.eventBody, Piece.body_concat, notForwarded]

/-- Code for the body of an event. -/
private theorem appendTo_ofPieces (pieces : List Piece) {action : Action}
    (isEvent : route.event? = some action) (noForwarding : route.forwarding = [])
    (elsewhere : route.place ≠ .global ∧ route.place ≠ .dispatcher ∧ route.place ≠ .prologue) :
    (ofPieces options pieces).appendTo action (route.emission options statement) =
      ofPieces options (pieces ++ [route.piece options statement]) := by
  have routed : (route.piece options statement).route = route := by rw [Route.piece_eq]
  have code : (route.piece options statement).code = (route.emission options statement).value := by
    rw [Route.piece_eq]
  have events : updateEvent action
        (fun event => { event with body := event.body ++ (route.emission options statement).value })
        ((Piece.needed pieces).map (Piece.eventBody pieces)) =
      (Piece.needed (pieces ++ [route.piece options statement])).map
        (Piece.eventBody (pieces ++ [route.piece options statement])) := by
    rw [updateEvent_map _ _ _ _ (fun _ => rfl) (Piece.namesDiffer_needed _)
      Piece.eventBody_of_absent, Piece.needed_concat]
    rw [show (route.piece options statement).route.events = [action] by
      simp [routed, Route.events, isEvent, noForwarding]]
    refine List.map_congr_left fun event _ => ?_
    rw [eventBody_concat _ _ (by rw [routed, noForwarding])]
    by_cases same : event.name = action.name
    · simp [Piece.codeFor, routed, isEvent, same, code, Piece.eventBody]
    · simp [Piece.codeFor, routed, isEvent, same, Ne.symm same, Piece.eventBody]
  rw [appendTo, recording]
  simp only [ofPieces, Piece.codesIn_concat, routed, elsewhere, if_false, List.append_nil,
    recordAll_ledgerOf options statement route pieces noForwarding, events]

/-- Forwarding from several events changes their bodies and marks the
dispatcher. -/
private theorem foldl_forward (actions : List Action) (outline : Outline) :
    actions.foldl forward outline =
      { outline with
        events := actions.foldl (fun bodies action => updateEvent action EventBody.forward bodies)
          outline.events
        ledger :=
          { outline.ledger with
            dispatcherCalled := outline.ledger.dispatcherCalled || !actions.isEmpty } } := by
  induction actions generalizing outline with
  | nil => simp
  | cons action rest ih =>
    rw [List.foldl_cons, ih]
    simp [forward, Ledger.record]

/-- Texts that are not empty are not empty together. -/
theorem isEmpty_intercalate_cons {first : String} {rest : List String}
    (hasCode : ∀ code ∈ first :: rest, code ≠ "") :
    ("\n".intercalate (first :: rest)).isEmpty = false := by
  rw [Bool.eq_false_iff, ne_eq, String.isEmpty_iff]
  intro empty
  have firstEmpty : first = "" := by
    cases rest with
    | nil => simpa using empty
    | cons second others =>
      rw [String.intercalate_cons_cons, String.append_eq_empty_iff,
        String.append_eq_empty_iff] at empty
      exact empty.1.1
  exact hasCode first (by simp) firstEmpty

/-- One function more, an empty line apart from the ones before. -/
private theorem intercalate_concat {codes : List String} (hasCode : ∀ code ∈ codes, code ≠ "")
    (last : String) :
    "\n".intercalate (codes ++ [last]) =
      "\n".intercalate codes ++ (if ("\n".intercalate codes).isEmpty then "" else "\n") ++
        last := by
  cases codes with
  | nil => simp
  | cons first rest =>
    rw [String.intercalate_append_of_ne_nil (by simp) (by simp),
      isEmpty_intercalate_cons hasCode]
    simp

/-- Code for the dispatcher, which some events call then. -/
private theorem dispatch_ofPieces (options : Options) (statement : Stmt) (actions : List Action)
    (pieces : List Piece) :
    let route := Route.dispatched actions
    let piece := route.piece options statement
    actions.foldl forward
        { (ofPieces options pieces).recording (route.emission options statement) with
          dispatcher := (ofPieces options pieces).dispatcher ++
            (route.emission options statement).value } =
      ofPieces options (pieces ++ [piece]) := by
  intro route piece
  have routed : piece.route = route := by simp only [piece, Route.piece_eq]
  have code : piece.code = (route.emission options statement).value := by
    simp only [piece, Route.piece_eq]
  have events : actions.foldl
        (fun bodies action => updateEvent action EventBody.forward bodies)
        ((Piece.needed pieces).map (Piece.eventBody pieces)) =
      (Piece.needed (pieces ++ [piece])).map (Piece.eventBody (pieces ++ [piece])) := by
    rw [foldl_forward_map _ _ _ (fun _ => rfl) (Piece.namesDiffer_needed _)
      fun _ => Piece.eventBody_of_absent, Piece.needed_concat, routed]
    refine List.map_congr_left fun event _ => ?_
    have noCode : piece.codeFor event = "" := by
      simp [Piece.codeFor, routed, route, Route.event?]
    have forwards : piece.forwards event = actions.any fun action => action.name == event.name := by
      rw [Piece.forwards, routed]
      rfl
    cases already : pieces.any (Piece.forwards event) <;>
      cases now : actions.any fun action => action.name == event.name <;>
        simp [Piece.eventBody, Piece.body_concat, noCode, forwards, already, now,
          EventBody.forward, Piece.forwardingLine]
  have ledger : { (Piece.ledgerOf pieces).recordAll (route.emission options statement).effects with
        dispatcherCalled :=
          ((Piece.ledgerOf pieces).recordAll (route.emission options statement).effects
            ).dispatcherCalled || !actions.isEmpty } =
      Piece.ledgerOf (pieces ++ [piece]) := by
    rw [Piece.ledgerOf, Piece.helpers, Ledger.recordAll_eq_merge]
    simp only [piece, Route.piece_eq]
    simp [Piece.ledgerOf, Piece.helpers, Piece.callsDispatcher, Ledger.merge, route,
      Route.forwarding, Bool.or_assoc]
  rw [foldl_forward]
  simp only [ofPieces, recording, ledger, events, Piece.codesIn_concat, routed, code]
  simp [route, Route.place]

/-- A piece that no event needs leaves the events as they are. -/
private theorem events_concat (pieces : List Piece) (noEvent : route.event? = none)
    (noForwarding : route.forwarding = []) :
    (Piece.needed (pieces ++ [route.piece options statement])).map
        (Piece.eventBody (pieces ++ [route.piece options statement])) =
      (Piece.needed pieces).map (Piece.eventBody pieces) := by
  have routed : (route.piece options statement).route = route := by rw [Route.piece_eq]
  rw [Piece.needed_concat, routed, Route.events, noEvent, noForwarding]
  refine List.map_congr_left fun event _ => ?_
  rw [eventBody_concat _ _ (by rw [routed, noForwarding])]
  simp [Piece.codeFor, routed, noEvent, Piece.eventBody]

/-- Adding a statement adds its piece. -/
theorem add_ofPieces (pieces : List Piece) (statement : Stmt)
    (hasCode : ∀ code ∈ Piece.codesIn .global pieces, code ≠ "") :
    (ofPieces options pieces).add statement =
      ofPieces options (pieces ++ [statement.route.piece options statement]) := by
  rw [add]
  cases statement.route with
  | declaration =>
    have ledger := recordAll_ledgerOf options statement .declaration pieces rfl
    have events := events_concat options statement .declaration pieces rfl rfl
    have global := intercalate_concat hasCode (Route.emission options statement .declaration).value
    rw [ofPieces, ofPieces, ← ledger, events, Route.piece_eq]
    simp only [Piece.codesIn_concat, Route.place, if_true, if_false, List.append_nil, global,
      reduceCtorEq]
    rfl
  | contents action body =>
    exact appendTo_ofPieces options statement (.contents action body) pieces rfl rfl
      (by simp [Route.place])
  | guarded action =>
    exact appendTo_ofPieces options statement (.guarded action) pieces rfl rfl
      (by simp [Route.place])
  | prologue =>
    have ledger := recordAll_ledgerOf options statement .prologue pieces rfl
    have events := events_concat options statement .prologue pieces rfl rfl
    rw [ofPieces, ofPieces, ← ledger, events, Route.piece_eq]
    simp only [Piece.codesIn_concat, Route.place, if_true, if_false, List.append_nil,
      String.join_append, String.join_cons, String.join_nil, String.append_empty, reduceCtorEq]
    rfl
  | dispatched actions => exact dispatch_ofPieces options statement actions pieces
  | creation =>
    exact appendTo_ofPieces options statement .creation pieces rfl rfl
      (by simp [Route.place])

/-- The pieces of the other sections have code. -/
theorem codesIn_ne_empty {options : Options} {statements : List Stmt} {place : Section}
    (routed : ∀ statement ∈ statements, statement.GoesTo statement.route)
    (apart : place = .global ∨ place = .dispatcher ∨ place = .prologue) :
    ∀ code ∈ Piece.codesIn place
      (statements.map fun statement => statement.route.piece options statement), code ≠ "" := by
  intro code member
  simp only [Piece.codesIn, List.mem_map, List.mem_filter, decide_eq_true_eq] at member
  obtain ⟨piece, ⟨⟨statement, isStatement, rfl⟩, here⟩, rfl⟩ := member
  rw [Route.piece_eq] at here
  refine (routed statement isStatement).piece_code_ne_empty options ?_
  rw [← here] at apart
  cases found : statement.route <;> simp_all [Route.place, Route.event?]

/-- After any number of statements the outline holds their pieces. -/
theorem foldl_add_eq_ofPieces (statements : List Stmt)
    (routed : ∀ statement ∈ statements, statement.GoesTo statement.route) :
    statements.foldl add { options := options } =
      ofPieces options (statements.map fun statement => statement.route.piece options statement) := by
  induction statements using List.reverseRecOn with
  | nil => rfl
  | append_singleton statements last ih =>
    have routedBefore : ∀ statement ∈ statements, statement.GoesTo statement.route :=
      fun statement member => routed statement (List.mem_append_left _ member)
    rw [List.foldl_append, ih routedBefore, List.foldl_cons, List.foldl_nil,
      add_ofPieces, List.map_append, List.map_cons, List.map_nil]
    exact codesIn_ne_empty routedBefore (.inl rfl)

/-- A concatenation of texts that are not empty is empty if there are none. -/
theorem isEmpty_join {codes : List String} (hasCode : ∀ code ∈ codes, code ≠ "") :
    (String.join codes).isEmpty = codes.isEmpty := by
  cases codes with
  | nil => simp
  | cons first rest =>
    have nonempty : first ≠ "" := hasCode first (by simp)
    simp [nonempty, String.isEmpty_eq_false_iff]

/-- The outline that holds pieces gives the conversion they are assembled to. -/
private theorem conversion_ofPieces {pieces : List Piece}
    (globals : ∀ code ∈ Piece.codesIn .global pieces, code ≠ "")
    (dispatched : ∀ code ∈ Piece.codesIn .dispatcher pieces, code ≠ "")
    (prologues : ∀ code ∈ Piece.codesIn .prologue pieces, code ≠ "") :
    (ofPieces options pieces).conversion = Piece.assemble options pieces := by
  have noGlobal : ("\n".intercalate (Piece.codesIn .global pieces)).isEmpty =
      (Piece.codesIn .global pieces).isEmpty := by
    cases codes : Piece.codesIn .global pieces with
    | nil => rfl
    | cons first rest =>
      rw [codes] at globals
      have written := isEmpty_intercalate_cons globals
      simpa using written
  have callbacks : (ofPieces options pieces).callbacks = Piece.callbacks pieces := by
    rw [Outline.callbacks, Piece.callbacks]
    simp only [ofPieces, isEmpty_join prologues, List.isEmpty_map]
    split
    · rename_i created
      have noEvents : Piece.needed pieces = [] := by
        simpa using (Bool.and_eq_true_iff.mp created).1
      rw [List.map_singleton]
      exact congrArg (fun event => [event])
        (Piece.eventBody_of_absent (by simp [noEvents])).symm
    · rfl
  have sections : (ofPieces options pieces).sections = Piece.sections options pieces := by
    rw [Outline.sections, callbacks, Piece.sections]
    simp only [ofPieces, noGlobal, isEmpty_join dispatched, isEmpty_join prologues, Piece.shared,
      Bool.not_false, Bool.and_true]
    rfl
  rw [Outline.conversion, Outline.text, sections]
  rfl

end Outline

/-- The routes of statements that the rules cover are determined. -/
private theorem forall₂_goesTo_iff {statements : List Stmt} {routes : List Route}
    (routed : ∀ statement ∈ statements, statement.GoesTo statement.route) :
    List.Forall₂ Stmt.GoesTo statements routes ↔ routes = statements.map Stmt.route := by
  constructor
  · intro goes
    induction goes with
    | nil => rfl
    | cons first _ ih =>
      rw [List.map_cons, first.route_eq,
        ih fun statement member => routed statement (.tail _ member)]
  · rintro rfl
    rw [List.forall₂_map_right_iff, List.forall₂_same]
    exact routed

/-- The pieces of a script, each at the route of its statement. -/
def Script.pieces (options : Options) (script : Script) : List Piece :=
  (Script.flattened script).map fun statement => statement.route.piece options statement

theorem Script.convert_eq_assemble_pieces (options : Options) (script : Script) :
    Script.convert options script = Piece.assemble options (Script.pieces options script) := by
  have routed : ∀ statement ∈ Script.flattened script, statement.GoesTo statement.route :=
    fun statement member => Script.goesTo_route_of_mem_flattened member
  rw [Script.convert, Outline.addScript, Outline.foldl_add_eq_ofPieces options _ routed]
  exact Outline.conversion_ofPieces options (Outline.codesIn_ne_empty routed (.inl rfl))
    (Outline.codesIn_ne_empty routed (.inr (.inl rfl)))
    (Outline.codesIn_ne_empty routed (.inr (.inr rfl)))

/-- Converting a script is routing its top-level statements by the rules, which
send each of them to one place, generating the code for each of them in a
session of its own, and assembling the pieces. -/
theorem Script.convert_eq_assemble (options : Options) (script : Script) :
    ∃ routes,
      (∀ others, List.Forall₂ Stmt.GoesTo (Script.flattened script) others ↔ others = routes) ∧
        Script.convert options script =
          Piece.assemble options
            (List.zipWith (Route.piece options) (Script.flattened script) routes) := by
  have routed : ∀ statement ∈ Script.flattened script, statement.GoesTo statement.route :=
    fun statement member => Script.goesTo_route_of_mem_flattened member
  refine ⟨(Script.flattened script).map Stmt.route, fun _ => forall₂_goesTo_iff routed, ?_⟩
  rw [Script.convert_eq_assemble_pieces, List.zipWith_map_right, List.zipWith_self,
    Script.pieces]

end EventScript
