import EventScript.Proofs.Events.Functions
import EventScript.Proofs.Events.Performing
import EventScript.Proofs.Outline.Layout

/-!
# Scripts of guarded commands

A script that is a list of commands, each behind a condition on events, means:
when an event occurs, perform the commands whose conditions hold.  The generated
code spreads the commands over callbacks and the dispatcher.  Running the
callback of an event performs the same commands, each as often as the script
does, and an event without a callback has nothing to perform.
-/

namespace EventScript

/-- A command of a script behind a condition on events.  The command has no
meaning of its own to the generator, and the condition does not hold when no
event occurs. -/
structure GuardedCommand where
  condition : Expr
  command : String
  guard : condition.Guard
  shaped : condition.Shaped
  quiet : ∀ tests, condition.holds (fun _ => false) tests = false
  named : IsName command
  noBuiltin : Builtin.find? command = none
  noAlias : Alias.find? command = none
  notDispatcher : command ≠ dispatcherName

namespace GuardedCommand

variable {rule : GuardedCommand} {action : Action} {rules : List GuardedCommand}
variable (options : Options)

/-- The statement of a script. -/
def statement (rule : GuardedCommand) : Stmt :=
  .branch rule.condition (.command rule.command []) none

/-- Whether the command is to be performed when an event occurs. -/
def isDue (rule : GuardedCommand) (action : Action) (tests : String → Bool) : Bool :=
  rule.condition.holds (fun flag => flag == action.name) tests

/-! ## Conditions -/

theorem actions_ne_nil (rule : GuardedCommand) : rule.condition.actions ≠ [] := by
  intro untested
  have noFlags : rule.condition.flags .free = [] := by
    cases flags : rule.condition.flags .free with
    | nil => rfl
    | cons first others => simp [Expr.actions, flags, distinctActions] at untested
  have holds := rule.guard.holds_of_no_flags noFlags fun _ => false
  rw [rule.quiet] at holds
  cases holds

/-- Whether a condition tests an event. -/
def tests (rule : GuardedCommand) (action : Action) : Bool :=
  rule.condition.actions.any fun tested => tested.name == action.name

/-- An event that a condition does not test is none to it. -/
theorem isDue_of_not_tests (untested : rule.tests action = false) (outcomes : String → Bool) :
    rule.isDue action outcomes = false := by
  rw [tests, Expr.actions, any_distinctActions, List.any_eq_false] at untested
  rw [← rule.quiet outcomes]
  refine rule.guard.holds_congr (fun flag member => ?_) outcomes
  simpa using untested flag member

theorem isDue_of_isFlagOf {flagged : Action} (isFlag : rule.condition.IsFlagOf flagged)
    (action : Action) (tests : String → Bool) :
    rule.isDue action tests = (flagged.name == action.name) := by
  obtain ⟨flag, bare, found⟩ := isFlag
  rw [isDue, ← Expr.holds_ungrouped, bare, Action.name_of_find? found]
  simp [Expr.holds, found]

/-! ## Routes -/

/-- Whether the statement is in the dispatcher. -/
def isShared (rule : GuardedCommand) : Bool :=
  rule.statement.route.place = .dispatcher

/-- The routes of guarded commands. -/
inductive Routed (rule : GuardedCommand) : Route → Prop
  | contents {action : Action} (isFlag : rule.condition.IsFlagOf action) :
      Routed rule (.contents action (.command rule.command []))
  | guarded {action : Action} (tested : rule.condition.actions = [action]) :
      Routed rule (.guarded action)
  | dispatched : Routed rule (.dispatched rule.condition.actions)

theorem routed (rule : GuardedCommand) : rule.Routed rule.statement.route := by
  have goes : rule.statement.GoesTo rule.statement.route :=
    Stmt.goesTo_route (by simp [statement]) (by simp [statement])
  generalize rule.statement.route = route at goes
  cases goes with
  | contents body isFlag => exact .contents isFlag
  | prologue body otherwise untested => exact absurd untested rule.actions_ne_nil
  | guarded body noFlag tested => exact .guarded tested
  | dispatched => exact .dispatched
  | creation other => exact other.elim

/-! ## Code -/

/-- Whose method the command is in generated code. -/
def owner (rule : GuardedCommand) : String :=
  if Text.startsWith rule.command "player" || Text.startsWith rule.command "setplayer" then "player"
  else "this"

/-- The command as a call of generated code. -/
def call (rule : GuardedCommand) : Expr :=
  .dotted [.name rule.owner, .call rule.command []]

/-- The line that performs the command. -/
def callLine (rule : GuardedCommand) (depth : Nat) : String :=
  Text.block depth (rule.call.code ++ ";")

/-- The lines of the statement in a section. -/
def branchLines (rule : GuardedCommand) (place : Section) : String :=
  Text.block 1 ("if (" ++ (rule.condition.placed place).code ++ ") \x7b") ++ rule.callLine 2 ++
    Text.block 1 "\x7d"

theorem owner_eq (rule : GuardedCommand) : rule.owner = "this" ∨ rule.owner = "player" := by
  rw [owner]
  split
  · exact .inr rfl
  · exact .inl rfl

theorem printable_call (rule : GuardedCommand) : rule.call.Printable := by
  refine printable_method ?_ rule.named (by simp) (by simp [Expr.QuotesRaw])
  rcases rule.owner_eq with owned | owned <;> rw [owned] <;> decide

theorem code_call (rule : GuardedCommand) :
    rule.call.code = rule.owner ++ "." ++ rule.command ++ "()" := by
  have whole : rule.call.code = rule.owner ++ "." ++ (rule.command ++ "(" ++ "" ++ ")") := rfl
  have closed : "()" = "(" ++ ")" := by decide
  simp only [whole, closed, String.append_empty, String.append_assoc]

theorem render_command (rule : GuardedCommand) (site : Site) (form : StmtForm) (depth : Nat) :
    renderStmt site form depth (.command rule.command []) = pure (rule.callLine depth) := by
  have callee : site.calleeCode rule.command = pure (rule.owner ++ "." ++ rule.command) := by
    rw [Site.calleeCode, rule.noAlias, owner]
    dsimp only
    split <;> rfl
  have called : renderCall site {} rule.command [] = pure rule.call.code := by
    rw [renderCall, Site.callCode, rule.noBuiltin, Option.bind_none, callee, rule.code_call]
    have closed : "()" = "(" ++ "" ++ ")" := by decide
    rw [closed]
    simp only [← String.append_assoc]
    rfl
  have plain : Text.endsWith rule.call.code '\x7d' = false := by
    rw [Text.endsWith, rule.code_call, String.toList_append, List.getLast?_append]
    rfl
  rw [renderStmt, called, pure_bind, terminated, plain, callLine, if_neg Bool.false_ne_true]

/-- The code for the statement in a section. -/
theorem render_statement (rule : GuardedCommand) (site : Site) :
    renderStmt site .plain 1 rule.statement = pure (rule.branchLines site.place) := by
  rw [statement, renderStmt, rule.guard.render_eq, pure_bind, rule.render_command]
  rfl

theorem performs_callLine (rule : GuardedCommand) (scene : Scene)
    (dispatch : String → Option (List String)) (depth : Nat) :
    Performs scene dispatch (rule.callLine depth) [rule.command] := by
  refine performs_methodLine depth rule.printable_call ?_
  rcases rule.owner_eq with owned | owned
  · simp [owned, callCommands?, rule.notDispatcher]
  · simp [owned, callCommands?, Role.name]

theorem performs_branchLines (rule : GuardedCommand) {place : Section} {scene : Scene}
    {flags : String → Bool}
    (agree : ∀ action, scene.truth? (place.flagTree action) = some (flags action.name))
    (dispatch : String → Option (List String)) :
    Performs scene dispatch (rule.branchLines place)
      (if rule.condition.holds flags scene.tests then [rule.command] else []) := by
  obtain ⟨statements, spelled, braced, run⟩ := rule.performs_callLine scene dispatch 2
  exact performs_branch 1 (rule.guard.printable_placed rule.shaped place)
    (rule.guard.truth?_placed agree) spelled braced fun _ => run

/-! ## Pieces -/

/-- The code of the statement at a route. -/
def codeAt (rule : GuardedCommand) : Route → String
  | .contents _ _ => rule.callLine 1
  | route => rule.branchLines route.place

/-- The piece of the statement. -/
def piece (rule : GuardedCommand) : Piece :=
  ⟨rule.statement.route, rule.codeAt rule.statement.route, {}⟩

theorem piece_eq (rule : GuardedCommand) (options : Options) :
    rule.statement.route.piece options rule.statement = rule.piece := by
  have emitted : rule.statement.route.emission options rule.statement =
      pure (rule.codeAt rule.statement.route) := by
    have routed := rule.routed
    generalize rule.statement.route = route at routed ⊢
    cases routed with
    | contents => exact rule.render_command _ .contents _
    | guarded | dispatched => exact rule.render_statement _
  rw [Route.piece_eq, emitted]
  rfl

theorem pieces_eq (rules : List GuardedCommand) :
    Script.pieces options (rules.map statement) = rules.map piece := by
  have flattened : Script.flattened (rules.map statement) = rules.map statement := by
    induction rules with
    | nil => rfl
    | cons first others ih =>
      rw [List.map_cons, Script.flattened, ih]
      rfl
  rw [Script.pieces, flattened, List.map_map]
  exact List.map_congr_left fun rule _ => rule.piece_eq options

/-- Whether the statement is in the callback of an event. -/
def isOwn (rule : GuardedCommand) (action : Action) : Bool :=
  rule.statement.route.event?.any fun event => event.name == action.name

/-- Whether the event has to call the dispatcher because of the statement. -/
def forwards (rule : GuardedCommand) (action : Action) : Bool :=
  rule.piece.forwards action

/-- A command that is due is in the callback of the event, or in the dispatcher,
which the event then calls. -/
theorem isOwn_of_isDue {tests : String → Bool} (due : rule.isDue action tests = true) :
    rule.isOwn action = !rule.isShared ∧ (rule.isShared = true → rule.forwards action = true) := by
  have tested : rule.tests action = true := by
    by_contra untested
    rw [isDue_of_not_tests (Bool.eq_false_iff.mpr untested)] at due
    cases due
  have routed := rule.routed
  unfold isOwn isShared forwards Piece.forwards piece
  rw [GuardedCommand.tests] at tested
  generalize rule.statement.route = route at routed
  cases routed with
  | contents isFlag =>
    rw [isFlag.actions_eq] at tested
    simpa [Route.event?, Route.place] using tested
  | guarded alone =>
    rw [alone] at tested
    simpa [Route.event?, Route.place] using tested
  | dispatched => simpa [Route.event?, Route.place, Route.forwarding] using tested

/-- A statement in the callback of an event performs its command when it is due. -/
theorem performs_codeFor (rule : GuardedCommand) (known : action ∈ Action.table)
    (tests : String → Bool) (dispatch : String → Option (List String)) :
    Performs { tests := tests } dispatch (rule.piece.codeFor action)
      (if rule.isOwn action && rule.isDue action tests then [rule.command] else []) := by
  rw [Piece.codeFor]
  change Performs _ _ (if rule.isOwn action then rule.codeAt rule.statement.route else "") _
  cases own : rule.isOwn action with
  | false =>
    rw [if_neg Bool.false_ne_true, Bool.false_and, if_neg Bool.false_ne_true]
    exact performs_empty
  | true =>
    rw [if_pos rfl, Bool.true_and]
    have routed := rule.routed
    rw [isOwn] at own
    generalize rule.statement.route = route at routed own
    cases routed with
    | @contents flagged isFlag =>
      rw [isDue_of_isFlagOf isFlag, if_pos (by simpa [Route.event?] using own)]
      exact rule.performs_callLine _ dispatch 1
    | @guarded only alone =>
      have same : only.name = action.name := by simpa [Route.event?] using own
      have tested : only ∈ Action.table :=
        Expr.mem_table_of_mem_actions (alone ▸ List.mem_singleton_self only)
      obtain rfl := Action.eq_of_mem_table tested known (.inl same)
      exact rule.performs_branchLines (truth?_flagTree_event tests only) dispatch
    | dispatched => cases own

theorem codeAt_of_isShared (shared : rule.isShared = true) :
    rule.piece.code = rule.branchLines .dispatcher := by
  have routed := rule.routed
  rw [isShared, decide_eq_true_iff] at shared
  rw [piece]
  generalize rule.statement.route = route at routed shared
  cases routed with
  | contents | guarded => cases shared
  | dispatched => rfl

/-- One command more. -/
theorem commands_concat (selected : GuardedCommand → Bool) (before : List GuardedCommand)
    (last : GuardedCommand) :
    ((before ++ [last]).filter selected).map command =
      (before.filter selected).map command ++
        if selected last then [last.command] else [] := by
  cases chosen : selected last <;> simp [List.filter_append, chosen]

/-- The dispatcher performs the commands in it that are due. -/
theorem performs_dispatcher (rules : List GuardedCommand) (action : Action)
    (tests : String → Bool) (dispatch : String → Option (List String)) :
    Performs { tests := tests, event? := some action.name } dispatch
      (String.join (Piece.codesIn .dispatcher (rules.map piece)))
      ((rules.filter fun rule => rule.isShared && rule.isDue action tests).map command) := by
  induction rules using List.reverseRecOn with
  | nil => exact performs_empty
  | append_singleton before last ih =>
    rw [List.map_append, List.map_singleton, Piece.codesIn_concat, commands_concat,
      String.join_append]
    refine ih.append ?_
    cases shared : last.isShared with
    | false =>
      have elsewhere : last.piece.route.place ≠ .dispatcher := of_decide_eq_false shared
      rw [if_neg elsewhere]
      exact performs_empty
    | true =>
      have here : last.piece.route.place = .dispatcher := of_decide_eq_true shared
      have performed : Performs { tests := tests, event? := some action.name } dispatch
          (last.branchLines .dispatcher)
          (if last.isDue action tests then [last.command] else []) :=
        last.performs_branchLines (truth?_flagTree_dispatcher tests action.name) dispatch
      rw [if_pos here, codeAt_of_isShared shared, Bool.true_and]
      simpa using performed

/-- The body of an event performs the commands of the event that are due, and runs
the dispatcher once if some statement needs it. -/
theorem performs_body (rules : List GuardedCommand) (known : action ∈ Action.table)
    (tests : String → Bool) {dispatch : String → Option (List String)} {shared : List String}
    (runs : (rules.any fun rule => rule.forwards action) = true →
      dispatch action.name = some shared) :
    ∃ performed,
      Performs { tests := tests } dispatch (Piece.body (rules.map piece) action) performed ∧
        performed.Perm
          ((rules.filter fun rule => rule.isOwn action && rule.isDue action tests).map command ++
            if rules.any fun rule => rule.forwards action then shared else []) := by
  induction rules using List.reverseRecOn with
  | nil => exact ⟨[], performs_empty, .nil⟩
  | append_singleton before last ih =>
    rw [List.any_append, List.any_cons, List.any_nil, Bool.or_false] at runs
    obtain ⟨performed, performs, same⟩ := ih fun earlier => runs (by simp [earlier])
    have ownCode := last.performs_codeFor known tests dispatch
    have forwarded : ((before.map piece).any (Piece.forwards action)) =
        before.any fun rule => rule.forwards action := by
      rw [List.any_map]
      rfl
    rw [List.map_append, List.map_singleton, Piece.body_concat, commands_concat, forwarded,
      List.any_append, List.any_cons, List.any_nil, Bool.or_false]
    change ∃ performed, Performs _ _ (_ ++ if !_ && last.forwards action then _ else "") _ ∧ _
    cases earlier : before.any fun rule => rule.forwards action with
    | true =>
      -- the dispatcher is called already
      rw [earlier, if_pos rfl] at same
      refine ⟨_, (performs.append ownCode).append performs_empty, ?_⟩
      rw [List.append_nil, Bool.true_or, if_pos rfl, List.append_assoc]
      refine (same.append_right _).trans ?_
      rw [List.append_assoc]
      exact List.perm_append_comm.append_left _
    | false =>
      rw [earlier, if_neg Bool.false_ne_true, List.append_nil] at same
      rw [earlier, Bool.false_or] at runs
      cases forwards : last.forwards action with
      | true =>
        have line : Performs { tests := tests } dispatch _ shared :=
          performs_forwardingLine known (runs forwards)
        exact ⟨_, (performs.append ownCode).append line,
          (same.append_right _).append_right _⟩
      | false =>
        exact ⟨_, (performs.append ownCode).append performs_empty,
          (same.append_right _).append_right _⟩

/-! ## The generated code -/

/-- The callback of an event. -/
def callback (options : Options) (rules : List GuardedCommand) (action : Action) : CodeFunction :=
  let event := Piece.eventBody (rules.map piece) action
  { name := action.callback
    parameters := ", ".intercalate ((event.parameters "").map Role.name)
    body := String.join ((event.preamble options "").map (codeLine 1)) ++ event.body }

/-- The dispatcher. -/
def dispatcher (rules : List GuardedCommand) : CodeFunction :=
  { name := dispatcherName
    parameters := "_actionName, player, npc, text"
    body := String.join (Piece.codesIn .dispatcher (rules.map piece)) }

/-- The functions of the generated code. -/
def functions (options : Options) (rules : List GuardedCommand) : List CodeFunction :=
  (Piece.needed (rules.map piece)).map (callback options rules) ++
    if (Piece.codesIn .dispatcher (rules.map piece)).isEmpty &&
      !Piece.callsDispatcher (rules.map piece) then [] else [dispatcher rules]

theorem codesIn_eq_nil (rules : List GuardedCommand) {place : Section}
    (other : place = .global ∨ place = .prologue) :
    Piece.codesIn place (rules.map piece) = [] := by
  rw [Piece.codesIn, List.map_eq_nil_iff, List.filter_eq_nil_iff, List.forall_mem_map]
  intro rule _
  have routed := rule.routed
  rw [piece, decide_eq_true_iff]
  generalize rule.statement.route = route at routed
  rcases other with rfl | rfl <;> cases routed <;> simp [Route.place]

/-- The code for a script of guarded commands is made of these functions. -/
theorem code_convert (rules : List GuardedCommand) :
    (Script.convert options (rules.map statement)).code =
      "\n".intercalate ((functions options rules).map CodeFunction.text) := by
  have global := codesIn_eq_nil rules (.inl rfl)
  have prologue := codesIn_eq_nil rules (.inr rfl)
  have noHelpers : Piece.helpers (rules.map piece) = [] := by
    have none : (rules.flatMap fun rule => rule.piece.ledger.helpers) = [] :=
      List.flatMap_eq_nil_iff.mpr fun _ _ => rfl
    rw [Piece.helpers, List.flatMap_map, none]
    rfl
  have callbacks : Piece.callbacks (rules.map piece) =
      (Piece.needed (rules.map piece)).map (Piece.eventBody (rules.map piece)) := by
    rw [Piece.callbacks, prologue]
    simp [Piece.eventBody]
  have shared : Piece.shared dispatcherName (Piece.codesIn .dispatcher (rules.map piece))
        (Piece.callsDispatcher (rules.map piece)) =
      (if (Piece.codesIn .dispatcher (rules.map piece)).isEmpty &&
        !Piece.callsDispatcher (rules.map piece) then [] else [dispatcher rules]).map
          CodeFunction.text := by
    rw [Piece.shared]
    split <;> rfl
  have noPrologue : Piece.shared prologueName [] false = [] := rfl
  rw [Script.convert_eq_assemble_pieces, pieces_eq, Piece.assemble, Piece.sections, global,
    prologue, noHelpers, callbacks, shared, noPrologue, functions, List.map_append, List.map_map,
    List.map_map, List.filterMap_nil, List.append_nil, List.append_nil]
  rfl

/-! ## Finding the functions -/

theorem indented_codeAt (rule : GuardedCommand) (route : Route) :
    Text.Indented (rule.codeAt route) := by
  have branched (place : Section) : Text.Indented (rule.branchLines place) :=
    ((Text.indented_block 0 _).append (Text.indented_block 1 _)).append (Text.indented_block 0 _)
  cases route with
  | contents => exact Text.indented_block 0 _
  | _ => exact branched _

theorem indented_body (rules : List GuardedCommand) (known : action ∈ Action.table) :
    Text.Indented (Piece.body (rules.map piece) action) := by
  induction rules using List.reverseRecOn with
  | nil => exact Text.consists_empty
  | append_singleton before last ih =>
    rw [List.map_append, List.map_singleton, Piece.body_concat]
    refine (ih.append ?_).append ?_
    · rw [Piece.codeFor]
      split
      · exact last.indented_codeAt _
      · exact Text.consists_empty
    · split
      · exact indented_codeLine 0 (oneLine_dispatchCall known)
      · exact Text.consists_empty

/-- The events that need a callback are those of the statements. -/
theorem any_needed (rules : List GuardedCommand) (action : Action) :
    ((Piece.needed (rules.map piece)).any fun event => event.name == action.name) =
      rules.any fun rule => rule.isOwn action || rule.forwards action := by
  rw [Piece.needed, any_distinctActions, List.flatMap_map, List.any_flatMap]
  congr 1
  funext rule
  change (rule.statement.route.events.any _) =
    (rule.statement.route.event?.any _ || rule.statement.route.forwarding.any _)
  rw [Route.events, List.any_append]
  cases rule.statement.route.event? <;> simp

theorem mem_table_of_mem_needed (member : action ∈ Piece.needed (rules.map piece)) :
    action ∈ Action.table := by
  have member := mem_of_mem_distinctActions member
  rw [List.flatMap_map, List.mem_flatMap] at member
  obtain ⟨rule, _, member⟩ := member
  have routed := rule.routed
  rw [piece] at member
  refine rule.condition.mem_table_of_mem_actions ?_
  generalize rule.statement.route = route at routed member
  cases routed with
  | contents isFlag => simpa [isFlag.actions_eq, Route.events, Route.event?, Route.forwarding]
      using member
  | guarded tested => simpa [tested, Route.events, Route.event?, Route.forwarding] using member
  | dispatched => simpa [Route.events, Route.event?, Route.forwarding] using member

theorem wellFormed_callback (rules : List GuardedCommand) (known : action ∈ Action.table) :
    (callback options rules action).WellFormed where
  named := (oneLine_of_mem_table known).2
  bare := bare_callback_of_mem_table known
  listed := oneLine_parameters _ _
  indented := indented_callbackBody options "" known (indented_body rules known)

theorem wellFormed_dispatcher (rules : List GuardedCommand) : (dispatcher rules).WellFormed where
  named := show Text.OneLine dispatcherName by decide
  bare := show '(' ∉ dispatcherName.toList by decide
  listed := show Text.OneLine "_actionName, player, npc, text" by decide
  indented := by
    refine Text.consists_join (List.forall_mem_map.mpr fun piece member => ?_)
    obtain ⟨rule, _, rfl⟩ := List.mem_map.mp (List.mem_filter.mp member).1
    exact rule.indented_codeAt _

theorem wellFormed_functions (rules : List GuardedCommand) :
    ∀ function ∈ functions options rules, function.WellFormed := by
  rw [functions, List.forall_mem_append, List.forall_mem_map]
  refine ⟨fun action member => wellFormed_callback options rules (mem_table_of_mem_needed member), ?_⟩
  split
  · simp
  · exact List.forall_mem_singleton.mpr (wellFormed_dispatcher rules)

/-- A function is found among the functions of the code. -/
theorem functionBody?_convert (rules : List GuardedCommand) {name : String}
    (bare : '(' ∉ name.toList) :
    functionBody? (Script.convert options (rules.map statement)).code name =
      ((functions options rules).find? fun function => function.name == name).map
        CodeFunction.body := by
  rw [code_convert, functionBody?_intercalate (wellFormed_functions options rules) bare]

theorem callback_ne_dispatcherName (known : action ∈ Action.table) :
    action.callback ≠ dispatcherName := by
  have differ : ∀ action ∈ Action.table, action.callback ≠ dispatcherName := by decide
  exact differ action known

/-- The body of the callback of an event, if the event has one. -/
theorem functionBody?_callback (rules : List GuardedCommand) (known : action ∈ Action.table) :
    functionBody? (Script.convert options (rules.map statement)).code action.callback =
      if rules.any fun rule => rule.isOwn action || rule.forwards action then
        some (callback options rules action).body else none := by
  have bare : '(' ∉ action.callback.toList := (wellFormed_callback options rules known).bare
  have notShared : ∀ function ∈ (if (Piece.codesIn .dispatcher (rules.map piece)).isEmpty &&
      !Piece.callsDispatcher (rules.map piece) then [] else [dispatcher rules]),
        ¬(function.name == action.callback) = true := by
    split
    · simp
    · rw [List.forall_mem_singleton, beq_iff_eq]
      exact (callback_ne_dispatcherName known).symm
  rw [functionBody?_convert options rules bare, functions, List.find?_append,
    List.find?_eq_none.mpr notShared, Option.or_none, List.find?_map, ← any_needed]
  cases found : (Piece.needed (rules.map piece)).find?
      ((fun function => function.name == action.callback) ∘ callback options rules) with
  | none =>
    rw [if_neg]
    · rfl
    · rw [List.any_eq_true]
      rintro ⟨event, member, same⟩
      have here := Action.eq_of_mem_table (mem_table_of_mem_needed member) known
        (.inl (beq_iff_eq.mp same))
      exact List.find?_eq_none.mp found event member (by simp [here, callback])
  | some event =>
    have member := List.mem_of_find?_eq_some found
    have matched := List.find?_some found
    have same : event.callback = action.callback := beq_iff_eq.mp matched
    obtain rfl := Action.eq_of_mem_table (mem_table_of_mem_needed member) known (.inr same)
    rw [if_pos]
    · rfl
    · exact List.any_eq_true.mpr ⟨event, member, beq_self_eq_true _⟩

/-- The body of the dispatcher, if some event calls it. -/
theorem functionBody?_dispatcher (forwards : (rules.any fun rule => rule.forwards action) = true) :
    functionBody? (Script.convert options (rules.map statement)).code dispatcherName =
      some (dispatcher rules).body := by
  have noCallback : ∀ function ∈ (Piece.needed (rules.map piece)).map (callback options rules),
      ¬(function.name == dispatcherName) = true := by
    rw [List.forall_mem_map]
    intro event member
    rw [beq_iff_eq]
    exact callback_ne_dispatcherName (mem_table_of_mem_needed member)
  have called : Piece.callsDispatcher (rules.map piece) = true := by
    obtain ⟨rule, member, forwarded⟩ := List.any_eq_true.mp forwards
    rw [Piece.callsDispatcher, List.any_map, List.any_eq_true]
    refine ⟨rule, member, ?_⟩
    rw [GuardedCommand.forwards, Piece.forwards] at forwarded
    cases listed : rule.piece.route.forwarding with
    | nil => simp [listed] at forwarded
    | cons => simp [listed]
  rw [functionBody?_convert options rules (by decide), functions, List.find?_append,
    List.find?_eq_none.mpr noCallback, called, Bool.not_true, Bool.and_false,
    if_neg Bool.false_ne_true]
  rfl

/-! ## Running the code -/

/-- What the dispatcher performs for an event that calls it. -/
theorem dispatcherCommands?_convert (forwards : (rules.any fun rule => rule.forwards action) = true)
    (tests : String → Bool) :
    dispatcherCommands? (Script.convert options (rules.map statement)).code tests action.name =
      some ((rules.filter fun rule => rule.isShared && rule.isDue action tests).map command) := by
  obtain ⟨statements, found, run⟩ :=
    (performs_dispatcher rules action tests fun _ => none).exists_statements
      (functionBody?_dispatcher options forwards)
  rw [dispatcherCommands?, found]
  exact run

/-- The commands that are due are those of the event and those in the dispatcher. -/
theorem due_perm (rules : List GuardedCommand) (action : Action) (tests : String → Bool) :
    ((rules.filter fun rule => rule.isOwn action && rule.isDue action tests).map command ++
      (rules.filter fun rule => rule.isShared && rule.isDue action tests).map command).Perm
        ((rules.filter fun rule => rule.isDue action tests).map command) := by
  have own : (rules.filter fun rule => rule.isOwn action && rule.isDue action tests) =
      (rules.filter fun rule => rule.isDue action tests).filter fun rule => !rule.isShared := by
    rw [List.filter_filter]
    refine List.filter_congr fun rule _ => ?_
    cases due : rule.isDue action tests with
    | false => simp
    | true => rw [(isOwn_of_isDue due).1]
  have shared : (rules.filter fun rule => rule.isShared && rule.isDue action tests) =
      (rules.filter fun rule => rule.isDue action tests).filter isShared := by
    rw [List.filter_filter]
  rw [own, shared, ← List.map_append]
  exact (List.perm_append_comm.trans (List.filter_append_perm _ _)).map command

/-- Nothing in the dispatcher is due for an event that does not call it. -/
theorem shared_eq_nil (noForwarding : (rules.any fun rule => rule.forwards action) = false)
    (tests : String → Bool) :
    (rules.filter fun rule => rule.isShared && rule.isDue action tests) = [] := by
  refine List.filter_eq_nil_iff.mpr fun rule member selected => ?_
  rw [Bool.and_eq_true] at selected
  exact List.any_eq_false.mp noForwarding rule member ((isOwn_of_isDue selected.2).2 selected.1)

/-- Running the callback of an event performs the commands of the script that are
due, each as often as it is due, whatever the tests result in.  An event without a
callback has no commands that are due. -/
theorem callbackCommands?_convert (options : Options) (rules : List GuardedCommand)
    {action : Action} (known : action ∈ Action.table) (tests : String → Bool) :
    let code := (Script.convert options (rules.map statement)).code
    let due := (rules.filter fun rule => rule.isDue action tests).map command
    (functionBody? code action.callback = none → due = []) ∧
      ∀ body, functionBody? code action.callback = some body →
        ∃ performed, callbackCommands? code tests action = some performed ∧
          performed.Perm due ∧ ((rules.map command).Nodup → performed.Nodup) := by
  intro code due
  have found := functionBody?_callback options rules known
  cases needed : rules.any fun rule => rule.isOwn action || rule.forwards action with
  | false =>
    rw [needed, if_neg Bool.false_ne_true] at found
    refine ⟨fun _ => ?_, fun body present => by cases found.symm.trans present⟩
    refine List.map_eq_nil_iff.mpr (List.filter_eq_nil_iff.mpr fun rule member isDue => ?_)
    obtain ⟨own, shared⟩ := isOwn_of_isDue isDue
    have absent := List.any_eq_false.mp needed rule member
    cases isShared : rule.isShared with
    | true => simp [shared isShared] at absent
    | false => simp [own, isShared] at absent
  | true =>
    rw [needed, if_pos rfl] at found
    refine ⟨fun absent => (by cases found.symm.trans absent), fun _ _ => ?_⟩
    obtain ⟨performed, performs, same⟩ := performs_body rules known tests
      (dispatcherCommands?_convert options · tests)
    have permuted : performed.Perm due := by
      refine same.trans (.trans ?_ (due_perm rules action tests))
      cases forwards : rules.any fun rule => rule.forwards action with
      | true => exact .refl _
      | false =>
        rw [shared_eq_nil forwards tests]
        exact .refl _
    obtain ⟨statements, read, run⟩ :=
      ((performs_preamble options _).append performs).exists_statements found
    refine ⟨performed, ?_, permuted, fun distinct => ?_⟩
    · rw [callbackCommands?, read]
      exact run
    · exact permuted.nodup_iff.mpr (distinct.sublist (List.filter_sublist.map command))

/-- A command that the timer shares with another event. -/
def sharedBeep : GuardedCommand where
  condition := .binary .or (.name "timeout") (.binary .and (.name "playerenters") (.name "armed"))
  command := "beep"
  guard := .either (.flag rfl) (.both (.flag rfl) (.test (by decide)))
  shaped := @Expr.shaped_of_parse "timeout||playerenters&&armed" _ rfl
  quiet := fun _ => rfl
  named := by decide
  noBuiltin := by decide
  noAlias := by decide
  notDispatcher := by decide

/-- A command of the timer that is a method of the player. -/
def playerJump : GuardedCommand where
  condition := .name "timeout"
  command := "playerjump"
  guard := .flag rfl
  shaped := .name (by decide)
  quiet := fun _ => rfl
  named := by decide
  noBuiltin := by decide
  noAlias := by decide
  notDispatcher := by decide

set_option maxRecDepth 20000 in
/-- The timer calls the dispatcher and looks for the player. -/
theorem callbackCommands?_convert_timeout :
    let rules := [sharedBeep, playerJump]
    let timeout : Action := { name := "timeout", callback := "onTimeout" }
    (Script.parse "if (timeout || playerenters && armed) beep; if (timeout) playerjump;").script =
        rules.map statement ∧
      timeout ∈ Action.table ∧
      ∃ performed,
        callbackCommands? (Script.convert {} (rules.map statement)).code (fun _ => false) timeout =
          some performed ∧ performed.Perm ["beep", "playerjump"] := by
  dsimp only
  have known : ({ name := "timeout", callback := "onTimeout" } : Action) ∈ Action.table := by
    decide
  have needed : ([sharedBeep, playerJump].any fun rule =>
      rule.isOwn { name := "timeout", callback := "onTimeout" } ||
        rule.forwards { name := "timeout", callback := "onTimeout" }) = true := by
    decide
  have due : (([sharedBeep, playerJump].filter fun rule =>
      rule.isDue { name := "timeout", callback := "onTimeout" } fun _ => false).map command) =
        ["beep", "playerjump"] := by
    decide
  have found := functionBody?_callback {} [sharedBeep, playerJump] known
  rw [needed, if_pos rfl] at found
  obtain ⟨performed, run, same, _⟩ :=
    (callbackCommands?_convert {} [sharedBeep, playerJump] known fun _ => false).2 _ found
  exact ⟨by rfl, known, performed, run, due ▸ same⟩

end GuardedCommand

end EventScript
