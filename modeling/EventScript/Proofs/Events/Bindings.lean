import EventScript.Proofs.Events.Links
import EventScript.Proofs.Text.BareNames
import Mathlib.Data.List.DropRight

/-!
# Bindings of callbacks

A callback binds the names that it uses.  The values of its event are parameters
up to the last one that is referred to, and a player whom the event does not
bring is declared in the first line of the callback.
-/

namespace EventScript

variable {role : Role}

theorem Role.mentions_iff (role : Role) (code : String) :
    mentions code role.name = true ↔ OccursBare role.name code := by
  cases role <;> exact EventScript.mentions_iff rfl (by decide) code

theorem Role.not_occursBare_empty (role : Role) : ¬OccursBare role.name "" := by
  rw [← role.mentions_iff]
  exact Bool.false_ne_true

theorem not_occursBare_player {code : String} (unmentioned : mentions code "player" = false) :
    ¬OccursBare "player" code := by
  intro occurs
  have mentioned := (Role.player.mentions_iff code).mpr occurs
  exact absurd mentioned (Bool.eq_false_iff.mp unmentioned)

namespace EventBody

/-- A value is referred to if there is a prologue, which is given all values, or
if it occurs in the body by name. -/
def RefersTo (event : EventBody) (prologue : String) (role : Role) : Prop :=
  prologue ≠ "" ∨ OccursBare role.name event.body

/-- The first line of the callback of an event with some parameters. -/
def header (event : EventBody) (parameters : List Role) : String :=
  codeLine 0 ("function " ++ event.action.callback ++ "(" ++
    ", ".intercalate (parameters.map Role.name) ++ ") \x7b")

/-- The callback of an event is made of its first line, lines that declare the
player, a call of the prologue and the body, and binds the names that these
use. -/
structure Binds (event : EventBody) (options : Options) (prologue : String)
    (parameters : List Role) (declaration call : String) : Prop where
  text : event.callback options prologue =
    event.header parameters ++ (declaration ++ call ++ event.body) ++ codeLine 0 "\x7d"
  /-- The prologue is called if there is one. -/
  called : if prologue = "" then call = "" else
    ∃ arguments, call = codeLine 1 ("this._onAnyAction(" ++ arguments ++ ");")
  /-- The parameters are the first values of the event, and none of the others is
  referred to. -/
  initial : ∃ others, event.action.roles = parameters ++ others ∧
    ∀ role ∈ others, ¬event.RefersTo prologue role
  /-- The last parameter is referred to. -/
  last : ∀ role, parameters.getLast? = some role → event.RefersTo prologue role
  /-- The values of the event that the body or the call uses are parameters. -/
  given : ∀ role ∈ event.action.roles,
    OccursBare role.name event.body ∨ OccursBare role.name call → role ∈ parameters
  /-- A player whom the body or the call uses is a parameter, or is declared in
  front of every other use. -/
  player : OccursBare "player" event.body ∨ OccursBare "player" call →
    .player ∈ parameters ∨
      ∃ source guard, declaration = codeLine 1 ("var player = " ++ source ++ ";") ++ guard ∧
        ¬OccursBare "player" source ∧ ¬OccursBare "player" (event.header parameters)
  /-- A player whom the event brings is not declared. -/
  declared : declaration ≠ "" → .player ∉ event.action.roles

section Parameters

variable {event : EventBody} {prologue : String}

theorem uses_iff (role : Role) : event.uses prologue role = true ↔ event.RefersTo prologue role := by
  rw [uses, Bool.or_eq_true, role.mentions_iff, RefersTo, Bool.not_eq_true', ← Bool.not_eq_true,
    String.isEmpty_iff]

theorem parameters_eq_rdropWhile :
    event.parameters prologue =
      event.action.roles.rdropWhile fun role => !event.uses prologue role :=
  rfl

theorem exists_roles_eq_parameters_append :
    ∃ others, event.action.roles = event.parameters prologue ++ others ∧
      ∀ role ∈ others, ¬event.RefersTo prologue role := by
  refine ⟨event.action.roles.rtakeWhile fun role => !event.uses prologue role, ?_, ?_⟩
  · rw [parameters_eq_rdropWhile, List.rdropWhile_append_rtakeWhile]
  · intro role member
    have unused := List.mem_rtakeWhile_imp member
    rw [← uses_iff]
    simpa using unused

theorem refersTo_of_getLast?_parameters (last : (event.parameters prologue).getLast? = some role) :
    event.RefersTo prologue role := by
  obtain ⟨nonempty, isLast⟩ := List.mem_getLast?_eq_getLast last
  have used : ¬(!event.uses prologue role) = true :=
    isLast ▸ List.rdropWhile_last_not (fun role => !event.uses prologue role) _ nonempty
  rw [← uses_iff]
  simpa using used

theorem mem_parameters (isGiven : role ∈ event.action.roles) (refers : event.RefersTo prologue role) :
    role ∈ event.parameters prologue := by
  obtain ⟨others, split, unused⟩ := @exists_roles_eq_parameters_append event prologue
  rw [split, List.mem_append] at isGiven
  rcases isGiven with isParameter | isOther
  · exact isParameter
  · exact absurd refers (unused role isOther)

end Parameters

/-! ## Lines in front of the body -/

section Lines

variable {event : EventBody} {prologue : String}

/-- The line that calls the prologue, and none without one. -/
def callCode (event : EventBody) (prologue : String) : String :=
  if prologue.isEmpty then "" else codeLine 1 (event.prologueCall prologue)

theorem callback_eq_header_append (options : Options) (prologue : String) (event : EventBody) :
    event.callback options prologue =
      event.header (event.parameters prologue) ++
        (event.playerCode options prologue ++ event.callCode prologue ++ event.body) ++
        codeLine 0 "\x7d" :=
  event.callback_eq options prologue

/-- Events either bring the player or bring nothing. -/
theorem roles_eq_nil_of_not_has (known : event.action ∈ Action.table)
    (alone : event.action.has .player = false) : event.action.roles = [] := by
  have apart : ∀ action ∈ Action.table, action.has .player = false → action.roles = [] := by
    decide
  exact apart event.action known alone

/-- A callback without parameters does not use the player in its first line. -/
theorem not_occursBare_header (known : event.action ∈ Action.table)
    (alone : event.action.has .player = false) :
    ¬OccursBare "player" (event.header (event.parameters prologue)) := by
  have unmentioned : ∀ action ∈ Action.table, action.has .player = false →
      mentions (header { action := action } []) "player" = false := by
    decide +kernel
  have none : event.parameters prologue = [] := by
    rw [parameters, roles_eq_nil_of_not_has known alone]
    rfl
  rw [none]
  exact not_occursBare_player (unmentioned event.action known alone)

/-- The player is found without the name for it. -/
theorem not_occursBare_playerSource (options : Options) (action : Action) :
    ¬OccursBare "player" (playerSource options action) := by
  rw [playerSource]
  split
  · exact not_occursBare_player (by decide)
  · split
    · exact not_occursBare_player (by decide)
    · cases options.playerList <;> exact not_occursBare_player (by decide)

/-- A call that is not given the player does not use it. -/
theorem not_occursBare_prologueCall (known : event.action ∈ Action.table)
    (alone : event.action.has .player = false) (unfound : event.findsPlayer prologue = false) :
    ¬OccursBare "player" (codeLine 1 (event.prologueCall prologue)) := by
  have unmentioned : ∀ action ∈ Action.table, action.has .player = false →
      mentions (codeLine 1 (prologueCall { action := action } "")) "player" = false := by
    decide +kernel
  have same : event.prologueCall prologue = prologueCall { action := event.action } "" := by
    have unfoundWithout : findsPlayer { action := event.action } "" = false := by
      rw [findsPlayer, Bool.and_eq_false_iff]
      apply Or.inr
      rfl
    unfold prologueCall
    rw [unfound, unfoundWithout]
  rw [same]
  exact not_occursBare_player (unmentioned event.action known alone)

theorem callCode_empty : event.callCode "" = "" :=
  rfl

theorem exists_callCode_eq (hasPrologue : prologue ≠ "") :
    ∃ arguments, event.callCode prologue =
      codeLine 1 ("this._onAnyAction(" ++ arguments ++ ");") := by
  obtain ⟨arguments, call⟩ := event.exists_prologueCall_eq prologue
  rw [callCode, if_neg (mt String.isEmpty_iff.mp hasPrologue), call]
  refine ⟨"\"" ++ event.action.name ++ "\", " ++ arguments, congrArg (codeLine 1) ?_⟩
  have opening : "this._onAnyAction(\"" = "this._onAnyAction(" ++ "\"" := rfl
  rw [opening]
  simp only [String.append_assoc]

/-- The values of the event that the body or the call uses are parameters. -/
theorem mem_parameters_of_occursBare (isGiven : role ∈ event.action.roles)
    (occurs : OccursBare role.name event.body ∨ OccursBare role.name (event.callCode prologue)) :
    role ∈ event.parameters prologue := by
  rcases occurs with inBody | inCall
  · exact mem_parameters isGiven (Or.inr inBody)
  · by_cases noPrologue : prologue = ""
    · rw [noPrologue, callCode_empty] at inCall
      exact absurd inCall role.not_occursBare_empty
    · exact mem_parameters isGiven (Or.inl noPrologue)

/-- A player whom the callback uses and the event does not bring is found. -/
theorem findsPlayer_of_occursBare (known : event.action ∈ Action.table)
    (alone : event.action.has .player = false)
    (occurs : OccursBare "player" event.body ∨ OccursBare "player" (event.callCode prologue)) :
    event.findsPlayer prologue = true := by
  by_contra unfound
  rw [Bool.not_eq_true] at unfound
  rcases occurs with inBody | inCall
  · have mentioned := (Role.player.mentions_iff event.body).mpr inBody
    rw [findsPlayer, alone, mentioned] at unfound
    cases unfound
  · rw [callCode] at inCall
    split at inCall
    · exact absurd inCall Role.player.not_occursBare_empty
    · exact absurd inCall (not_occursBare_prologueCall known alone unfound)

theorem exists_playerCode_eq (options : Options) (finds : event.findsPlayer prologue = true) :
    ∃ guard, event.playerCode options prologue =
      codeLine 1 ("var player = " ++ playerSource options event.action ++ ";") ++ guard := by
  rw [playerCode, if_pos finds, playerLines, List.map_cons, String.join_cons]
  exact ⟨_, rfl⟩

end Lines

end EventBody

/-- The callbacks of generated code bind the names that they use. -/
theorem Outline.binds_callbacks (options : Options) (script : Script) :
    let outline := Outline.addScript { options := options } script
    (∃ front behind, (Script.convert options script).code = "\n".intercalate
      (front ++ outline.callbacks.map (EventBody.callback options outline.prologue) ++ behind)) ∧
    ∀ event ∈ outline.callbacks, ∃ parameters declaration call,
      event.Binds options outline.prologue parameters declaration call := by
  intro outline
  constructor
  · change ∃ front behind, outline.text = _
    have sameOptions : outline.options = options := Outline.options_addScript
    rw [Outline.text, Outline.sections, List.append_assoc, List.append_assoc, sameOptions]
    exact ⟨_, _, rfl⟩
  · intro event member
    obtain ⟨known, -⟩ := Outline.body_of_mem_callbacks member
    refine ⟨event.parameters outline.prologue, event.playerCode options outline.prologue,
      event.callCode outline.prologue, ?_⟩
    constructor
    case text => exact event.callback_eq_header_append options outline.prologue
    case called =>
      by_cases noPrologue : outline.prologue = ""
      · rw [if_pos noPrologue, noPrologue, EventBody.callCode_empty]
      · rw [if_neg noPrologue]
        exact EventBody.exists_callCode_eq noPrologue
    case initial => exact EventBody.exists_roles_eq_parameters_append
    case last => exact fun role isLast => EventBody.refersTo_of_getLast?_parameters isLast
    case given => exact fun role => EventBody.mem_parameters_of_occursBare
    case player =>
      intro occurs
      cases alone : event.action.has .player with
      | true =>
        apply Or.inl
        exact EventBody.mem_parameters_of_occursBare (List.contains_iff_mem.mp alone) occurs
      | false =>
        have finds := EventBody.findsPlayer_of_occursBare known alone occurs
        obtain ⟨guard, declared⟩ := EventBody.exists_playerCode_eq options finds
        apply Or.inr
        exact ⟨_, guard, declared, EventBody.not_occursBare_playerSource options event.action,
          EventBody.not_occursBare_header known alone⟩
    case declared =>
      intro found isGiven
      apply found
      rw [EventBody.playerCode, EventBody.findsPlayer, Action.has,
        List.contains_iff_mem.mpr isGiven]
      rfl

/-- A timer that moves the player. -/
def timerScript : Script :=
  [.branch (.name "timeout")
    (.expression (.binary .assign (.name "playerhearts") (.number "3"))) none]

/-- The callback of a timer has no parameters, uses the player and binds it. -/
theorem Outline.binds_callbacks_timer :
    ∃ event ∈ (Outline.addScript { options := {} } timerScript).callbacks,
      event.action.roles = [] ∧ OccursBare "player" event.body ∧
        ∃ parameters declaration call, event.Binds {}
          (Outline.addScript { options := {} } timerScript).prologue
          parameters declaration call := by
  have facts : ((Outline.addScript { options := {} } timerScript).callbacks.map fun event =>
      (event.action.roles, mentions event.body Role.player.name)) = [([], true)] := by
    decide +kernel
  obtain ⟨event, callbacks, same⟩ := List.map_eq_singleton_iff.mp facts
  obtain ⟨noRoles, mentioned⟩ := Prod.mk.inj same
  have member : event ∈ (Outline.addScript { options := {} } timerScript).callbacks := by
    rw [callbacks]
    exact List.mem_singleton_self event
  exact ⟨event, member, noRoles, (Role.player.mentions_iff event.body).mp mentioned,
    (Outline.binds_callbacks {} timerScript).2 event member⟩

end EventScript
