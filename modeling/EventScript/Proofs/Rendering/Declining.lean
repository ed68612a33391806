import EventScript.Proofs.Rendering.Misreadings
import EventScript.Proofs.Session.Effects

/-!
# Built-in functions that decline

Whether a built-in function can be called is decided by the arguments alone,
before any code is generated for them.  A function that declines leaves nothing
behind in the session, and the call is then written with the code for each
argument once.  However a call is written, it reports an expression that cannot
be read at most once, and it takes no argument from a position where there is
none.
-/

namespace EventScript

open scoped List

variable {α : Type} {builtin : Builtin} {function : String}
variable (site : Site) (context : ExprContext)

/-! ## When a function declines -/

namespace Builtin

/-- A built-in function cannot be called with the given arguments. -/
def Declines : Builtin → List Expr → Prop
  | template least _, arguments => arguments.length < least
  | variableTemplate least _, arguments => arguments.length < max least 1
  | placement least _ _ _, arguments => arguments.length < least
  | helper least _, arguments => arguments.length < least
  | setFlag, arguments => arguments = []
  | clearFlag, arguments => arguments = []
  | setProperty owner, arguments =>
    ¬∃ code value others, arguments = .text code :: value :: others ∧
      (propertyTarget? code owner).isSome
  | chatTest, arguments => arguments = []
  | placeBaddy least, arguments => arguments.length < max least 3

theorem apply_eq_none_iff {site : Site} {code : Expr → Emission String} {arguments : List Expr} :
    builtin.apply site (argumentsBy code arguments) = none ↔ builtin.Declines arguments := by
  cases builtin with
  | template least text | placement least _ _ text | helper least text =>
    simp [apply, Declines]
  | variableTemplate least text =>
    cases arguments with
    | nil =>
      simp only [apply, Declines, argumentsBy, List.map_nil, List.length_nil, true_iff]
      omega
    | cons argument others =>
      simp only [apply, Declines, argumentsBy_cons, List.length_cons, length_argumentsBy]
      split <;> simp <;> omega
  | setFlag | clearFlag | chatTest =>
    cases arguments <;> simp [apply, Declines, argumentsBy]
  | setProperty owner =>
    rcases arguments with _ | ⟨target, _ | ⟨value, others⟩⟩
    · simp [apply, Declines, argumentsBy]
    · simp [apply, Declines, argumentsBy]
    · cases target <;> simp [apply, Declines, argumentsBy]
  | placeBaddy least =>
    rcases arguments with _ | ⟨kind, _ | ⟨x, _ | ⟨y, others⟩⟩⟩
    · exact ⟨fun _ => Nat.lt_of_lt_of_le (by simp) (Nat.le_max_right _ _), fun _ => rfl⟩
    · exact ⟨fun _ => Nat.lt_of_lt_of_le (by simp) (Nat.le_max_right _ _), fun _ => rfl⟩
    · exact ⟨fun _ => Nat.lt_of_lt_of_le (by simp) (Nat.le_max_right _ _), fun _ => rfl⟩
    · simp only [apply, Declines, argumentsBy_cons, List.length_cons, length_argumentsBy]
      split <;> simp <;> omega

end Builtin

/-! ## Arguments by position -/

/-- Code that takes arguments by their positions.  It fails with a position where
there is no argument. -/
abbrev Positional :=
  ExceptT Nat Emission

namespace Positional

/-- The argument at a position. -/
def item {α : Type} (items : List α) (position : Nat) : Positional α :=
  match items[position]? with
  | some item => pure item
  | none => throw position

/-- The arguments from a position on. -/
def itemsFrom {α : Type} (items : List α) (position : Nat) : Positional (List α) :=
  if position ≤ items.length then pure (items.drop position) else throw position

/-- Change the argument at a position. -/
def change (items : List String) (position : Nat) (function : String → String) :
    Positional (List String) := do
  return items.set position (function (← item items position))

/-- Put arguments into a template. -/
def fillTemplate (arguments : List String) : List Char → Positional (List Char)
  | [] => pure []
  | '$' :: '*' :: rest => do
    return (joinArguments arguments).toList ++ (← fillTemplate arguments rest)
  | '$' :: digit :: rest =>
    if digit.isDigit then do
      let argument ← item arguments (digit.toNat - '0'.toNat)
      return argument.toList ++ (← fillTemplate arguments rest)
    else do return '$' :: (← fillTemplate arguments (digit :: rest))
  | character :: rest => do return character :: (← fillTemplate arguments rest)

/-- Put arguments into a template. -/
def fill (template : String) (arguments : List String) : Positional String := do
  return String.ofList (← fillTemplate arguments template.toList)

end Positional

namespace Builtin

/-- The code for a call, with every argument taken by its position once there are
as many as the function asks for. -/
def applyByPosition (builtin : Builtin) (site : Site) (arguments : List Argument) :
    Option (Positional String) :=
  match builtin with
  | template least text =>
    if least ≤ arguments.length then some do Positional.fill text (← codes arguments) else none
  | variableTemplate least text =>
    if max least 1 ≤ arguments.length then
      some do
        let name ← (← Positional.item arguments 0).asVariable
        let others ← codes (← Positional.itemsFrom arguments 1)
        Positional.fill text (name :: others)
    else none
  | placement least x y text =>
    if least ≤ arguments.length then
      some do
        let coordinates := site.options.coordinates
        let rendered ← codes arguments
        let rendered ← Positional.change rendered x fun code => coordinates.toPixels code .x
        let rendered ← Positional.change rendered y fun code => coordinates.toPixels code .y
        Positional.fill text rendered
    else none
  | placeBaddy least =>
    if least ≤ arguments.length then
      some do
        let coordinates := site.options.coordinates
        let kind ← (← Positional.item arguments 0).asBaddyKind
        let x ← (← Positional.item arguments 1).code
        let y ← (← Positional.item arguments 2).code
        let others ← codes (← Positional.itemsFrom arguments 3)
        return "this.level.putBaddy(" ++
          joinArguments (coordinates.toPixels x .x :: coordinates.toPixels y .y :: kind :: others)
          ++ ")"
    else none
  | other => (other.apply site arguments).map monadLift

/-- The positions that a template mentions. -/
def mentionedPositions : List Char → List Nat
  | [] => []
  | '$' :: '*' :: rest => mentionedPositions rest
  | '$' :: digit :: rest =>
    if digit.isDigit then (digit.toNat - '0'.toNat) :: mentionedPositions rest
    else mentionedPositions (digit :: rest)
  | _ :: rest => mentionedPositions rest

/-- The positions from which a built-in function takes arguments. -/
def positions : Builtin → List Nat
  | template _ text => mentionedPositions text.toList
  | variableTemplate _ text => mentionedPositions text.toList
  | placement _ x y text => x :: y :: mentionedPositions text.toList
  | placeBaddy _ => [0, 1, 2]
  | _ => []

/-- The number of arguments that a built-in function asks for. -/
def leastArguments : Builtin → Nat
  | template least _ => least
  | variableTemplate least _ => least
  | placement least _ _ _ => least
  | placeBaddy least => least
  | _ => 0

/-- Every built-in function asks for as many arguments as it takes. -/
theorem position_lt_leastArguments (found : find? function = some builtin) :
    ∀ position ∈ builtin.positions, position < builtin.leastArguments := by
  have all : ∀ entry ∈ table, ∀ position ∈ entry.2.positions,
      position < entry.2.leastArguments := by
    decide +kernel
  exact all _ (mem_table_of_find? found)

end Builtin

namespace Positional

variable {position : Nat}

theorem item_eq {items : List α} (bound : position < items.length) :
    item items position = pure (items.get ⟨position, bound⟩) := by
  rw [item, List.getElem?_eq_getElem bound]
  rfl

theorem change_eq {items : List String} (bound : position < items.length)
    (function : String → String) :
    change items position function = pure (items.modify position function) := by
  rw [change, item_eq bound, pure_bind, List.modify_eq_set, List.getElem?_eq_getElem bound]
  rfl

theorem itemsFrom_eq {items : List α} (bound : position ≤ items.length) :
    itemsFrom items position = pure (items.drop position) :=
  if_pos bound

/-- An emission that is followed by code which takes its arguments where they
are.  The code behind it has to do so for the value of the emission only. -/
theorem lift_bind {β : Type} {first : Emission α} {next : α → Positional β} {other : α → Emission β}
    (same : next first.value = monadLift (other first.value)) :
    monadLift first >>= next = monadLift (first >>= other) := by
  have run : (monadLift first >>= next : Positional β).run =
      ⟨(next first.value).run.value, first.effects ++ (next first.value).run.effects⟩ :=
    ExceptT.run_bind_lift first next
  refine ExceptT.ext (run.trans ?_)
  rw [same]
  exact congrArg (Emission.mk _) (List.append_assoc ..).symm

theorem fillTemplate_eq {arguments : List String} {template : List Char}
    (there : ∀ position ∈ Builtin.mentionedPositions template, position < arguments.length) :
    fillTemplate arguments template = pure (EventScript.fillTemplate arguments template) := by
  fun_induction fillTemplate arguments template with
  | case1 => rfl
  | case2 rest ih =>
    rw [Builtin.mentionedPositions] at there
    rw [ih there, EventScript.fillTemplate]
    rfl
  | case3 digit rest notStar isDigit ih =>
    rw [Builtin.mentionedPositions, if_pos isDigit, List.forall_mem_cons] at there
    · rw [item_eq there.1, ih there.2, EventScript.fillTemplate, if_pos isDigit,
        List.getElem?_eq_getElem there.1]
      · rfl
      · exact notStar
    · exact notStar
  | case4 digit rest notStar notDigit ih =>
    rw [Builtin.mentionedPositions, if_neg notDigit] at there
    · rw [ih there, EventScript.fillTemplate, if_neg notDigit]
      · rfl
      · exact notStar
    · exact notStar
  | case5 character rest notAll notOne ih =>
    rw [Builtin.mentionedPositions] at there
    · rw [ih there, EventScript.fillTemplate]
      · rfl
      · exact notAll
      · exact notOne
    · exact notAll
    · exact notOne

theorem fill_eq {arguments : List String} {template : String}
    (there : ∀ position ∈ Builtin.mentionedPositions template.toList,
      position < arguments.length) :
    fill template arguments = pure (EventScript.fill template arguments) := by
  rw [fill, fillTemplate_eq there]
  rfl

end Positional

/-- Taking every argument by its position gives the same code: none is missing. -/
theorem Builtin.applyByPosition_eq (found : find? function = some builtin) (site : Site)
    (arguments : List Argument) :
    builtin.applyByPosition site arguments = (builtin.apply site arguments).map monadLift := by
  have bound := position_lt_leastArguments found
  have count : (codes arguments).value.length = arguments.length := by simp [codes]
  cases builtin with
  | template least text =>
    simp only [applyByPosition, apply]
    split
    · next enough =>
      refine congrArg some (Positional.lift_bind (Positional.fill_eq fun position member => ?_))
      exact count ▸ Nat.lt_of_lt_of_le (bound position member) enough
    · rfl
  | variableTemplate least text =>
    cases arguments with
    | nil => simp [applyByPosition, apply]
    | cons first others =>
      simp only [applyByPosition, apply, List.length_cons]
      have asked : max least 1 ≤ others.length + 1 ↔ least ≤ others.length + 1 := by omega
      simp only [asked]
      split
      · next enough =>
        have zeroth : 0 < (first :: others).length := Nat.succ_pos _
        refine congrArg some ?_
        rw [Positional.item_eq zeroth, pure_bind]
        refine Positional.lift_bind ?_
        rw [Positional.itemsFrom_eq (Nat.succ_le_of_lt zeroth), pure_bind]
        refine Positional.lift_bind (Positional.fill_eq fun position member => ?_)
        have others_length : (codes others).value.length = others.length := by simp [codes]
        have inside := Nat.lt_of_lt_of_le (bound position member) enough
        simpa [others_length] using inside
      · rfl
  | placement least x y text =>
    simp only [applyByPosition, apply]
    split
    · next enough =>
      rw [positions, List.forall_mem_cons, List.forall_mem_cons] at bound
      obtain ⟨boundX, boundY, mentioned⟩ := bound
      refine congrArg some (Positional.lift_bind ?_)
      rw [Positional.change_eq (count ▸ Nat.lt_of_lt_of_le boundX enough), pure_bind,
        Positional.change_eq, pure_bind, Positional.fill_eq]
      · rfl
      · intro position member
        simpa [count] using Nat.lt_of_lt_of_le (mentioned position member) enough
      · simpa [count] using Nat.lt_of_lt_of_le boundY enough
    · rfl
  | placeBaddy least =>
    have third : 2 < least := bound 2 (by simp [positions])
    rcases arguments with _ | ⟨kind, _ | ⟨x, _ | ⟨y, others⟩⟩⟩
    · exact if_neg (Nat.not_le_of_lt (Nat.lt_of_le_of_lt (by simp) third))
    · exact if_neg (Nat.not_le_of_lt (Nat.lt_of_le_of_lt (by simp) third))
    · exact if_neg (Nat.not_le_of_lt third)
    · simp only [applyByPosition, apply]
      split
      · next enough =>
        refine congrArg some ?_
        rw [Positional.item_eq (by simp), pure_bind]
        refine Positional.lift_bind ?_
        rw [Positional.item_eq (by simp), pure_bind]
        refine Positional.lift_bind ?_
        rw [Positional.item_eq (by simp), pure_bind]
        refine Positional.lift_bind ?_
        rw [Positional.itemsFrom_eq (by simp), pure_bind]
        exact Positional.lift_bind rfl
      · rfl
  | _ => rfl

/-! ## Calls in a session -/

/-- A call that no built-in function takes.  The code for each argument is
generated once, in order. -/
def Site.plainCall (site : Site) (function : String) (arguments : List (Emission String)) :
    Emission String := do
  let callee ← site.calleeCode function
  return callee ++ "(" ++ joinArguments (← Emission.sequence arguments) ++ ")"

theorem renderArguments_eq (arguments : List Expr) :
    renderArguments site context arguments = argumentsBy (render site context) arguments :=
  rfl

theorem render_call (function : String) (arguments : List Expr) :
    render site context (.call function arguments) =
      site.callCode function (renderArguments site context.arguments arguments) := by
  rw [render, renderWith, zipWith_renderAllWith]
  rfl

theorem misreadings_render_sublist (expr : Expr) :
    (render site context expr).misreadings <+ expr.unreadable.map ScriptError.misreading :=
  Spot.misreadings_sublist site ⟨context, .free, expr⟩

/-- What a user reads of an expression that cannot be read. -/
def ScriptError.remark (error : ScriptError) : Diagnostic :=
  ⟨error.line, (Problem.embedded error).message⟩

/-- Whether a user reads it of an expression that cannot be read. -/
def Diagnostic.isMisreading (diagnostic : Diagnostic) : Bool :=
  Text.startsWith diagnostic.message "in property code: "

/-- The wording tells whether an expression cannot be read. -/
theorem Effect.isMisreading_of_remark? {effect : Effect} {diagnostic : Diagnostic}
    (remarks : Ledger.remark? effect = some diagnostic) (misread : diagnostic.isMisreading) :
    effect.isMisreading := by
  cases effect with
  | report line problem =>
    obtain rfl := Option.some.inj remarks
    cases problem with
    | sliceArguments found =>
      have wording : (Problem.sliceArguments found).message.toList =
          "#e expects 3 arguments, found ".toList ++ (toString found).toList :=
        String.toList_append
      rw [Diagnostic.isMisreading, Text.startsWith, wording] at misread
      exact absurd misread (by simp)
    | _ => rfl
  | _ => cases remarks

theorem filter_remarks_sublist (effects : List Effect) :
    (effects.filterMap Ledger.remark?).filter Diagnostic.isMisreading <+
      (effects.filter Effect.isMisreading).filterMap Ledger.remark? := by
  induction effects with
  | nil => exact .refl _
  | cons effect rest ih =>
    cases remarks : Ledger.remark? effect with
    | none =>
      rw [List.filterMap_cons_none remarks]
      refine ih.trans (List.Sublist.filterMap _ ?_)
      exact List.Sublist.filter _ (List.sublist_cons_self effect rest)
    | some diagnostic =>
      rw [List.filterMap_cons_some remarks]
      by_cases misread : diagnostic.isMisreading
      · rw [List.filter_cons_of_pos misread,
          List.filter_cons_of_pos (Effect.isMisreading_of_remark? remarks misread),
          List.filterMap_cons_some remarks]
        exact ih.cons_cons diagnostic
      · rw [List.filter_cons_of_neg misread]
        refine ih.trans (List.Sublist.filterMap _ ?_)
        exact List.Sublist.filter _ (List.sublist_cons_self effect rest)

namespace Session

variable (session : Session) (context : ExprContext)

/-- A session goes on from another one with nothing changed but the ledger.  Of
the expressions in the texts of the arguments that cannot be read, the user
reads of each at most once, in order. -/
def ReportsOnce (session after : Session) (arguments : List Expr) : Prop :=
  after = { session with ledger := after.ledger } ∧
    ∃ added, after.ledger.diagnostics = session.ledger.diagnostics ++ added ∧
      added.filter Diagnostic.isMisreading <+
        (arguments.flatMap Expr.unreadable).map ScriptError.remark

theorem reportsOnce_refl (arguments : List Expr) : session.ReportsOnce session arguments :=
  ⟨rfl, [], (List.append_nil _).symm, List.nil_sublist _⟩

theorem reportsOnce_perform {session : Session} {emission : Emission α}
    {arguments written : List Expr} (sublist : written <+ arguments)
    (reports : emission.misreadings =
      written.flatMap fun argument => (render session.site context argument).misreadings) :
    session.ReportsOnce (session.perform emission).2 arguments := by
  have reported : emission.misreadings <+
      (arguments.flatMap Expr.unreadable).map ScriptError.misreading := calc
    emission.misreadings
    _ = written.flatMap fun argument => (render session.site context argument).misreadings :=
      reports
    _ <+ written.flatMap fun argument => argument.unreadable.map ScriptError.misreading :=
      .flatMap_right _ fun argument _ => misreadings_render_sublist session.site context argument
    _ = (written.flatMap Expr.unreadable).map ScriptError.misreading :=
      (List.map_flatMap ..).symm
    _ <+ (arguments.flatMap Expr.unreadable).map ScriptError.misreading :=
      (sublist.flatMap _).map _
  refine ⟨rfl, emission.effects.filterMap Ledger.remark?, ?_, ?_⟩
  · rw [perform, Ledger.recordAll_eq_extend]
    rfl
  · calc (emission.effects.filterMap Ledger.remark?).filter Diagnostic.isMisreading
      _ <+ emission.misreadings.filterMap Ledger.remark? :=
        filter_remarks_sublist emission.effects
      _ <+ ((arguments.flatMap Expr.unreadable).map ScriptError.misreading).filterMap
          Ledger.remark? := reported.filterMap _
      _ = (arguments.flatMap Expr.unreadable).map ScriptError.remark := by
        rw [List.filterMap_map, ← List.filterMap_eq_map]
        rfl

variable {builtin : Builtin} {arguments : List Expr}

theorem builtin_of_declines (declines : builtin.Declines arguments) :
    session.builtin context builtin arguments = (none, session) := by
  rw [Session.builtin, renderArguments_eq, Builtin.apply_eq_none_iff.mpr declines]

theorem builtin_of_accepts (accepts : ¬builtin.Declines arguments) :
    ∃ emission, builtin.apply session.site (renderArguments session.site context arguments) =
        some emission ∧
      session.builtin context builtin arguments = session.perform (some <$> emission) := by
  rw [Session.builtin, renderArguments_eq]
  cases applied : builtin.apply session.site
      (argumentsBy (render session.site context) arguments) with
  | none => exact absurd (Builtin.apply_eq_none_iff.mp applied) accepts
  | some emission => exact ⟨emission, rfl, rfl⟩

theorem reportsOnce_builtin (found : Builtin.find? function = some builtin) (session : Session)
    (context : ExprContext) (arguments : List Expr) :
    session.ReportsOnce (session.builtin context builtin arguments).2 arguments := by
  unfold Session.builtin
  split
  · next code applied =>
    rw [renderArguments_eq] at applied
    refine reportsOnce_perform context (builtin.written_sublist arguments) ?_
    rw [Emission.misreadings_map]
    exact Emission.misreadings_of_notable (filter_flagMark function arguments)
      (Builtin.notable_apply found applied)
  · exact session.reportsOnce_refl arguments

theorem reportsOnce_call (function : String) (arguments : List Expr) :
    session.ReportsOnce (session.expression context (.call function arguments)).2 arguments := by
  rw [expression, render_call, renderArguments_eq]
  exact reportsOnce_perform context.arguments (writtenArguments_sublist function arguments)
    (Emission.misreadings_of_notable (filter_flagMark function arguments) Site.notable_callCode)

end Session

namespace Builtin

end Builtin

end EventScript
