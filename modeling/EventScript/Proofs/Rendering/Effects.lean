import EventScript.Proofs.Rendering.Congruence
import EventScript.Vocabulary.Helper

/-!
# The notable effects of generated code

Most effects of generation are requests for helpers, and every helper that is
requested has a source.  What is left, apart from remarks on substring codes, is
notable: it is followed here through names, calls and expressions.  The notable
effects of the code for an expression are those of the code for its operands, in
order, and the mark that the dispatcher is called if a flag is set.
-/

namespace EventScript

variable {name function : String}

/-- Whether an effect is anything but a request for a helper that has a source,
or a remark on a substring code with the wrong number of arguments. -/
def Effect.isNotable : Effect → Bool
  | .helper name => (Helper.find? name).isNone
  | .report _ (.sliceArguments _) => false
  | _ => true

namespace Emission

variable {α : Type}

/-- The notable effects of an emission, in order. -/
def notable {α : Type} (emission : Emission α) : List Effect :=
  emission.effects.filter Effect.isNotable

@[simp]
theorem notable_pure (value : α) : (pure value : Emission α).notable = [] :=
  rfl

@[simp]
theorem notable_bind {β : Type} (first : Emission α) (next : α → Emission β) :
    (first >>= next).notable = first.notable ++ (next first.value).notable :=
  List.filter_append ..

@[simp]
theorem notable_map {β : Type} (function : α → β) (emission : Emission α) :
    (function <$> emission).notable = emission.notable := by
  simp [notable]

@[simp]
theorem notable_sequence (emissions : List (Emission α)) :
    (sequence emissions).notable = emissions.flatMap notable := by
  rw [notable, effects_sequence, List.filter_flatMap]
  rfl

theorem notable_requestHelpers {names : List String}
    (found : ∀ name ∈ names, (Helper.find? name).isSome) : (requestHelpers names).notable = [] := by
  rw [notable, requestHelpers, List.filter_eq_nil_iff]
  intro effect member
  obtain ⟨name, requested, rfl⟩ := List.mem_map.mp member
  simp [Effect.isNotable, Option.isSome_iff_ne_none.mp (found name requested)]

theorem notable_requestHelper (found : (Helper.find? name).isSome) :
    (requestHelper name).notable = [] :=
  notable_requestHelpers (List.forall_mem_singleton.mpr found)

@[simp]
theorem notable_markDispatcher : markDispatcher.notable = [.dispatcher] :=
  rfl

end Emission

/-! ## Names -/

theorem CoordinateMode.find?_tileHelper (mode : CoordinateMode) (axis : Axis) :
    (Helper.find? (mode.tileHelper axis)).isSome := by
  cases mode <;> cases axis <;> decide +kernel

/-- The helper for an axis turns pixels into tiles. -/
theorem Options.find?_of_mem_fillAxis {options : Options} {axis : Axis} {text : String}
    (member : name ∈ (options.fillAxis axis text).2) : (Helper.find? name).isSome := by
  rw [fillAxis] at member
  split at member
  · obtain rfl := List.mem_singleton.mp member
    exact CoordinateMode.find?_tileHelper _ _
  · cases member

theorem Options.find?_of_mem_substitute {options : Options} {text name : String}
    (member : name ∈ (options.substitute text).2) : (Helper.find? name).isSome := by
  rw [substitute] at member
  rcases List.mem_append.mp member with horizontal | vertical
  · exact find?_of_mem_fillAxis horizontal
  · exact find?_of_mem_fillAxis vertical

namespace Site

variable (site : Site)

@[simp]
theorem notable_substitute (replacement : String) :
    (site.substitute replacement).notable = [] := by
  have found := fun name => @Options.find?_of_mem_substitute site.options replacement name
  rw [substitute]
  generalize site.options.substitute replacement = filled at found
  simp [Emission.notable_requestHelpers found]

@[simp]
theorem notable_nameCode (context : ExprContext) (name : String) :
    (site.nameCode context name).notable = [] := by
  rw [nameCode]
  split
  · simp
  · split
    · split <;> simp
    · simp

@[simp]
theorem notable_memberCode (name : String) : (site.memberCode name).notable = [] := by
  rw [memberCode]
  split
  · split <;> simp
  · simp

@[simp]
theorem notable_calleeCode (name : String) : (site.calleeCode name).notable = [] := by
  rw [calleeCode]
  split <;> simp

end Site

/-! ## Calls -/

/-- The helper that a built-in function calls, if it does. -/
def Builtin.helper? : Builtin → Option String
  | .helper _ name => some name
  | _ => none

/-- Every helper that a built-in function calls has a source. -/
theorem Builtin.find?_helper {builtin : Builtin} (found : Builtin.find? function = some builtin)
    (calls : builtin.helper? = some name) : (Helper.find? name).isSome := by
  have all : ∀ entry ∈ Builtin.table, ∀ helper ∈ entry.2.helper?,
      (Helper.find? helper).isSome := by decide +kernel
  exact all _ (mem_table_of_find? found) name calls

theorem Builtin.find?_flagFunction : Builtin.find? Expr.flagFunction = some .setFlag := by
  decide +kernel

/-- The mark that the dispatcher is called, by a call that sets a flag. -/
def flagMark (function : String) (arguments : List Expr) : List Effect :=
  if function = Expr.flagFunction ∧ arguments ≠ [] then [.dispatcher] else []

section Calls

variable {site : Site} {code : Expr → Emission String}

@[simp]
theorem notable_codes (arguments : List Expr) :
    (codes (argumentsBy code arguments)).notable =
      arguments.flatMap fun argument => (code argument).notable := by
  simp [codes_argumentsBy, List.flatMap_map]

@[simp]
theorem Argument.notable_asVariable (argument : Expr) :
    (Argument.mk argument (code argument)).asVariable.notable =
      argument.asVariable.flatMap fun expr => (code expr).notable := by
  cases argument <;> simp [asVariable, Expr.asVariable]

theorem Argument.notable_asBaddyKind (argument : Expr) :
    (Argument.mk argument (code argument)).asBaddyKind.notable =
      if (Argument.mk argument (pure "")).baddyNumber?.isSome then []
      else (code argument).notable := by
  have number : (Argument.mk argument (code argument)).baddyNumber? =
      (Argument.mk argument (pure "")).baddyNumber? := rfl
  rw [asBaddyKind, number]
  cases (Argument.mk argument (pure "")).baddyNumber? <;> simp

/-- The notable effects of a built-in function are those of the code for the
arguments that it writes, and the mark that the dispatcher is called. -/
theorem Builtin.notable_apply {builtin : Builtin} {arguments : List Expr}
    {emission : Emission String} (found : Builtin.find? function = some builtin)
    (applied : builtin.apply site (argumentsBy code arguments) = some emission) :
    emission.notable =
      ((builtin.written arguments).flatMap fun argument => (code argument).notable) ++
        flagMark function arguments := by
  have unmarked (notFlag : builtin ≠ .setFlag) : flagMark function arguments = [] := by
    refine if_neg ?_
    rintro ⟨rfl, -⟩
    rw [find?_flagFunction] at found
    exact notFlag (Option.some.inj found).symm
  cases builtin with
  | template least text | placement least _ _ text =>
    simp only [apply, length_argumentsBy] at applied
    split at applied
    · obtain rfl := Option.some.inj applied
      simp [written, unmarked]
    · cases applied
  | helper least name =>
    simp only [apply, length_argumentsBy] at applied
    split at applied
    · obtain rfl := Option.some.inj applied
      simp [written, unmarked, Emission.notable_requestHelper (find?_helper found rfl)]
    · cases applied
  | variableTemplate least text =>
    cases arguments with
    | nil => cases applied
    | cons argument others =>
      simp only [apply, argumentsBy_cons, List.length_cons, length_argumentsBy] at applied
      split at applied
      · next accepted =>
        obtain rfl := Option.some.inj applied
        simp [written, accepted, unmarked]
      · cases applied
  | setFlag =>
    cases arguments with
    | nil => cases applied
    | cons argument others =>
      obtain rfl := Option.some.inj applied
      simp [written, flagMark, (name_of_find? found).1]
  | clearFlag | chatTest =>
    cases arguments with
    | nil => cases applied
    | cons argument others =>
      obtain rfl := Option.some.inj applied
      simp [written, unmarked]
  | setProperty owner =>
    rcases arguments with _ | ⟨target, _ | ⟨value, others⟩⟩
    · cases applied
    · cases applied
    · cases target with
      | text property =>
        simp only [apply, argumentsBy_cons, Option.map_eq_some_iff] at applied
        obtain ⟨target, isTarget, rfl⟩ := applied
        simp [written, isTarget, unmarked]
      | _ => cases applied
  | placeBaddy least =>
    rcases arguments with _ | ⟨kind, _ | ⟨x, _ | ⟨y, others⟩⟩⟩
    · cases applied
    · cases applied
    · cases applied
    · simp only [apply, argumentsBy_cons, List.length_cons, length_argumentsBy] at applied
      split at applied
      · next accepted =>
        obtain rfl := Option.some.inj applied
        cases known : (Argument.mk kind (pure "")).baddyNumber?.isSome <;>
          simp [written, accepted, known, unmarked, Argument.notable_asBaddyKind]
      · cases applied

/-- The notable effects of a call are those of the code for the arguments that
it writes, and the mark that the dispatcher is called. -/
theorem Site.notable_callCode {arguments : List Expr} :
    (site.callCode function (argumentsBy code arguments)).notable =
      ((writtenArguments function arguments).flatMap fun argument => (code argument).notable) ++
        flagMark function arguments := by
  unfold callCode
  cases found : Builtin.find? function with
  | none =>
    have notFlag : function ≠ Expr.flagFunction := by
      rintro rfl
      rw [Builtin.find?_flagFunction] at found
      cases found
    simp [writtenArguments, found, flagMark, notFlag]
  | some builtin =>
    rw [writtenArguments_of_find? found, Option.bind_some]
    cases applied : builtin.apply site (argumentsBy code arguments) with
    | some emission => exact Builtin.notable_apply found applied
    | none =>
      have unmarked : ¬(function = Expr.flagFunction ∧ arguments ≠ []) := by
        rintro ⟨rfl, nonempty⟩
        rw [Builtin.find?_flagFunction] at found
        cases Option.some.inj found
        obtain ⟨argument, others, rfl⟩ := List.exists_cons_of_ne_nil nonempty
        cases applied
      simp [Builtin.written_of_declines applied, flagMark, unmarked]

end Calls

/-! ## Expressions -/

/-- The value of a text. -/
def Expr.text? : Expr → Option String
  | text value => some value
  | _ => none

namespace Spot

/-- The mark that the dispatcher is called, at a spot that sets a flag. -/
def mark (spot : Spot) : List Effect :=
  match spot.position, spot.expr with
  | .free, .call function arguments => flagMark function arguments
  | _, _ => []

theorem mem_mark_iff {spot : Spot} {effect : Effect} :
    effect ∈ spot.mark ↔ effect = .dispatcher ∧ spot.SetsFlag := by
  obtain ⟨context, position, expr⟩ := spot
  cases expr with
  | call function arguments =>
    cases position with
    | free =>
      cases arguments with
      | nil => simp [mark, flagMark, SetsFlag]
      | cons first others =>
        by_cases isFlag : function = Expr.flagFunction <;>
          simp [mark, flagMark, SetsFlag, isFlag]
    | member => simp [mark, SetsFlag]
  | _ => cases position <;> simp [mark, SetsFlag]

/-- The notable effects of the code for a spot that is no text are those of the
code for its operands, and the mark that the dispatcher is called. -/
theorem notable_codeWith {text : String → Emission String} {site : Site} {spot : Spot}
    (notText : spot.expr.text? = none) :
    (spot.codeWith text site).notable =
      (spot.operands.flatMap fun part => (part.codeWith text site).notable) ++ spot.mark := by
  obtain ⟨context, position, expr⟩ := spot
  cases expr with
  | number _ => cases position <;> rfl
  | text _ => cases notText
  | name _ => cases position <;> simp [codeWith, renderWith, operands, mark]
  | list items | index target indices =>
    simp [codeWith, renderWith, renderAllWith_eq_map, operands, arguments, List.flatMap_map, mark]
  | range low high => simp [codeWith, renderWith, operands, arguments, mark]
  | grouped inner | unary op operand => simp [codeWith, renderWith, operands, mark]
  | binary op left right =>
    cases op with
    | isIn =>
      cases right with
      | range low high =>
        simp [codeWith, renderWith, operands, Expr.operandsOf, Expr.bounds,
          ExprContext.operands, mark]
      | _ =>
        simp only [codeWith]
        rw [renderWith_isIn (by simp)]
        simp [operands, Expr.operandsOf, Expr.bounds, ExprContext.operands, mark]
    | _ => simp [codeWith, renderWith, operands, Expr.operandsOf, ExprContext.operands, mark]
  | conditional condition whenTrue whenFalse =>
    simp [codeWith, renderWith, operands, arguments, mark]
  | call function items =>
    cases position with
    | free =>
      simp only [codeWith, renderWith, zipWith_renderAllWith, Site.notable_callCode]
      simp [operands, arguments, List.flatMap_map, mark]
    | member =>
      simp [codeWith, renderWith, renderAllWith_eq_map, operands, arguments, List.flatMap_map,
        mark]
  | dotted chain =>
    cases chain with
    | nil => cases position <;> rfl
    | cons head members =>
      simp [codeWith, renderWith, renderAllWith_eq_map, operands, List.flatMap_map, mark]

end Spot

end EventScript
