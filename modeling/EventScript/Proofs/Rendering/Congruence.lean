import EventScript.Proofs.Rendering.Spots

/-!
# What the code for an expression depends on

The code for a spot is determined by the code for its operands, the code for
texts, the options, and what the section says about the flags that the spot
tests and about the dispatcher if the spot calls it.
-/

namespace EventScript

variable {function : String} {builtin : Builtin}

/-! ## Sections -/

/-- The flag of the chat event decides how a section compares what a player
says. -/
theorem Section.chatTest_eq (place : Section) (said : String) :
    place.chatTest said =
      if place.actionTest .chat = "true" then "text == " ++ said
      else if place.actionTest .chat = "false" then "false"
      else "(_actionName == \"" ++ Action.chat.name ++ "\" && text == " ++ said ++ ")" := by
  cases place with
  | event current =>
    unfold chatTest actionTest
    by_cases same : current.name == Action.chat.name <;> simp [same]
  | dispatcher | prologue | create | global =>
    have notTrue : ∀ place ∈ [dispatcher, prologue, create, global],
        place.actionTest .chat ≠ "true" := by decide
    rw [if_neg (notTrue _ (by simp))]
    rfl

theorem Section.chatTest_congr {first second : Section}
    (alike : first.actionTest .chat = second.actionTest .chat) (said : String) :
    first.chatTest said = second.chatTest said := by
  rw [chatTest_eq, chatTest_eq, alike]

/-- Two sections say the same about the flags that a spot tests, and about the
dispatcher if the spot calls it. -/
structure Spot.Alike (first second : Section) (spot : Spot) : Prop where
  tests : ∀ action ∈ spot.tests, first.actionTest action = second.actionTest action
  dispatch : spot.SetsFlag → first.dispatchCall = second.dispatchCall

/-! ## Built-in functions -/

theorem Builtin.mem_table_of_find? (found : Builtin.find? function = some builtin) :
    (function, builtin) ∈ Builtin.table := by
  obtain ⟨_, _, entries, _⟩ := List.lookup_eq_some_iff.mp found
  rw [entries]
  exact List.mem_append_cons_self

/-- The function with a special entry in the table is known by that entry. -/
theorem Builtin.name_of_find? (found : Builtin.find? function = some builtin) :
    (builtin = .setFlag → function = Expr.flagFunction) ∧
      (builtin = .chatTest → function = Expr.chatFunction) := by
  have all : ∀ entry ∈ Builtin.table,
      (entry.2 = .setFlag → entry.1 = Expr.flagFunction) ∧
        (entry.2 = .chatTest → entry.1 = Expr.chatFunction) := by decide +kernel
  exact all _ (mem_table_of_find? found)

/-- Arguments with the code that a function gives for them. -/
def argumentsBy (code : Expr → Emission String) (arguments : List Expr) : List Argument :=
  arguments.map fun argument => ⟨argument, code argument⟩

@[simp]
theorem length_argumentsBy (code : Expr → Emission String) (arguments : List Expr) :
    (argumentsBy code arguments).length = arguments.length :=
  List.length_map _

@[simp]
theorem argumentsBy_cons (code : Expr → Emission String) (first : Expr) (others : List Expr) :
    argumentsBy code (first :: others) = ⟨first, code first⟩ :: argumentsBy code others :=
  rfl

theorem codes_argumentsBy (code : Expr → Emission String) (arguments : List Expr) :
    codes (argumentsBy code arguments) = Emission.sequence (arguments.map code) := by
  simp [codes, argumentsBy, Function.comp_def]

section Calls

variable {options : Options} {first second : Section} {code other : Expr → Emission String}
variable {arguments : List Expr}

theorem codes_congr (same : ∀ argument ∈ arguments, code argument = other argument) :
    codes (argumentsBy code arguments) = codes (argumentsBy other arguments) := by
  rw [codes_argumentsBy, codes_argumentsBy, List.map_congr_left same]

theorem Argument.asVariable_congr {argument : Expr}
    (same : ∀ expr ∈ argument.asVariable, code expr = other expr) :
    (Argument.mk argument (code argument)).asVariable =
      (Argument.mk argument (other argument)).asVariable := by
  cases argument with
  | text _ => rfl
  | _ => exact same _ (.head _)

theorem Argument.asBaddyKind_congr {argument : Expr}
    (same : (Argument.mk argument (pure "")).baddyNumber? = none →
      code argument = other argument) :
    (Argument.mk argument (code argument)).asBaddyKind =
      (Argument.mk argument (other argument)).asBaddyKind := by
  have number (emission : Emission String) : (Argument.mk argument emission).baddyNumber? =
      (Argument.mk argument (pure "")).baddyNumber? := rfl
  rw [asBaddyKind, asBaddyKind, number (code argument), number (other argument)]
  cases known : (Argument.mk argument (pure "")).baddyNumber? with
  | some _ => rfl
  | none => exact same known

/-- A built-in function uses its arguments through the code that it writes. -/
theorem Builtin.apply_congr (chat : builtin = .chatTest → arguments ≠ [] →
      ∀ said, first.chatTest said = second.chatTest said)
    (dispatch : builtin = .setFlag → arguments ≠ [] →
      first.dispatchCall = second.dispatchCall)
    (same : ∀ argument ∈ builtin.written arguments, code argument = other argument) :
    builtin.apply ⟨options, first⟩ (argumentsBy code arguments) =
      builtin.apply ⟨options, second⟩ (argumentsBy other arguments) := by
  cases builtin with
  | template least text | placement least _ _ text | helper least text =>
    have sameCodes : codes (argumentsBy code arguments) = codes (argumentsBy other arguments) :=
      codes_congr same
    simp only [apply, length_argumentsBy, sameCodes]
  | variableTemplate least text =>
    cases arguments with
    | nil => rfl
    | cons argument others =>
      rw [written, List.length_cons] at same
      simp only [apply, argumentsBy_cons, List.length_cons, length_argumentsBy]
      split
      · next accepted =>
        rw [if_pos accepted, List.forall_mem_append] at same
        rw [Argument.asVariable_congr same.1, codes_congr same.2]
      · rfl
  | setFlag =>
    cases arguments with
    | nil => rfl
    | cons argument others =>
      simp only [apply, argumentsBy_cons, Argument.asVariable_congr same, flagCode,
        dispatch rfl (by simp)]
  | clearFlag =>
    cases arguments with
    | nil => rfl
    | cons argument others =>
      simp only [apply, argumentsBy_cons, Argument.asVariable_congr same]
  | setProperty owner =>
    rcases arguments with _ | ⟨target, _ | ⟨value, others⟩⟩
    · rfl
    · rfl
    · cases target with
      | text property =>
        rw [written] at same
        simp only [apply, argumentsBy_cons]
        cases found : propertyTarget? property owner with
        | none => rfl
        | some target => rw [same value (by simp [found])]
      | _ => rfl
  | chatTest =>
    cases arguments with
    | nil => rfl
    | cons argument others =>
      simp only [apply, argumentsBy_cons, same argument (.head _), chat rfl (by simp)]
  | placeBaddy least =>
    rcases arguments with _ | ⟨kind, _ | ⟨x, _ | ⟨y, others⟩⟩⟩
    · rfl
    · rfl
    · rfl
    · rw [written, List.forall_mem_append] at same
      have sameKind := Argument.asBaddyKind_congr fun unknown =>
        same.1 kind (by simp [unknown])
      have sameOthers := codes_congr fun argument member =>
        same.2 argument (.tail _ (.tail _ member))
      simp only [apply, argumentsBy_cons, List.length_cons, length_argumentsBy, sameKind,
        same.2 x (.head _), same.2 y (.tail _ (.head _)), sameOthers]

/-- A function that declines leaves all arguments to be written. -/
theorem Builtin.written_of_declines {site : Site}
    (declines : builtin.apply site (argumentsBy code arguments) = none) :
    builtin.written arguments = arguments := by
  cases builtin with
  | template | placement | helper => rfl
  | variableTemplate least text =>
    cases arguments with
    | nil => rfl
    | cons argument others =>
      simp only [apply, argumentsBy_cons, List.length_cons, length_argumentsBy] at declines
      split at declines
      · cases declines
      · next tooFew =>
        rw [written, List.length_cons, if_neg tooFew]
        rfl
  | setFlag | clearFlag | chatTest =>
    cases arguments with
    | nil => rfl
    | cons argument others => cases declines
  | setProperty owner =>
    rcases arguments with _ | ⟨target, _ | ⟨value, others⟩⟩
    · rfl
    · cases target <;> rfl
    · cases target with
      | text property =>
        simp only [apply, argumentsBy_cons, Option.map_eq_none_iff] at declines
        rw [written, declines]
        rfl
      | _ => rfl
  | placeBaddy least =>
    rcases arguments with _ | ⟨kind, _ | ⟨x, _ | ⟨y, others⟩⟩⟩
    · rfl
    · rfl
    · rfl
    · simp only [apply, argumentsBy_cons, List.length_cons, length_argumentsBy] at declines
      split at declines
      · cases declines
      · next tooFew =>
        simp only [written, List.length_cons]
        rw [if_neg fun accepted => tooFew accepted.1]
        rfl

theorem writtenArguments_of_find? (found : Builtin.find? function = some builtin)
    (arguments : List Expr) : writtenArguments function arguments = builtin.written arguments := by
  rw [writtenArguments, found]

/-- A call uses its arguments through the code that it writes. -/
theorem Site.callCode_congr (chat : function = Expr.chatFunction → arguments ≠ [] →
      ∀ said, first.chatTest said = second.chatTest said)
    (dispatch : function = Expr.flagFunction → arguments ≠ [] →
      first.dispatchCall = second.dispatchCall)
    (same : ∀ argument ∈ writtenArguments function arguments, code argument = other argument) :
    Site.callCode ⟨options, first⟩ function (argumentsBy code arguments) =
      Site.callCode ⟨options, second⟩ function (argumentsBy other arguments) := by
  unfold callCode
  cases found : Builtin.find? function with
  | none =>
    rw [writtenArguments, found] at same
    simp only [Option.bind_none, calleeCode, substitute, codes_congr same]
  | some builtin =>
    rw [writtenArguments_of_find? found] at same
    obtain ⟨isSet, isChat⟩ := Builtin.name_of_find? found
    have sameApply : builtin.apply ⟨options, first⟩ (argumentsBy code arguments) =
        builtin.apply ⟨options, second⟩ (argumentsBy other arguments) :=
      Builtin.apply_congr (fun entry => chat (isChat entry))
        (fun entry => dispatch (isSet entry)) same
    simp only [Option.bind_some, sameApply]
    split
    · rfl
    · next declines =>
      rw [Builtin.written_of_declines declines] at same
      simp only [calleeCode, substitute, codes_congr same]

end Calls

/-! ## Expressions -/

section Expressions

variable {options : Options} {first second : Section} {text other : String → Emission String}
variable {context : ExprContext}

theorem Site.nameCode_congr {name : String}
    (alike : ∀ action ∈ Spot.tests ⟨context, .free, .name name⟩,
      first.actionTest action = second.actionTest action) :
    Site.nameCode ⟨options, first⟩ context name = Site.nameCode ⟨options, second⟩ context name := by
  have flag : ∀ action, (if context.inRegion then Action.find? name else none) = some action →
      first.actionTest action = second.actionTest action := by
    intro action found
    refine alike action ?_
    by_cases inRegion : context.inRegion <;> simp_all [Spot.tests]
  simp only [nameCode, substitute]
  generalize (if context.inRegion then Action.find? name else none) = found at flag
  cases found with
  | some action => simp only [flag action rfl]
  | none => rfl

/-- The arguments of a call with the code for them. -/
theorem zipWith_renderAllWith (text : String → Emission String) (site : Site)
    (context : ExprContext) (position : Position) (arguments : List Expr) :
    List.zipWith Argument.mk arguments (renderAllWith text site context position arguments) =
      argumentsBy (renderWith text site context position) arguments := by
  rw [renderAllWith_eq_map, List.zipWith_map_right, List.zipWith_self]
  rfl

theorem renderAllWith_congr {position : Position} {items : List Expr}
    (same : ∀ part ∈ items.map fun item => Spot.mk context position item,
      part.codeWith text ⟨options, first⟩ = part.codeWith other ⟨options, second⟩) :
    renderAllWith text ⟨options, first⟩ context position items =
      renderAllWith other ⟨options, second⟩ context position items := by
  rw [List.forall_mem_map] at same
  rw [renderAllWith_eq_map, renderAllWith_eq_map]
  exact List.map_congr_left same

/-- A test for membership in a collection that is no range. -/
theorem renderWith_isIn {site : Site} {position : Position} {left right : Expr}
    (noRange : ∀ low high, right ≠ .range low high) :
    renderWith text site context position (.binary .isIn left right) = do
      let value ← renderWith text site context.arguments .free left
      let collection ← renderWith text site context.arguments .free right
      return collection ++ ".find(" ++ value ++ ") !== null" := by
  rw [renderWith]
  exact noRange

/-- The code for a spot under two codes for texts and in two sections is the
same if the code for its operands is. -/
theorem Spot.codeWith_congr {spot : Spot} (alike : spot.Alike first second)
    (texts : ∀ value, spot.expr = .text value → text value = other value)
    (same : ∀ part ∈ spot.operands,
      part.codeWith text ⟨options, first⟩ = part.codeWith other ⟨options, second⟩) :
    spot.codeWith text ⟨options, first⟩ = spot.codeWith other ⟨options, second⟩ := by
  obtain ⟨context, position, expr⟩ := spot
  unfold codeWith at same ⊢
  dsimp only at same ⊢
  cases expr with
  | number spelling => simp only [renderWith]
  | text value => simpa only [renderWith] using texts value rfl
  | name spelling =>
    cases position with
    | free =>
      simp only [renderWith]
      exact Site.nameCode_congr alike.tests
    | member => simp only [renderWith, Site.memberCode, Site.substitute]
  | list items =>
    have sameItems := renderAllWith_congr same
    simp only [renderWith, sameItems]
  | range low high =>
    simp only [renderWith, same ⟨_, _, low⟩ (.head _), same ⟨_, _, high⟩ (.tail _ (.head _))]
  | grouped inner => simp only [renderWith, same ⟨_, _, inner⟩ (.head _)]
  | unary op operand => simp only [renderWith, same ⟨_, _, operand⟩ (.head _)]
  | binary op left right =>
    have sameLeft := same ⟨_, _, left⟩ (.head _)
    cases op with
    | isIn =>
      cases right with
      | range low high =>
        have sameLow := same ⟨context.arguments, .free, low⟩ (.tail _ (.head _))
        have sameHigh := same ⟨context.arguments, .free, high⟩
          (.tail _ (.tail _ (.head _)))
        dsimp only [ExprContext.operands] at sameLeft
        simp only [renderWith, sameLeft, sameLow, sameHigh]
      | _ =>
        have sameRight := same ⟨context.arguments, .free, _⟩ (.tail _ (.head _))
        dsimp only [ExprContext.operands] at sameLeft sameRight
        rw [renderWith_isIn (by simp), renderWith_isIn (by simp), sameLeft, sameRight]
    | _ =>
      have sameRight := same ⟨_, _, right⟩ (.tail _ (.head _))
      dsimp only [ExprContext.operands] at sameLeft sameRight
      simp only [renderWith, sameLeft, sameRight]
  | conditional condition whenTrue whenFalse =>
    simp only [renderWith, same ⟨_, _, condition⟩ (.head _),
      same ⟨_, _, whenTrue⟩ (.tail _ (.head _)),
      same ⟨_, _, whenFalse⟩ (.tail _ (.tail _ (.head _)))]
  | call function arguments =>
    cases position with
    | free =>
      simp only [renderWith, zipWith_renderAllWith]
      refine Site.callCode_congr ?_ ?_ (List.forall_mem_map.mp same)
      · rintro rfl nonempty
        obtain ⟨argument, others, rfl⟩ := List.exists_cons_of_ne_nil nonempty
        exact Section.chatTest_congr (alike.tests .chat (.head _))
      · rintro rfl nonempty
        obtain ⟨argument, others, rfl⟩ := List.exists_cons_of_ne_nil nonempty
        exact alike.dispatch ⟨rfl, argument, others, rfl⟩
    | member =>
      have sameArguments := renderAllWith_congr same
      simp only [renderWith, sameArguments]
  | index target indices =>
    rw [Spot.operands, List.forall_mem_cons] at same
    have sameIndices := renderAllWith_congr same.2
    simp only [renderWith, same.1, sameIndices]
  | dotted segments =>
    cases segments with
    | nil => simp only [renderWith]
    | cons head members =>
      rw [Spot.operands, List.forall_mem_cons] at same
      have sameMembers := renderAllWith_congr same.2
      simp only [renderWith, same.1, sameMembers]

end Expressions

end EventScript
