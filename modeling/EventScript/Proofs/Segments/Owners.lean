import EventScript.Proofs.Segments.Pieces

/-!
# Owners of properties

A code for a property may name the owner of the property in its argument.  The
argument is any balanced text, and what it addresses is decided by its characters:
`SelectsOwner` says how, without the blanks around it.  A text of digits is a
number of a player; since the empty text holds no other characters, it counts as
one too, and the list of players is then indexed with nothing.
-/

namespace EventScript

variable {letter : Char} {slot : Option String}

/-- A number: digits and nothing else, at least one. -/
structure IsNumber (text : String) : Prop where
  nonempty : text ≠ ""
  digits : ∀ character ∈ text.toList, character.isDigit = true

/-- Text that neither is a number nor one of the two other owners that are known
in advance. -/
structure IsOther (text : String) : Prop where
  nonempty : text ≠ ""
  notSelf : text ≠ "-1"
  notNumber : ¬IsNumber text

/-- The code for the owner that a text addresses, with the effects of generating
it. -/
structure SelectsOwner (site : Site) (text : String) (owner : Emission String) : Prop where
  self : text = "-1" → owner = ⟨"this", []⟩
  player : text = "0" → owner = ⟨"player", []⟩
  listed : IsNumber text → text ≠ "0" → owner = ⟨site.options.players ++ "[" ++ text ++ "]", []⟩
  /-- Without a number the list of players is indexed with nothing. -/
  unnumbered : text = "" → owner = ⟨site.options.players ++ "[]", []⟩
  /-- Any other expression is found out by the helper. -/
  computed : IsOther text → ∀ expr, Expr.parse text = .ok expr →
    owner = ⟨"this._propOwner(" ++ (render site {} expr).value ++ ", player)",
      .helper "_propOwner" :: (render site {} expr).effects⟩
  /-- Text that cannot be read is kept, with one remark. -/
  kept : IsOther text → ∀ error, Expr.parse text = .error error →
    owner = ⟨"this._propOwner(" ++ text ++ ", player)",
      [.helper "_propOwner", .report error.line (.embedded error)]⟩

theorem all_isDigit_iff {text : String} :
    text.toList.all Char.isDigit = true ↔ text = "" ∨ IsNumber text := by
  rw [List.all_eq_true]
  constructor
  · intro digits
    by_cases isEmpty : text = ""
    · exact .inl isEmpty
    · exact .inr ⟨isEmpty, digits⟩
  · rintro (rfl | isNumber)
    · simp
    · exact isNumber.digits

/-- The owner of an argument, decided by its text without the blanks around
it. -/
theorem ownerCode_some (site : Site) (embedded : String → Emission String) (argument : String) :
    ownerCode site embedded (some argument) =
      if Text.trim argument = "-1" then pure "this"
      else if Text.trim argument = "0" then pure "player"
      else if (Text.trim argument).toList.all Char.isDigit then
        pure (site.options.players ++ "[" ++ Text.trim argument ++ "]")
      else do
        Emission.requestHelper "_propOwner"
        return "this._propOwner(" ++ (← embedded (Text.trim argument)) ++ ", player)" := by
  rw [ownerCode, Option.map_some]
  split
  · next none => cases none
  · next isSelf => rw [if_pos (Option.some.inj isSelf)]
  · next notSelf isPlayer =>
    obtain isPlayer := Option.some.inj isPlayer
    rw [isPlayer, if_neg (by decide), if_pos rfl]
  · next owner notSelf notPlayer isOwner =>
    obtain rfl := Option.some.inj isOwner
    rw [if_neg notSelf, if_neg notPlayer]

/-- The owner that is rendered is the one that the argument selects. -/
theorem selectsOwner_ownerCode (site : Site) (argument : String) :
    SelectsOwner site (Text.trim argument)
      (ownerCode site (embeddedCode (render site {})) (some argument)) := by
  rw [ownerCode_some]
  generalize Text.trim argument = text
  have notDigits (isOther : IsOther text) : ¬text.toList.all Char.isDigit = true := by
    rw [all_isDigit_iff, not_or]
    exact ⟨isOther.nonempty, isOther.notNumber⟩
  have notPlayer (isOther : IsOther text) : text ≠ "0" := by
    rintro rfl
    exact notDigits isOther rfl
  constructor
  case self => exact fun isSelf => if_pos isSelf
  case player =>
    rintro rfl
    rw [if_neg (by decide), if_pos rfl]
    rfl
  case listed =>
    intro isNumber notPlayer
    have digits := all_isDigit_iff.mpr (.inr isNumber)
    have notSelf : text ≠ "-1" := by
      rintro rfl
      exact absurd digits (by decide)
    rw [if_neg notSelf, if_neg notPlayer, if_pos digits]
    rfl
  case unnumbered =>
    rintro rfl
    rw [if_neg (by decide), if_neg (by decide), if_pos (by decide), String.append_empty,
      String.append_assoc]
    rfl
  case computed =>
    intro isOther expr parsed
    rw [if_neg isOther.notSelf, if_neg (notPlayer isOther), if_neg (notDigits isOther),
      embeddedCode, parsed]
    change Emission.mk _ ([.helper "_propOwner"] ++ ((render site {} expr).effects ++ [])) = _
    rw [List.append_nil]
    rfl
  case kept =>
    intro isOther error failed
    rw [if_neg isOther.notSelf, if_neg (notPlayer isOther), if_neg (notDigits isOther),
      embeddedCode, failed]
    rfl

/-! ## Reading codes with an argument -/

namespace Segment

/-- A code with an argument is read where it stands, whatever follows it. -/
theorem readCode_of_argument {argument : String} (isCode : IsCode letter slot (some argument))
    (behind : List Char) :
    readCode (letter :: ((slot.getD "").toList ++ (parenthesised argument ++ behind))) =
      some (code letter slot (some argument), behind) := by
  have read : readArgument (parenthesised argument ++ behind) = some (argument, behind) :=
    readArgument_eq_some_iff.mpr ⟨rfl, isCode.balanced argument rfl⟩
  have readOptional : readOptionalArgument (parenthesised argument ++ behind) =
      (some argument, behind) := by
    rw [readOptionalArgument, read]
  cases isCode.form with
  | @slotted slot _ takesSlot isSlot =>
    obtain ⟨more, left, split, digits, readSlot⟩ :=
      exists_readSlot isSlot (parenthesised argument ++ behind)
    -- the parenthesis is no digit of the slot
    obtain rfl : more = [] := by
      cases more with
      | nil => rfl
      | cons first others =>
        obtain ⟨rfl, -⟩ := List.cons.inj split
        exact absurd (digits _ List.mem_cons_self) (by decide)
    rw [List.nil_append] at split
    subst split
    rw [readCode, if_pos (by simpa using takesSlot), Option.getD_some, readSlot]
    simp [readOptional]
  | expression needs =>
    rw [readCode, takesNoSlot_of_mem_expressionCodes letter needs]
    simp [needs, read]
  | owner takes =>
    obtain ⟨noSlot, noExpression⟩ := needsNothing_of_mem_ownerCodes letter takes
    rw [readCode, noSlot, noExpression]
    simp [takes, readOptional]

end Segment

/-- A code with an argument is one segment. -/
theorem segments_source_of_argument {argument : String}
    (isCode : Segment.IsCode letter slot (some argument)) :
    segments (Segment.code letter slot (some argument)).source =
      [.code letter slot (some argument)] := by
  have spelled := Segment.source_code letter slot (some argument)
  have read := Segment.readCode_of_argument isCode []
  rw [List.append_nil] at read
  rw [Segment.argumentText, Option.elim_some] at spelled
  rw [segments, spelled, List.length_cons, Segment.readUpTo, Segment.read, read, Option.getD_some]
  · simp [Segment.readUpTo]
  · exact fun rest begins => isCode.form.letter_ne_mark (List.cons.inj begins).1

/-! ## Owners in texts -/

/-- The operands that segments of a text contribute to its code. -/
def operands (site : Site) (parts : List Segment) : Emission (List String) :=
  concatenation (propertyCodeBy site (Spot.code site)) "" parts

theorem concatenation_append_code
    {code : Char → Option String → Option String → Emission (Option String)}
    {argument : Option String} {rendered : Emission String}
    (renders : code letter slot argument = some <$> rendered) (literal : String)
    (front back : List Segment) :
    concatenation code literal (front ++ .code letter slot argument :: back) = do
      let before ← concatenation code literal front
      let operand ← rendered
      let behind ← concatenation code "" back
      return before ++ operand :: behind := by
  induction front generalizing literal with
  | nil =>
    simp [concatenation, renders]
  | cons first front ih =>
    cases first with
    | text content => exact ih _
    | code letter slot argument =>
      simp only [List.cons_append, concatenation, ih]
      rw [bind_assoc]
      congr 1
      funext found
      cases found <;> simp

/-- Every code for a property of an owner names the property. -/
theorem exists_slotProperty {argument : Option String} (form : Segment.Form letter slot argument)
    (noExpression : letter ∉ expressionCodes) (notWeapon : letter ≠ 'w') :
    ∃ property, slotProperty? letter slot = some property := by
  cases form with
  | slotted takesSlot =>
    rcases takesSlot with rfl | rfl
    · exact ⟨_, rfl⟩
    · exact ⟨_, rfl⟩
  | expression needs => exact absurd needs noExpression
  | owner takes =>
    have named : ∀ letter ∈ ownerCodes, letter ≠ 'w' →
        ∃ property, slotProperty? letter none = some property := by
      simp [ownerCodes, slotProperty?, propertyName?]
    exact named letter takes notWeapon

/-- The code for a property of an owner. -/
theorem propertyCode_of_slotProperty {property : String}
    (found : slotProperty? letter slot = some property) (noExpression : letter ∉ expressionCodes)
    (notWeapon : letter ≠ 'w') (site : Site) (embedded whole : String → Emission String)
    (argument : Option String) :
    propertyCode site embedded whole letter slot argument =
      some <$> (fun owner => owner ++ "." ++ property) <$> ownerCode site embedded argument := by
  unfold propertyCode
  split
  · exact absurd (by decide) noExpression
  · exact absurd (by decide) noExpression
  · exact absurd (by decide) noExpression
  · exact absurd (by decide) noExpression
  · exact absurd rfl notWeapon
  · simp [found]

/-- A code for a property of an owner becomes that property of the owner that its
argument selects, wherever it stands in a text. -/
theorem expand_property_of_owner {letter : Char} {slot : Option String} {argument : String}
    (isCode : Segment.IsCode letter slot (some argument)) (noExpression : letter ∉ expressionCodes)
    (notWeapon : letter ≠ 'w') (site : Site) :
    ∃ property owner, slotProperty? letter slot = some property ∧
      SelectsOwner site (Text.trim argument) owner ∧
      expand site (Segment.code letter slot (some argument)).source =
        (fun object => object ++ "." ++ property) <$> owner ∧
      ∀ content front back,
        segments content = front ++ .code letter slot (some argument) :: back →
          expand site content = do
            let before ← operands site front
            let object ← owner
            let behind ← operands site back
            return joinConcatenation (before ++ (object ++ "." ++ property) :: behind) := by
  obtain ⟨property, found⟩ := exists_slotProperty isCode.form noExpression notWeapon
  have inText (content : String) (front back : List Segment)
      (split : segments content = front ++ .code letter slot (some argument) :: back) :
      expand site content = do
        let before ← operands site front
        let object ← ownerCode site (embeddedCode (render site {})) (some argument)
        let behind ← operands site back
        return joinConcatenation (before ++ (object ++ "." ++ property) :: behind) := by
    have renders : propertyCodeBy site (Spot.code site) letter slot (some argument) =
        some <$> (fun object => object ++ "." ++ property) <$>
          ownerCode site (embeddedCode (render site {})) (some argument) :=
      propertyCode_of_slotProperty found noExpression notWeapon site _ _ _
    rw [expand_eq_expandBy, expandBy, split, concatenation_append_code renders]
    simp [operands]
  refine ⟨property, _, found, selectsOwner_ownerCode site argument, ?_, inText⟩
  rw [inText _ [] [] (segments_source_of_argument isCode)]
  simp [operands, concatenation, literalPart, joinConcatenation]

/-- A slot of two digits, and a number with blanks around it and zeros in front, in
the list of all players. -/
theorem expand_property_of_owner_leading_zeros :
    (Segment.IsCode 'P' (some "12") (some " 007 ") ∧ 'P' ∉ expressionCodes ∧ 'P' ≠ 'w') ∧
      expand ⟨{ playerList := .server }, .global⟩ "#P12( 007 )" =
        ⟨"players[007].attr[12]", []⟩ := by
  have isCode : Segment.IsCode 'P' (some "12") (some " 007 ") := by
    refine ⟨.slotted (.inr rfl) ⟨by decide, by decide, List.all_eq_true.mp rfl⟩, ?_⟩
    rintro _ ⟨⟩
    have read : Segment.readArgument "( 007 )".toList = some (" 007 ", []) := by decide
    exact (Segment.readArgument_eq_some_iff.mp read).2
  obtain ⟨property, owner, found, selects, expanded, -⟩ := expand_property_of_owner isCode
    (by decide) (by decide) ⟨{ playerList := .server }, .global⟩
  obtain rfl := Option.some.inj found
  have isNumber : IsNumber (Text.trim " 007 ") := ⟨by decide, List.all_eq_true.mp rfl⟩
  refine ⟨⟨isCode, by decide, by decide⟩, ?_⟩
  rw [selects.listed isNumber (by decide)] at expanded
  exact expanded

/-- Without a number the list of players is indexed with nothing, and the helper
that finds out the owner is not called. -/
theorem empty_owner_indexes_nothing :
    Segment.IsCode 'n' none (some "") ∧ ¬IsNumber (Text.trim "") ∧
      expand ⟨{}, .global⟩ "#n()" = ⟨"this.level.players[].nick", []⟩ ∧
      expand ⟨{ playerList := .server }, .global⟩ "#n()" = ⟨"players[].nick", []⟩ ∧
      ¬∃ translation, (expand ⟨{}, .global⟩ "#n()").value =
        "this._propOwner(" ++ translation ++ ", player).nick" := by
  have expanded : expand ⟨{}, .global⟩ "#n()" = ⟨"this.level.players[].nick", []⟩ := by
    decide +kernel
  refine ⟨⟨.owner (by decide), ?_⟩, fun isNumber => isNumber.nonempty rfl, expanded,
    by decide +kernel, ?_⟩
  · rintro _ ⟨⟩
    exact .done
  · rintro ⟨translation, same⟩
    rw [expanded] at same
    have sixth := congrArg (fun text => text.toList[5]?) same
    simp at sixth

end EventScript
