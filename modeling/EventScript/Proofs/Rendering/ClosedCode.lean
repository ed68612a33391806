import EventScript.Proofs.Rendering.ClosedLayouts

/-!
# Generated code is closed

Two kinds of text are written into generated code as they stand: the source in
a property code that cannot be read, and the name of a variable that is given
as a text.  Where every source can be read and every such name is closed, the
code for an expression is closed, and so brackets nest in what stands around
each of its parts.
-/

namespace EventScript

variable {source : String} {part : Spot}

/-! ## Texts -/

/-- The source by which a property code addresses its owner, if the owner is
found out when the code runs. -/
def ownerSource (argument : Option String) : List String :=
  match argument.map Text.trim with
  | none => []
  | some "-1" => []
  | some "0" => []
  | some owner => if owner.toList.all Char.isDigit then [] else [owner]

/-- The sources of the expressions inside one segment of a property string. -/
def Segment.sources : Segment → List String
  | text _ => []
  | code letter slot argument =>
    match letter, argument with
    | 'v', some source => [source]
    | 's', some source => [source]
    | 't', some source => [source]
    | 'e', some source =>
      match argumentParts source with
      | [start, length, _] => [start, length]
      | _ => []
    | 'w', _ =>
      match argument.map Text.trim with
      | none => []
      | some "-1" => []
      | some weapon => [weapon]
    | _, _ => if (slotProperty? letter slot).isSome then ownerSource argument else []

theorem closed_intercalate {mark : String} (closedMark : Closed mark) {parts : List String}
    (closed : ∀ part ∈ parts, Closed part) : Closed (mark.intercalate parts) := by
  induction parts with
  | nil => exact (by decide : Closed "")
  | cons first rest ih =>
    rw [List.forall_mem_cons] at closed
    cases rest with
    | nil =>
      rw [String.intercalate_singleton]
      exact closed.1
    | cons second others =>
      rw [String.intercalate_cons_cons]
      exact (closed.1.append closedMark).append (ih closed.2)

section Texts

variable {site : Site} {code : Spot → Emission String}

theorem closed_embeddedCode (read : ∃ expr, Expr.parse source = .ok expr)
    (closed : ∀ part ∈ Spot.ofSource source, Closed (code part).value) :
    Closed (embeddedCode (fun expr => code ⟨{}, .free, expr⟩) source).value := by
  obtain ⟨expr, parsed⟩ := read
  rw [embeddedCode, parsed]
  refine closed _ ?_
  rw [Spot.ofSource, parsed]
  exact .head _

theorem mem_ofOwner_of_mem_ownerSource {argument : Option String}
    (inside : source ∈ ownerSource argument) (isPart : part ∈ Spot.ofSource source) :
    part ∈ Spot.ofOwner argument := by
  unfold ownerSource at inside
  unfold Spot.ofOwner
  split at inside
  · cases inside
  · cases inside
  · cases inside
  · next owner notSelf notPlayer trimmed =>
    split at inside
    · cases inside
    · next notNumber =>
      cases List.mem_singleton.mp inside
      simpa [trimmed, notNumber] using isPart

theorem Segment.mem_spots_of_mem_sources {segment : Segment} (inside : source ∈ segment.sources)
    (isPart : part ∈ Spot.ofSource source) : part ∈ segment.spots := by
  unfold sources at inside
  split at inside
  · cases inside
  · split at inside
    · cases List.mem_singleton.mp inside
      exact isPart
    · cases List.mem_singleton.mp inside
      exact isPart
    · cases List.mem_singleton.mp inside
      exact isPart
    · split at inside
      · next start length content parts =>
        have isEither : source = start ∨ source = length := by simpa using inside
        simp only [spots, parts, List.mem_append]
        rcases isEither with rfl | rfl
        · exact .inl (.inl isPart)
        · exact .inl (.inr isPart)
      · cases inside
    · split at inside
      · cases inside
      · cases inside
      · next weapon notCurrent trimmed =>
        cases List.mem_singleton.mp inside
        simpa [spots, trimmed] using isPart
    · split at inside
      · next found =>
        simpa [spots, found] using mem_ofOwner_of_mem_ownerSource inside isPart
      · cases inside

theorem closed_ownerCode {embedded : String → Emission String} {argument : Option String}
    (closed : ∀ source ∈ ownerSource argument, Closed (embedded source).value) :
    Closed (ownerCode site embedded argument).value := by
  unfold ownerSource at closed
  unfold ownerCode
  split
  · exact (by decide : Closed "this")
  · exact (by decide : Closed "this")
  · exact (by decide : Closed "player")
  · next owner notSelf notPlayer trimmed =>
    split
    · next isNumber =>
      have closedPlayers : Closed site.options.players := by
        rw [Options.players]
        cases site.options.playerList <;> decide
      have closedOwner : Closed owner := closed_of_isPlain fun character inside =>
        CodeState.isPlain_of_isNameChar
          ((isNameChar_iff character).mpr (.inr (List.all_eq_true.mp isNumber character inside)))
      refine closedOwner.between 1 ?_ (by decide)
      rw [String.toList_append, CodeState.run_append, closedPlayers]
      rfl
    · next notNumber =>
      have closedSource := closed owner (by simp [trimmed, notNumber])
      exact closedSource.between 1 (by decide) (by decide)

theorem closed_propertyCode {embedded whole : String → Emission String} {content : String}
    {letter : Char} {slot argument : Option String} {rendered : String}
    (among : .code letter slot argument ∈ segments content)
    (closed : ∀ source ∈ (Segment.code letter slot argument).sources,
      Closed (embedded source).value)
    (closedWhole : ∀ source start length text, letter = 'e' → argument = some source →
      argumentParts source = [start, length, text] → Closed (whole text).value)
    (isRendered : (propertyCode site embedded whole letter slot argument).value = some rendered) :
    Closed rendered := by
  unfold propertyCode at isRendered
  split at isRendered
  · next source =>
    cases isRendered
    exact (closed source (.head _)).between 1 (by decide) (by decide)
  · next source =>
    cases isRendered
    exact (closed source (.head _)).between 1 (by decide) (by decide)
  · next source =>
    cases isRendered
    exact (closed source (.head _)).between 1 (by decide) (by decide)
  · next source =>
    split at isRendered
    · next start length content parts =>
      cases isRendered
      have comma : Closed ", " := by decide
      have closedStart := closed start (by simp [Segment.sources, parts])
      have closedLength := closed length (by simp [Segment.sources, parts])
      have closedContent := closedWhole source start length content rfl rfl parts
      have inside := (((closedContent.append comma).append closedStart).append comma).append
        closedLength
      have split : "substring(" ++ (whole content).value ++ ", " ++ (embedded start).value ++ ", " ++
          (embedded length).value ++ ")" =
          "substring(" ++ ((whole content).value ++ ", " ++ (embedded start).value ++ ", " ++
            (embedded length).value) ++ ")" := by
        simp only [String.append_assoc]
      change Closed ("substring(" ++ (whole content).value ++ ", " ++ (embedded start).value ++
        ", " ++ (embedded length).value ++ ")")
      rw [split]
      exact inside.between 1 (by decide) (by decide)
    · cases isRendered
  · split at isRendered
    · cases isRendered
      decide
    · cases isRendered
      decide
    · next weapon notCurrent trimmed =>
      cases isRendered
      have closedWeapon := closed weapon (by simp [Segment.sources, trimmed])
      exact closedWeapon.between 1 (by decide) (by decide)
  · split at isRendered
    · next property found =>
      cases isRendered
      have closedOwner := @closed_ownerCode site embedded argument fun source inside =>
        closed source (by simpa [Segment.sources, found] using inside)
      exact (closedOwner.append (by decide)).append (closed_of_slotProperty? among found)
    · cases isRendered

theorem closed_joinConcatenation {parts : List String} (closed : ∀ part ∈ parts, Closed part) :
    Closed (joinConcatenation parts) := by
  rw [joinConcatenation]
  split
  · exact closed_quote ""
  · exact closed_intercalate (by decide) closed

/-- A text whose sources can be read is written as closed code if the
expressions inside it are. -/
theorem closed_expandBy {content : String}
    (read : ∀ segment ∈ segments content, ∀ source ∈ segment.sources,
      ∃ expr, Expr.parse source = .ok expr)
    (closed : ∀ part ∈ (segments content).flatMap Segment.spots, Closed (code part).value) :
    Closed (expandBy site code content).value := by
  refine closed_joinConcatenation (forall_mem_concatenation closed_quote ?_ "")
  intro letter slot argument among rendered isRendered
  have closedSpot {part : Spot} (inside : part ∈ (Segment.code letter slot argument).spots) :
      Closed (code part).value :=
    closed part (List.mem_flatMap.mpr ⟨_, among, inside⟩)
  refine closed_propertyCode among ?_ ?_ isRendered
  · intro source inside
    exact closed_embeddedCode (read _ among source inside) fun part isPart =>
      closedSpot (Segment.mem_spots_of_mem_sources inside isPart)
  · rintro source start length text rfl rfl parts
    exact closedSpot (by simp [Segment.spots, parts])

end Texts

/-! ## Expressions -/

namespace Spot

variable {spot : Spot}

/-- What is written as it stands at a spot does no harm: the sources in a text
can be read, and the names of variables are closed. -/
structure Legible (spot : Spot) : Prop where
  sources : ∀ value, spot.expr = .text value → ∀ segment ∈ segments value,
    ∀ source ∈ segment.sources, ∃ expr, Expr.parse source = .ok expr
  names : ∀ name ∈ spot.names, Closed (Text.trim name)

variable {site : Site}

theorem sound_of_mem_ofSource (inside : part ∈ ofSource source) : part.Sound := by
  rw [ofSource] at inside
  split at inside
  · next expr parsed =>
    cases List.mem_singleton.mp inside
    exact .free (Expr.shaped_of_parse parsed)
  · cases inside

theorem sound_of_mem_spots {segment : Segment} (inside : part ∈ segment.spots) : part.Sound := by
  rw [Segment.spots_eq, List.mem_flatMap] at inside
  obtain ⟨embedding, -, isPart⟩ := inside
  cases embedding with
  | expression source => exact sound_of_mem_ofSource isPart
  | text content =>
    cases List.mem_singleton.mp isPart
    exact .free (.text content)

/-- The parts of a tree of the grammar are such trees. -/
theorem Sound.of_mem_parts (sound : spot.Sound) (member : part ∈ spot.parts) : part.Sound := by
  rcases List.mem_append.mp member with isOperand | isEmbedded
  · exact (sound.of_mem_operands isOperand).1
  · rw [embedded] at isEmbedded
    split at isEmbedded
    · obtain ⟨segment, -, inside⟩ := List.mem_flatMap.mp isEmbedded
      exact sound_of_mem_spots inside
    · cases isEmbedded

theorem exists_call_of_mem_names {name : String} (isName : name ∈ spot.names) :
    ∃ function arguments, spot.expr = .call function arguments ∧ .text name ∈ arguments := by
  unfold names at isName
  split at isName
  · next function arguments _ isCall =>
    refine ⟨function, arguments, isCall, ?_⟩
    cases found : Builtin.find? function with
    | none =>
      rw [found] at isName
      cases isName
    | some builtin =>
      rw [found, Option.map_some, Option.getD_some] at isName
      exact Builtin.mem_of_mem_names isName
  · cases isName

/-- Where an expression has no texts, nothing is written as it stands. -/
theorem legible_of_no_text (noText : ∀ value, .text value ∉ spot.expr.subterms) {reached : Spot}
    (reaches : spot.Reaches reached) : reached.Legible := by
  have inside : reached.expr ∈ spot.expr.subterms := by
    induction reaches with
    | refl => exact Expr.self_mem_subterms _
    | @tail middle part _ isPart ih =>
      rcases List.mem_append.mp isPart with isOperand | isEmbedded
      · exact Expr.mem_subterms_trans (smaller_of_mem_operands isOperand).1 ih
      · rw [embedded] at isEmbedded
        split at isEmbedded
        · next value isText =>
          rw [isText] at ih
          exact absurd ih (noText value)
        · cases isEmbedded
  constructor
  case sources =>
    intro value isText
    rw [isText] at inside
    exact absurd inside (noText value)
  case names =>
    intro name isName
    obtain ⟨function, arguments, isCall, isArgument⟩ := exists_call_of_mem_names isName
    have isChild : .text name ∈ reached.expr.children := by rwa [isCall]
    exact absurd (Expr.mem_subterms_trans (Expr.mem_subterms_of_mem_children isChild) inside)
      (noText name)

/-- A tree of the grammar from which only legible spots are reached. -/
structure Readable (spot : Spot) : Prop where
  sound : spot.Sound
  legible : ∀ reached, spot.Reaches reached → reached.Legible

theorem Readable.of_mem_parts (readable : spot.Readable) (member : part ∈ spot.parts) :
    part.Readable :=
  ⟨readable.sound.of_mem_parts member, fun reached further =>
    readable.legible reached (.head member further)⟩

/-- Where the parts are closed, so is the layout. -/
theorem Readable.closedPieces_layout (readable : spot.Readable) (known : site.place.Known)
    (closed : ∀ part ∈ spot.parts, Closed (part.code site).value) :
    ClosedPieces (spot.layout site) := by
  have legible := readable.legible spot .refl
  refine Spot.closedPieces_layout readable.sound known legible.names fun value isText => ?_
  rw [expand_eq_expandBy]
  refine closed_expandBy (legible.sources value isText) fun part inside => ?_
  refine closed part (List.mem_append_right _ ?_)
  rw [embedded, isText]
  exact inside

/-- The code for a readable spot is closed. -/
theorem Readable.closed_code (readable : spot.Readable) (known : site.place.Known) :
    Closed (spot.code site).value := by
  induction spot using partInduction with
  | step spot ih =>
    have closed : ∀ part ∈ spot.parts, Closed (part.code site).value := fun part member =>
      ih part member (readable.of_mem_parts member)
    rw [← layoutText_layout]
    exact run_layoutText (fun part inside =>
      closed part (List.mem_append_left _ (mem_operands_of_mem_layout inside)))
      (readable.closedPieces_layout known closed)

/-- A part of closed pieces stands outside of quotes. -/
theorem exists_runChunks_of_split {front back : List Chunk}
    (closed : ClosedPieces (front ++ .part part :: back)) :
    ∃ depth, runChunks (.code 0) front = some (.code depth) ∧
      runChunks (.code depth) back = some (.code 0) := by
  rw [ClosedPieces, runChunks_append] at closed
  obtain ⟨state, passedFront, passedBack⟩ := Option.bind_eq_some_iff.mp closed
  cases state with
  | code depth => exact ⟨depth, passedFront, passedBack⟩
  | slash | quoted | escaped => cases passedBack

/-- In front of a readable part brackets are opened, and behind it they are
closed again. -/
theorem Readable.exists_run_of_stands {outer inner : Spot} {before after : String}
    (readable : outer.Readable) (known : site.place.Known)
    (stands : Stands site outer before inner after) :
    inner.Readable ∧ ∃ depth, (CodeState.code 0).run before.toList = some (.code depth) ∧
      (CodeState.code depth).run after.toList = some (.code 0) := by
  induction stands with
  | here spot => exact ⟨readable, 0, rfl, rfl⟩
  | @inside spot part inner front back before after split deeper ih =>
    have closed {other : Spot} (among : .part other ∈ spot.layout site) :
        Closed (other.code site).value :=
      (readable.of_mem_parts
        (List.mem_append_left _ (mem_operands_of_mem_layout among))).closed_code known
    have isPart : part ∈ spot.parts :=
      List.mem_append_left _ (mem_operands_of_mem_layout (split ▸ List.mem_append_cons_self))
    have closedLayout := readable.closedPieces_layout known fun other member =>
      (readable.of_mem_parts member).closed_code known
    obtain ⟨readableInner, inside, passedBefore, passedAfter⟩ :=
      ih (readable.of_mem_parts isPart)
    obtain ⟨outside, passedFront, passedBack⟩ := exists_runChunks_of_split (split ▸ closedLayout)
    have runFront := run_layoutText (fun other among =>
      closed (split ▸ List.mem_append_left _ among)) passedFront
    have runBack := run_layoutText (fun other among =>
      closed (split ▸ List.mem_append_right _ (.tail _ among))) passedBack
    refine ⟨readableInner, inside + outside, ?_, ?_⟩
    · rw [String.toList_append, CodeState.run_append, runFront, Option.bind_some]
      simpa [CodeState.under] using CodeState.run_under outside passedBefore
    · have shifted := CodeState.run_under outside passedAfter
      rw [CodeState.under, CodeState.under, Nat.zero_add] at shifted
      rw [String.toList_append, CodeState.run_append, shifted, Option.bind_some, runBack]

end Spot

end EventScript
