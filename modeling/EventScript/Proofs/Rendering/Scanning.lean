import EventScript.Proofs.Outline.Layout
import EventScript.Proofs.PassThrough.Expressions

/-!
# The scan for flags is complete

Whether a condition tests an event is found out by a scan of its tree, while
the tests are written by generation, which goes through the tree in its own
way.  In a tree of the grammar generation tests no flag that the scan does not
find.  The code for a condition can therefore differ between two sections only
if they disagree about an event that the scan reports.
-/

namespace EventScript

variable {action : Action} {items : List Expr}

theorem Expr.mem_flagsOfAll {position : Position} :
    action ∈ Expr.flagsOfAll position items ↔ ∃ item ∈ items, action ∈ item.flags position := by
  induction items with
  | nil => simp [Expr.flagsOfAll]
  | cons first rest ih => simp [Expr.flagsOfAll, ih]

namespace Expr

/-- The operands of an operator in a tree of the grammar are such trees. -/
theorem Shaped.of_mem_operandsOf {op : BinaryOp} {left right operand : Expr}
    (shaped : Shaped (.binary op left right)) (member : operand ∈ operandsOf op left right) :
    Shaped operand := by
  have ofBoth (shapedLeft : Shaped left) (shapedRight : Shaped right) : Shaped operand := by
    have noRange : right.bounds = [right] := by
      cases shapedRight <;> rfl
    rw [operandsOf, noRange, ite_self, List.mem_cons, List.mem_singleton] at member
    rcases member with rfl | rfl
    · exact shapedLeft
    · exact shapedRight
  cases shaped with
  | assignment _ shapedLeft _ shapedRight
  | operation _ shapedLeft _ shapedRight _ => exact ofBoth shapedLeft shapedRight
  | within shapedLeft _ shapedLow _ shapedHigh _ =>
    simp only [operandsOf, if_true, bounds, List.mem_cons, List.not_mem_nil, or_false] at member
    rcases member with rfl | rfl | rfl
    · exact shapedLeft
    · exact shapedLow
    · exact shapedHigh

theorem flags_subset_of_mem_operandsOf {op : BinaryOp} {left right operand : Expr}
    (member : operand ∈ operandsOf op left right) :
    operand.flags .free ⊆ (binary op left right).flags .free := by
  intro action found
  rcases List.mem_cons.mp member with rfl | isRight
  · exact List.mem_append_left _ found
  · refine List.mem_append_right _ ?_
    split at isRight
    · cases right with
      | range low high =>
        simp only [bounds, List.mem_cons, List.not_mem_nil, or_false] at isRight
        rcases isRight with rfl | rfl
        · exact List.mem_append_left _ found
        · exact List.mem_append_right _ found
      | _ => exact List.mem_singleton.mp isRight ▸ found
    · exact List.mem_singleton.mp isRight ▸ found

end Expr

namespace Spot

variable {spot part : Spot}

/-- The flags that the scan finds from a spot on. -/
def flags (spot : Spot) : List Action :=
  spot.expr.flags spot.position

/-- A flag that is tested at a spot is found there. -/
theorem mem_flags_of_mem_tests (tested : action ∈ spot.tests) : action ∈ spot.flags := by
  obtain ⟨context, position, expr⟩ := spot
  cases position with
  | member => cases expr <;> cases tested
  | free =>
    cases expr with
    | name spelling =>
      unfold tests at tested
      dsimp only at tested
      split at tested
      · exact tested
      · cases tested
    | call function arguments =>
      cases arguments with
      | nil => cases tested
      | cons first others => exact List.mem_append_left _ tested
    | _ => cases tested

/-- A tree of the grammar, and behind a point one that may stand there. -/
structure Sound (spot : Spot) : Prop where
  shaped : spot.expr.Shaped
  member : spot.position = .member → spot.expr.isMember = true

theorem Sound.free {context : ExprContext} {expr : Expr} (shaped : expr.Shaped) :
    Sound ⟨context, .free, expr⟩ :=
  ⟨shaped, by rintro ⟨⟩⟩

theorem sound_of_mem_arguments (shaped : ∀ item ∈ items, item.Shaped)
    (member : part ∈ spot.arguments items) : part.Sound := by
  obtain ⟨item, inside, rfl⟩ := List.mem_map.mp member
  exact .free (shaped item inside)

theorem mem_flagsOfAll_of_mem_arguments (member : part ∈ spot.arguments items)
    (found : action ∈ part.flags) : action ∈ Expr.flagsOfAll .free items := by
  obtain ⟨item, inside, rfl⟩ := List.mem_map.mp member
  exact Expr.mem_flagsOfAll.mpr ⟨item, inside, found⟩

/-- The operands of a tree of the grammar are such trees, and the scan goes
through them. -/
theorem Sound.of_mem_operands (sound : spot.Sound) (member : part ∈ spot.operands) :
    part.Sound ∧ part.flags ⊆ spot.flags := by
  have ofArguments {items : List Expr} (shaped : ∀ item ∈ items, item.Shaped)
      (inside : part ∈ spot.arguments items) (scanned : Expr.flagsOfAll .free items ⊆ spot.flags) :
      part.Sound ∧ part.flags ⊆ spot.flags :=
    ⟨sound_of_mem_arguments shaped inside,
      fun _ found => scanned (mem_flagsOfAll_of_mem_arguments inside found)⟩
  have ofOperands {op : BinaryOp} {left right : Expr} (shaped : (Expr.binary op left right).Shaped)
      {context : ExprContext} (inside : part ∈ operands ⟨context, .free, .binary op left right⟩) :
      part.Sound ∧ part.flags ⊆ flags ⟨context, .free, .binary op left right⟩ := by
    obtain ⟨operand, isOperand, rfl⟩ := List.mem_map.mp inside
    exact ⟨.free (shaped.of_mem_operandsOf isOperand),
      Expr.flags_subset_of_mem_operandsOf isOperand⟩
  obtain ⟨context, position, expr⟩ := spot
  obtain ⟨shaped, behindPoint⟩ := sound
  dsimp only at shaped behindPoint
  cases position with
  | member =>
    cases shaped with
    | name named => cases member
    | call named inside quoted =>
      exact ofArguments inside member fun _ found => found
    | index shapedTarget tight noChain inside =>
      rcases List.mem_cons.mp member with rfl | isIndex
      · exact ⟨⟨shapedTarget, behindPoint⟩, fun _ found => List.mem_append_left _ found⟩
      · exact ofArguments inside isIndex fun _ found => List.mem_append_right _ found
    | _ => cases behindPoint rfl
  | free =>
    cases shaped with
    | number | text | name => cases member
    | list inside => exact ofArguments inside member fun _ found => found
    | grouped inside | prefixed _ inside _ | postfixed _ inside _ =>
      obtain rfl := List.mem_singleton.mp member
      exact ⟨.free inside, fun _ found => found⟩
    | assignment loose left tight right =>
      exact ofOperands (.assignment loose left tight right) member
    | operation tighter left tightLeft right tightRight =>
      exact ofOperands (.operation tighter left tightLeft right tightRight) member
    | within left tightLeft low tightLow high tightHigh =>
      exact ofOperands (.within left tightLeft low tightLow high tightHigh) member
    | conditional condition tight whenTrue whenFalse tightFalse =>
      rcases List.mem_cons.mp member with rfl | isBranch
      · exact ⟨.free condition, fun _ found =>
          List.mem_append_left _ (List.mem_append_left _ found)⟩
      · refine ofArguments ?_ isBranch ?_
        · simpa using ⟨whenTrue, whenFalse⟩
        · intro action found
          rw [Expr.flagsOfAll, Expr.flagsOfAll, Expr.flagsOfAll, List.append_nil] at found
          rw [flags, Expr.flags, List.append_assoc]
          exact List.mem_append_right _ found
    | call named inside quoted =>
      refine ofArguments (fun item among => inside item (mem_of_mem_writtenArguments among))
        member fun action found => List.mem_append_right _ ?_
      obtain ⟨item, among, foundInside⟩ := Expr.mem_flagsOfAll.mp found
      exact Expr.mem_flagsOfAll.mpr ⟨item, mem_of_mem_writtenArguments among, foundInside⟩
    | index shapedTarget tight noChain inside =>
      rcases List.mem_cons.mp member with rfl | isIndex
      · exact ⟨.free shapedTarget, fun _ found => List.mem_append_left _ found⟩
      · exact ofArguments inside isIndex fun _ found => List.mem_append_right _ found
    | dotted shapedHead tight noChain nonempty inside areMembers =>
      rcases List.mem_cons.mp member with rfl | isSegment
      · exact ⟨.free shapedHead, fun _ found => List.mem_append_left _ found⟩
      · obtain ⟨segment, among, rfl⟩ := List.mem_map.mp isSegment
        exact ⟨⟨inside segment among, fun _ => areMembers segment among⟩, fun _ found =>
          List.mem_append_right _ (Expr.mem_flagsOfAll.mpr ⟨segment, among, found⟩)⟩

/-- The code for a tree of the grammar is the same in two sections that agree
about every flag that the scan finds, if texts are written alike and no flag is
set. -/
theorem codeWith_eq_of_flags_alike {options : Options} {first second : Section}
    {text other : String → Emission String} {spot : Spot} (sound : spot.Sound)
    (texts : ∀ value, .text value ∈ spot.expr.subterms → text value = other value)
    (setsNone : ∀ arguments, .call Expr.flagFunction arguments ∉ spot.expr.subterms)
    (alike : ∀ action ∈ spot.flags, first.actionTest action = second.actionTest action) :
    spot.codeWith text ⟨options, first⟩ = spot.codeWith other ⟨options, second⟩ := by
  induction spot using operandInduction with
  | step spot ih =>
    refine codeWith_congr ⟨fun action tested => alike action (mem_flags_of_mem_tests tested),
      ?_⟩ ?_ ?_
    · rintro ⟨-, argument, others, isCall⟩
      refine absurd ?_ (setsNone (argument :: others))
      rw [← isCall]
      exact spot.expr.self_mem_subterms
    · rintro value isText
      exact texts value (isText ▸ spot.expr.self_mem_subterms)
    · intro part member
      obtain ⟨soundPart, scanned⟩ := sound.of_mem_operands member
      have inside := (smaller_of_mem_operands member).1
      exact ih part member soundPart
        (fun value among => texts value (Expr.mem_subterms_trans among inside))
        (fun arguments among => setsNone arguments (Expr.mem_subterms_trans among inside))
        (fun action found => alike action (scanned found))

end Spot

/-! ## Conditions -/

/-- Sections know events by their names. -/
theorem Section.actionTest_congr (place : Section) {other : Action}
    (same : action.name = other.name) : place.actionTest action = place.actionTest other := by
  unfold actionTest
  rw [same]

/-- Every flag in a condition is that of a reported event. -/
theorem Expr.exists_mem_actions_of_mem_flags {condition : Expr}
    (found : action ∈ condition.flags .free) :
    ∃ reported ∈ condition.actions, reported.name = action.name := by
  have anyFlag : ((condition.flags .free).any fun flag => flag.name == action.name) = true :=
    List.any_eq_true.mpr ⟨action, found, beq_self_eq_true _⟩
  rw [← any_distinctActions, List.any_eq_true] at anyFlag
  obtain ⟨reported, isReported, same⟩ := anyFlag
  exact ⟨reported, isReported, beq_iff_eq.mp same⟩

/-- The code for a condition and what it does to the ledger depend on the
section only through the events that the scan reports.  A condition in which
the scan finds none is written alike in every section. -/
theorem Session.expression_eq_of_actions_alike {condition : Expr} (shaped : condition.Shaped)
    (unmarked : ∀ value, .text value ∈ condition.subterms → '#' ∉ value.toList)
    (setsNone : ∀ arguments, .call Expr.flagFunction arguments ∉ condition.subterms)
    {first second : Section}
    (alike : ∀ action ∈ condition.actions, first.actionTest action = second.actionTest action)
    (session : Session) (depth : Nat) :
    let inFirst := (session.moveTo first depth).expression .condition condition
    let inSecond := (session.moveTo second depth).expression .condition condition
    inFirst.1 = inSecond.1 ∧ inFirst.2.ledger = inSecond.2.ledger := by
  have same : render ⟨session.options, first⟩ .condition condition =
      render ⟨session.options, second⟩ .condition condition := by
    refine @Spot.codeWith_eq_of_flags_alike _ _ _ _ _ ⟨.condition, .free, condition⟩
      (.free shaped) ?_ setsNone ?_
    · intro value inside
      rw [expand_of_no_mark _ (unmarked value inside), expand_of_no_mark _ (unmarked value inside)]
    · intro action found
      obtain ⟨reported, isReported, sameName⟩ := Expr.exists_mem_actions_of_mem_flags found
      rw [← first.actionTest_congr sameName, ← second.actionTest_congr sameName]
      exact alike reported isReported
  intro inFirst inSecond
  change (render ⟨session.options, first⟩ .condition condition).value = _ ∧
    session.ledger.recordAll (render ⟨session.options, first⟩ .condition condition).effects = _
  rw [same]
  exact ⟨rfl, rfl⟩

set_option maxRecDepth 20000 in
/-- What a player says, a flag among the indices of a member and one in a list,
in a callback that handles none of these events and in a declared function. -/
theorem Session.expression_eq_in_exploded :
    let condition := Expr.binary .or (.call "playersays" [.text "hi"])
      (.unary .not (.grouped (.binary .isIn
        (.dotted [.name "player", .index (.name "weapons") [.name "wasshot"]])
        (.list [.number "1", .call "abs" [.name "timeout"]]))))
    let place := Section.event { name := "exploded", callback := "onExploded" }
    let session : Session := { options := {} }
    Expr.parse "playersays(\"hi\")||!(player.weapons[wasshot] in \x7b1,abs(timeout)\x7d)" =
        .ok condition ∧
      condition.actions.map Action.name = ["playerchats", "wasshot", "timeout"] ∧
      ((session.moveTo place 1).expression .condition condition).1 =
        ((session.moveTo .global 1).expression .condition condition).1 ∧
      ((session.moveTo place 1).expression .condition condition).2.ledger =
        ((session.moveTo .global 1).expression .condition condition).2.ledger := by
  intro condition place session
  have parsed : Expr.parse
      "playersays(\"hi\")||!(player.weapons[wasshot] in \x7b1,abs(timeout)\x7d)" =
        .ok condition := by
    rfl
  refine ⟨parsed, by decide, ?_⟩
  refine session.expression_eq_of_actions_alike (Expr.shaped_of_parse parsed) ?_ ?_ ?_ 1
  · intro value inside
    obtain rfl : value = "hi" := by
      simpa [condition, Expr.subterms, Expr.subtermsOfAll] using inside
    decide
  · intro arguments
    simp [condition, Expr.subterms, Expr.subtermsOfAll, Expr.flagFunction]
  · decide

end EventScript
