import EventScript.Proofs.Code.Tests
import EventScript.Proofs.Printing.Display
import EventScript.Proofs.Rendering.ClosedCode
import EventScript.Proofs.Rendering.Fronts

/-!
# Operators with one operand in generated code

An operator with one operand is written right beside the text of its operand, in
generated code and in the printed form of a tree.  It is read as that operator and
the operand exactly if nothing at the edge of the text runs on with it.  So a
negation runs into the minus sign of another one, and a step behind an operand is
lost in a comment that the code for the operand leaves open.
-/

namespace EventScript

/-! ## Closed code leaves no comment open -/

namespace CodeState

/-- Closed code holds no comments, and blanks change nothing. -/
theorem run_of_isGap {gap rest : List Char} (isGap : IsGap gap) {depth : Nat} {last : CodeState}
    (passed : (code depth).run (gap ++ rest) = some last) : (code depth).run rest = some last := by
  induction gap with
  | nil => exact passed
  | cons character others ih =>
    rcases isBlank_or_slash_of_isGap isGap with isBlank | rfl
    · refine ih ?_ ?_
      · rintro _ ⟨⟩ behind
        have skipped := isGap _ .blanks behind
        rwa [List.cons_append, skipGap_cons_of_isBlank isBlank] at skipped
      · have plain := isPlain_of_isBlank isBlank
        rwa [List.cons_append, run, step, outside_of_isPlain plain] at passed
    · have skipped := isGap _ .blanks []
      rw [List.append_nil] at skipped
      by_cases opens : StartsComment ('/' :: others)
      · obtain ⟨inside, begins | begins⟩ := opens
        · cases begins
          cases passed
        · cases begins
          cases passed
      · rw [skipGap_cons_self (by decide) opens] at skipped
        cases skipped

/-- A token passed over leaves brackets to be closed behind it. -/
theorem exists_run_of_begins {word rest : List Char} {token : Token}
    (begun : Begins word token rest) {depth behind : Nat}
    (passed : (code depth).run (word ++ rest) = some (code behind)) :
    ∃ inner, (code inner).run rest = some (code behind) := by
  have ofPlain (plain : ∀ character ∈ word, isPlain character = true) :
      ∃ inner, (code inner).run rest = some (code behind) := by
    rw [run_append, run_of_isPlain plain] at passed
    exact ⟨depth, passed⟩
  cases begun.spelled with
  | number numeral =>
    refine ofPlain fun character inside => ?_
    rcases isDigit_or_point_of_spanNumber numeral.2 character inside with digit | rfl
    · exact isPlain_of_isNameChar ((isNameChar_iff character).mpr (.inr digit))
    · rfl
  | word spelled =>
    exact ofPlain fun character inside =>
      isPlain_of_isNameChar (isNameChar_of_mem_word spelled inside)
  | @quoted inner value closed =>
    have inside : (quoted depth).run (inner ++ '"' :: rest) = some (code behind) := by
      simpa [run, step, outside] using passed
    rw [run_quoted (closed rest)] at inside
    exact ⟨depth, inside⟩
  | @single character mark single =>
    obtain ⟨next, stepped, passedRest⟩ := Option.bind_eq_some_iff.mp passed
    rw [step, outside] at stepped
    split at stepped
    · cases stepped
      exact ⟨depth + 1, passedRest⟩
    split at stepped
    · split at stepped
      · cases stepped
      · cases stepped
        exact ⟨depth - 1, passedRest⟩
    split at stepped
    · rename_i isQuote
      subst isQuote
      cases single
    split at stepped
    · cases stepped
      exact ⟨depth, (run_of_run_slash passedRest).1⟩
    · cases stepped
      exact ⟨depth, passedRest⟩
  | pair pair =>
    unfold Symbol.ofPair? at pair
    split at pair
    all_goals first
      | exact ⟨depth, passed⟩
      | cases pair

end CodeState

theorem EndsInComment.not_closed {text : List Char} (ends : EndsInComment text)
    (depth behind : Nat) : (CodeState.code depth).run text ≠ some (.code behind) := by
  induction ends generalizing depth with
  | comment isGap noLine =>
    intro passed
    cases CodeState.run_of_isGap isGap passed
  | token isGap begun _ ih =>
    intro passed
    obtain ⟨inner, passedRest⟩ :=
      CodeState.exists_run_of_begins begun (CodeState.run_of_isGap isGap passed)
    exact ih inner passedRest

/-! ## The edges of printed expressions -/

namespace Expr

theorem Shaped.settled_display {expr : Expr} (shaped : expr.Shaped) : Settled expr.display := by
  induction shaped with
  | number numeral => exact (sturdy_of_isNumeral numeral).settled
  | text value => exact Settled.append_left (by decide) _
  | name named => exact (sturdy_of_isName named).settled
  | list | grouped => exact Settled.append_left (by decide) _
  | prefixed inFront _ _ ih =>
    rw [display, UnaryOp.attach, if_neg (by simp [inFront])]
    exact ih.append_left _
  | postfixed behind _ _ ih =>
    rw [display, UnaryOp.attach, if_pos behind]
    exact ih.append_pair behind
  | assignment _ _ _ _ _ ih | operation _ _ _ _ _ _ ih => exact ih.append_left _
  | within =>
    rw [display, display]
    exact (Settled.append_left (by decide) _).append_left _
  | conditional _ _ _ _ _ _ _ ih => exact ih.append_left _
  | call | index => exact Settled.append_left (by decide) _
  | dotted _ _ _ _ _ _ settledHead settledMembers =>
    rw [display, displayAll_eq_map]
    refine settled_intercalate (List.cons_ne_nil _ _) fun part inside => ?_
    obtain ⟨segment, isSegment, rfl⟩ := List.mem_map.mp inside
    rcases List.mem_cons.mp isSegment with rfl | isMember
    · exact settledHead
    · exact settledMembers segment isMember

theorem Shaped.opensPlainly_display {expr : Expr} (shaped : expr.Shaped) (tight : 10 ≤ expr.level) :
    opensPlainly expr.display = true := by
  induction shaped with
  | number numeral => exact (sturdy_of_isNumeral numeral).plain
  | text value | list | grouped => exact opensPlainly_append (opensPlainly_append (by decide) _) _
  | name named => exact (sturdy_of_isName named).plain
  | prefixed inFront => simp [level, inFront] at tight
  | postfixed behind _ tightOperand ih =>
    rw [display, UnaryOp.attach, if_pos behind]
    exact opensPlainly_append (ih tightOperand) _
  | @assignment op | @operation op =>
    have bounded := op.strength_le
    simp only [level] at tight
    omega
  | within => simp [level, BinaryOp.strength] at tight
  | conditional => simp [level] at tight
  | call named =>
    exact opensPlainly_append (opensPlainly_append (opensPlainly_append
      (sturdy_of_isName named).plain _) _) _
  | index _ tightTarget _ _ ih =>
    exact opensPlainly_append (opensPlainly_append (opensPlainly_append
      (ih tightTarget) _) _) _
  | dotted _ tightHead _ _ _ _ plainHead =>
    rw [display, displayAll]
    exact opensPlainly_intercalate (plainHead tightHead) _

/-- The printed form of an operand begins with a sign exactly if the operand begins
with a minus sign. -/
theorem Shaped.head?_display_iff {operand : Expr} (shaped : operand.Shaped)
    (tight : 9 ≤ operand.level) {mark : Char} (isSign : mark ∈ ['-', '=']) :
    operand.display.toList.head? = some mark ↔ (mark == '-' && operand.startsMinus) = true := by
  have ofPlain (plain : opensPlainly operand.display = true)
      (noMinus : operand.startsMinus = false) :
      operand.display.toList.head? = some mark ↔ (mark == '-' && operand.startsMinus) = true := by
    rw [noMinus, Bool.and_false]
    exact iff_of_false (head?_ne_of_opensPlainly isSign plain) Bool.false_ne_true
  cases operand with
  | unary op inner =>
    by_cases behind : op.isPostfix = true
    · refine ofPlain (shaped.opensPlainly_display (by simp [level, behind])) ?_
      cases op with
      | postIncrement | postDecrement => rfl
      | _ => cases behind
    · rw [display, UnaryOp.attach, if_neg behind, String.toList_append]
      rcases List.mem_pair.mp isSign with rfl | rfl
      · cases op <;> simp [UnaryOp.spelling, startsMinus, UnaryOp.isPostfix] at behind ⊢
      · cases op <;> simp [UnaryOp.spelling, startsMinus, UnaryOp.isPostfix] at behind ⊢
  | binary op left right =>
    have bounded := op.strength_le
    simp only [level] at tight
    omega
  | range | conditional => simp [level] at tight
  | _ => exact ofPlain (shaped.opensPlainly_display (by simp [level])) rfl

end Expr

/-! ## Operators at their operands -/

/-- Generated code and printed text read an operator with one operand as that
operator and what its operand is read as, in exactly the cases where nothing at the
edge of the operand runs on with it.  Behind an operand with readable names and
texts no comment is left open. -/
theorem outcomes_unary_iff {op : UnaryOp} {operand : Expr} (shaped : (Expr.unary op operand).Shaped)
    (session : Session) (context : ExprContext) :
    let generated := (session.expression context operand).1
    ((∀ outcome ∈ outcomes generated, outcome.isOk = true) →
      (outcomes (session.expression context (.unary op operand)).1 =
        op.around (outcomes generated) ↔ op.Clear operand.leads generated)) ∧
    ((∀ outcome ∈ outcomes operand.display, outcome.isOk = true) →
      (outcomes (Expr.unary op operand).display = op.around (outcomes operand.display) ↔
        op.Clear (fun mark => mark == '-' && operand.startsMinus) operand.display)) ∧
    (session.place.Known → Spot.Readable ⟨context, .free, operand⟩ →
      ¬EndsInComment generated.toList) := by
  intro generated
  obtain ⟨shapedOperand, tight⟩ := shaped.of_unary
  have sound : Spot.Sound ⟨context, .free, operand⟩ := .free shapedOperand
  refine ⟨fun clean => ?_, fun clean => ?_, fun known readable ends => ?_⟩
  · have attached : (session.expression context (.unary op operand)).1 = op.attach generated :=
      @Spot.value_code_unary session.site context .free op operand shaped
    rw [attached]
    exact outcomes_attach_iff op (fun mark isSign => sound.head?_code_iff rfl isSign)
      sound.settled_code clean
  · exact outcomes_attach_iff op (fun mark isSign => shapedOperand.head?_display_iff tight isSign)
      shapedOperand.settled_display clean
  · exact ends.not_closed 0 0 (readable.closed_code known)

set_option maxRecDepth 20000 in
/-- A member is stepped and negated in a condition. -/
theorem outcomes_unary_member :
    let member := Expr.dotted [.index (.name "names") [.name "i"], .name "all"]
    let stepped := Expr.unary .postDecrement member
    let negated := Expr.unary .negate member
    let session : Session := { options := {}, place := .dispatcher }
    let code := "this.names[this.i].all"
    Expr.parse "names[i].all--" = .ok stepped ∧ Expr.parse "-names[i].all" = .ok negated ∧
      (session.expression .condition member).1 = code ∧
      outcomes (session.expression .condition stepped).1 =
        UnaryOp.postDecrement.around (outcomes code) ∧
      outcomes (session.expression .condition negated).1 = UnaryOp.negate.around (outcomes code) ∧
      outcomes negated.display = UnaryOp.negate.around (outcomes member.display) := by
  intro member stepped negated session code
  have parsedStep : Expr.parse "names[i].all--" = .ok stepped := by
    rfl
  have parsedNegation : Expr.parse "-names[i].all" = .ok negated := by
    rfl
  have isCode : (session.expression .condition member).1 = code := by
    decide
  have clean : ∀ outcome ∈ outcomes code, outcome.isOk = true := by
    decide
  have cleanDisplay : ∀ outcome ∈ outcomes member.display, outcome.isOk = true := by
    decide
  obtain ⟨readStep, -, noComment⟩ :=
    outcomes_unary_iff (Expr.shaped_of_parse parsedStep) session .condition
  obtain ⟨readNegation, readDisplay, -⟩ :=
    outcomes_unary_iff (Expr.shaped_of_parse parsedNegation) session .condition
  have shaped : member.Shaped := @Expr.shaped_of_parse "names[i].all" member (by rfl)
  have noText : ∀ value, .text value ∉ member.subterms := by
    simp [member, Expr.subterms, Expr.subtermsOfAll]
  have readable : Spot.Readable ⟨.condition, .free, member⟩ :=
    ⟨.free shaped, fun reached => Spot.legible_of_no_text noText⟩
  rw [isCode] at readStep readNegation
  exact ⟨parsedStep, parsedNegation, isCode,
    (readStep clean).mpr (isCode ▸ noComment (by rintro _ ⟨⟩) readable),
    (readNegation clean).mpr ⟨rfl, rfl⟩, (readDisplay cleanDisplay).mpr ⟨rfl, rfl⟩⟩

set_option maxRecDepth 20000 in
/-- Two negations are read as one step, and a step is lost behind a variable named
with a comment and behind a printed text that a quote cuts short. -/
theorem unary_marks_run_on :
    let negated := Expr.unary .negate (.name "x")
    let twice := Expr.unary .negate negated
    let unset := Expr.call "unset" [.text "a.b//"]
    let cut := Expr.text "\"//"
    let session : Session := { options := {} }
    Expr.parse "- -x" = .ok twice ∧ (session.expression {} negated).1 = "-this.gx" ∧
      (session.expression {} twice).1 = "--this.gx" ∧
      (outcomes "--this.gx").head? = some (.ok (.symbol .decrement)) ∧
      negated.display = "-x" ∧ twice.display = "--x" ∧
      outcomes "--x" = [.ok (.symbol .decrement), .ok (.name "x"), .ok .endOfInput] ∧
      Expr.parse "unset(\"a.b//\")++" = .ok (.unary .postIncrement unset) ∧
      (session.expression {} (.unary .postIncrement unset)).1 = "a.b// = false++" ∧
      outcomes "a.b// = false++" = outcomes "a.b// = false" ∧
      Expr.parse "\"\\\"//\"++" = .ok (.unary .postIncrement cut) ∧
      outcomes (Expr.unary .postIncrement cut).display = outcomes cut.display := by
  exact ⟨by rfl, by decide, by decide, by decide, by decide,
    by decide, by decide, by rfl, by decide, by decide, by rfl,
    by decide⟩

end EventScript
