import EventScript.Proofs.Grammar.Soundness
import EventScript.Proofs.Lexing.Blanking
import EventScript.Render.Property

/-!
# Faults inside expressions

A text is refused as an expression if there is a fault in front of its first
token.  Faults behind that token are passed over: an expression that is read is
also read from the text in which they are blanked, and there without findings.
-/

namespace EventScript

/-- What is given on the way to a place is given again without findings by a
text in which faults are blanked. -/
theorem Stream.Gives.exists_mends {taken : List Taken} {tokens : List Token}
    {stream after : Stream} (gives : stream.Gives taken after) (spells : Expr.Spells taken tokens)
    (standing : stream.Standing) {mended : List Char}
    (mends : Mends after.current after.start.rest mended) :
    ∃ front, Mends stream.current stream.start.rest front ∧
      ∀ other : Stream, other.InFrontOf front →
        ∃ otherAfter : Stream, other.Gives taken otherAfter ∧
          otherAfter.InFrontOf mended ∧ otherAfter.findings = other.findings := by
  induction spells generalizing stream with
  | nil =>
    cases gives
    exact ⟨mended, mends, fun other inFront => ⟨other, rfl, inFront, rfl⟩⟩
  | token token _ ih =>
    obtain ⟨rfl, gives⟩ := gives
    obtain ⟨between, mendsBetween, givesOn⟩ := ih gives stream.standing_advance
    obtain ⟨front, mendsFront, steps⟩ := standing.exists_mends_advance mendsBetween
    refine ⟨front, mendsFront, fun other inFront => ?_⟩
    obtain ⟨next, sameFindings⟩ := steps other inFront
    obtain ⟨otherAfter, otherGives, atMended, same⟩ := givesOn _ next
    exact ⟨otherAfter, ⟨inFront.current_eq mendsFront, otherGives⟩, atMended,
      same.trans sameFindings⟩
  | raw argument noText _ _ ih =>
    obtain ⟨rfl, rfl, gives⟩ := gives
    obtain ⟨between, mendsBetween, givesOn⟩ := ih gives stream.standing_takeRaw
    obtain ⟨front, mendsFront, takes⟩ := standing.exists_mends_takeRaw noText mendsBetween
    refine ⟨front, mendsFront, fun other inFront => ?_⟩
    obtain ⟨sameArgument, next, sameFindings⟩ := takes other inFront
    obtain ⟨otherAfter, otherGives, atMended, same⟩ := givesOn _ next
    exact ⟨otherAfter, ⟨inFront.current_eq mendsFront, sameArgument, otherGives⟩, atMended,
      same.trans sameFindings⟩

namespace Expr

/-! ## Texts of expressions -/

/-- What is found wrong in a text while its tokens are read as an expression. -/
def findings (source : String) : List Finding :=
  (Parser.expression.runOn (Stream.ofText source.toList)).2.findings

/-- An expression that is read is read from the text with its faults blanked,
and there is nothing wrong with that text. -/
theorem exists_blanked_of_parse {source : String} {expr : Expr}
    (parsed : parse source = .ok expr) :
    ∃ blanked : String, Blanked source.toList blanked.toList ∧ parse blanked = .ok expr ∧
      findings blanked = [] := by
  obtain ⟨-, after, run, atEnd⟩ := parse_eq_ok_iff.mp parsed
  have standing := Stream.standing_ofText source.toList
  obtain ⟨taken, gives, isOperand, again⟩ := Parser.ensures_expression standing run
  have mendsEnd : Mends after.current after.start.rest [] := by
    rw [(gives.standing standing).eq_nil_of_endOfInput atEnd, atEnd]
    exact ⟨.nil, rfl, rfl⟩
  obtain ⟨front, mendsFront, givesAgain⟩ :=
    gives.exists_mends isOperand.spells standing mendsEnd
  obtain ⟨blanked, blanks, gap⟩ := Stream.exists_blanked_readFrom mendsFront
  refine ⟨String.ofList blanked, ?_, ?_⟩
  · rw [String.toList_ofList]
    exact blanks
  · obtain ⟨inFront, noFindings⟩ :=
      @Stream.inFrontOf_readFrom_of_mends (Cursor.ofText blanked) _ _ _ gap mendsFront []
    obtain ⟨otherAfter, otherGives, atOtherEnd, sameFindings⟩ := givesAgain _ inFront
    have same := atOtherEnd.current_eq mendsEnd
    have ran := again _ otherAfter inFront.standing otherGives (.inl same.symm)
    rw [parse_eq_ok_iff, findings, String.toList_ofList, Stream.ofText, ran]
    rw [sameFindings, noFindings]
    exact ⟨⟨rfl, otherAfter, rfl, same.trans atEnd⟩, rfl⟩

/-- A fault in front of the first token is an error of the expression, and a
text embedded in another is then kept as it stands, with a remark.  Faults
behind that token are hidden: whatever is read is read from the text in which
they are blanked. -/
theorem parse_blanks_faults (source : String) :
    (∀ finding others, (Stream.ofText source.toList).findings = finding :: others →
      parse source = .error finding.error ∧
        ∀ render : Expr → Emission String, embeddedCode render source = do
          Emission.report finding.line (.embedded finding.error)
          return source) ∧
    ∀ expr, parse source = .ok expr →
      (Stream.ofText source.toList).findings = [] ∧
        ∃ blanked : String, Blanked source.toList blanked.toList ∧
          parse blanked = .ok expr ∧ findings blanked = [] := by
  constructor
  · intro finding others inFront
    have refused : parse source = .error finding.error := by
      rw [parse, inFront]
    refine ⟨refused, fun render => ?_⟩
    rw [embeddedCode, refused]
    rfl
  · intro expr parsed
    exact ⟨(parse_eq_ok_iff.mp parsed).1, exists_blanked_of_parse parsed⟩

/-- A character that begins no token, behind a name. -/
theorem parse_hides_fault :
    parse "x @" = .ok (.name "x") ∧ findings "x @" = [⟨1, .unexpectedCharacter '@'⟩] := by
  constructor
  · rfl
  · rfl

/-- The hidden fault of a text is blanked in another. -/
theorem parse_blanks_faults_at :
    parse "x @" = .ok (.name "x") ∧ ∃ blanked : String, Blanked "x @".toList blanked.toList ∧
      parse blanked = .ok (.name "x") ∧ findings blanked = [] := by
  have parsed : parse "x @" = .ok (.name "x") := rfl
  exact ⟨parsed, ((parse_blanks_faults "x @").2 _ parsed).2⟩

end Expr

end EventScript
