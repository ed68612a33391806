import EventScript.Proofs.Code.Closing
import EventScript.Proofs.Code.Tests

/-!
# Texts of chains

Code that is one operand of a member access: a word, a number or a quoted text,
or closed code in brackets, and any of these with calls, indices and members
behind it.
-/

namespace EventScript

variable {state : ChainState} {text spelling inner : String}

/-- Code that is read as tokens which lead from a place in a chain to behind an
operand. -/
def ChainText (state : ChainState) (text : String) : Prop :=
  ∃ tokens, ReadsAs text.toList tokens ∧ state.run tokens = some .behind

/-- Whether the tokens of a text lead from a place in a chain to behind an
operand. -/
def ChainState.accepts (state : ChainState) (text : String) : Bool :=
  (codeTokens text).any fun tokens => state.run tokens == some .behind

theorem chainText_of_closed (closed : Closed text) (checked : state.accepts text = true) :
    ChainText state text := by
  obtain ⟨tokens, reads, -⟩ := CodeState.exists_readsAs closed
  rw [ChainState.accepts, reads.codeTokens_eq, Option.any_some, beq_iff_eq] at checked
  exact ⟨tokens, reads, checked⟩

theorem chainText_number (numeral : IsNumeral spelling.toList) : ChainText .start spelling := by
  have begun := CodeToken.begins_shared (@begins_number _ [] numeral (stops_nil _)) (by simp)
  refine ⟨[.shared (.number (String.ofList spelling.toList))], ?_, rfl⟩
  simpa using begun.readsAs .nil

theorem chainText_quote (value : String) : ChainText .start (Text.quote value) := by
  have begun := CodeToken.begins_shared
    (begins_quoted (fun rest => readQuoted_flatMap_escape value.toList rest) []) (by simp)
  refine ⟨[.shared (.text (String.ofList value.toList))], ?_, rfl⟩
  rw [Text.quote, String.toList_ofList, Text.quoteChars]
  simpa using begun.readsAs .nil

/-- A name is an operand, and behind a point it is a member. -/
theorem chainText_name (named : IsName spelling) (expected : state = .start ∨ state = .point) :
    ChainText state spelling := by
  have begun := CodeToken.begins_shared (@begins_name _ [] named (stops_nil _)) (by simp)
  refine ⟨[.shared (.name spelling)], by simpa using begun.readsAs .nil, ?_⟩
  rcases expected with rfl | rfl <;> rfl

theorem startsWithDigit_eq_false_of_isWord {word : List Char} (spelled : isWord word = true) :
    startsWithDigit word = false := by
  cases word with
  | nil => cases spelled
  | cons character rest =>
    rw [isWord, Bool.and_eq_true] at spelled
    rw [startsWithDigit, Bool.eq_false_iff]
    intro digit
    rw [isDigit_iff] at digit
    rw [isNameStart_iff, isAlpha_iff] at spelled
    omega

/-- A name as a member of an object that has a name. -/
theorem chainText_memberOf {owner opening : String} (ownerNamed : IsName owner)
    (pointed : opening = owner ++ ".") (named : IsName spelling) :
    ChainText .start (opening ++ spelling) := by
  have begunOwner := CodeToken.begins_shared (@begins_name _ ('.' :: spelling.toList) ownerNamed
    (by rw [stops_cons]; decide)) (by simp)
  have begunName := CodeToken.begins_shared (@begins_name _ [] named (stops_nil _)) (by simp)
  have begunPoint := begins_point (startsWithDigit_eq_false_of_isWord named.1)
  have readsName : ReadsAs spelling.toList [.shared (.name spelling)] := by
    simpa using begunName.readsAs .nil
  refine ⟨[.shared (.name owner), .shared (.symbol .dot), .shared (.name spelling)], ?_, rfl⟩
  rw [pointed, String.toList_append, String.toList_append, List.append_assoc]
  exact begunOwner.readsAs (begunPoint.readsAs readsName)

/-! ## Brackets and members -/

/-- The brackets of groups and calls, and those of lists and indices. -/
inductive Bracket where
  | round
  | square

namespace Bracket

def opening : Bracket → Char
  | round => '('
  | square => '['

def closing : Bracket → Char
  | round => ')'
  | square => ']'

def openingMark : Bracket → Symbol
  | round => .openParen
  | square => .openBracket

def closingMark : Bracket → Symbol
  | round => .closeParen
  | square => .closeBracket

/-- Text in brackets. -/
def enclose (bracket : Bracket) (inner : String) : String :=
  String.singleton bracket.opening ++ inner ++ String.singleton bracket.closing

theorem toList_enclose (bracket : Bracket) (inner : String) :
    (bracket.enclose inner).toList = bracket.opening :: (inner.toList ++ [bracket.closing]) := by
  simp [enclose]

/-- Closed code in brackets is an operand, and behind an operand it belongs to
it. -/
theorem exists_readsAs_enclose (bracket : Bracket) (closed : Closed inner) :
    ∃ tokens, ReadsAs (bracket.enclose inner).toList tokens ∧
      ∀ state : ChainState, state = .start ∨ state = .behind →
        state.run tokens = some .behind := by
  obtain ⟨tokens, reads, nested⟩ := CodeState.exists_readsAs closed
  have readsClosing := (@begins_bracket bracket.closing bracket.closingMark
    (by cases bracket <;> rfl) (by cases bracket <;> rfl) []).readsAs .nil
  have readsInner := reads.append_separator (by cases bracket <;> rfl) readsClosing
  have readsAll := (@begins_bracket bracket.opening bracket.openingMark
    (by cases bracket <;> rfl) (by cases bracket <;> rfl) _).readsAs readsInner
  rw [toList_enclose]
  refine ⟨_, readsAll, fun state expected => ?_⟩
  have opened : state.step (.shared (.symbol bracket.openingMark)) = some (.inside 0) := by
    rcases expected with rfl | rfl <;> cases bracket <;> rfl
  rw [ChainState.run, opened, Option.bind_some, ChainState.run_append,
    ChainState.run_inside nested]
  cases bracket <;> rfl

theorem chainText_enclose (bracket : Bracket) (closed : Closed inner) :
    ChainText .start (bracket.enclose inner) := by
  obtain ⟨tokens, reads, passed⟩ := bracket.exists_readsAs_enclose closed
  exact ⟨tokens, reads, passed _ (.inl rfl)⟩

end Bracket

/-- A call of an operand, or an index of it. -/
theorem ChainText.append_enclose (chain : ChainText state text) (bracket : Bracket)
    (closed : Closed inner) : ChainText state (text ++ bracket.enclose inner) := by
  obtain ⟨tokens, reads, reached⟩ := chain
  obtain ⟨others, readsOthers, passed⟩ := bracket.exists_readsAs_enclose closed
  refine ⟨tokens ++ others, ?_, ?_⟩
  · rw [String.toList_append, bracket.toList_enclose] at *
    exact reads.append_separator (by cases bracket <;> rfl) readsOthers
  · rw [ChainState.run_append, reached]
    exact passed _ (.inr rfl)

/-- A member of an operand. -/
theorem ChainText.append_member {member : String} (chain : ChainText .start text)
    (isMember : ChainText .point member) (letter : startsWithLetter member.toList = true) :
    ChainText .start (text ++ "." ++ member) := by
  obtain ⟨tokens, reads, reached⟩ := chain
  obtain ⟨others, readsOthers, passed⟩ := isMember
  have noDigit : startsWithDigit member.toList = false := by
    cases spelled : member.toList with
    | nil => rfl
    | cons character rest =>
      rw [spelled] at letter
      rw [startsWithDigit, Bool.eq_false_iff, ne_eq, isDigit_iff]
      rw [startsWithLetter, isAlpha_iff] at letter
      omega
  have readsMember := (begins_point noDigit).readsAs readsOthers
  refine ⟨tokens ++ .shared (.symbol .dot) :: others, ?_, ?_⟩
  · rw [String.toList_append, String.toList_append, List.append_assoc]
    refine reads.append readsMember (fun last isLast word begun => ?_) (fun isLast => ?_)
    · obtain ⟨token, rfl, ends⟩ := endsOperand_of_isChain (isChain_iff.mpr reached) last isLast
      exact begun.of_member ends letter
    · rfl
  · rw [ChainState.run_append, reached]
    exact passed

end EventScript
