import EventScript.Proofs.Lexing.Standing

/-!
# Texts with different endings

A part of a script is followed by the marks that close it, or by nothing.  Up to
its ending a text reads the same whatever the ending is: the tokens are the
same, and so are the unquoted arguments, unless one of them leaves a parenthesis
or a quote open and takes the ending in.
-/

namespace EventScript

/-- The marks that close a statement, a block or a list of arguments. -/
inductive ClosingMark where
  | semicolon
  | closeBrace
  | closeParen
  deriving DecidableEq

namespace ClosingMark

variable (mark : ClosingMark)

def symbol : ClosingMark → Symbol
  | semicolon => .semicolon
  | closeBrace => .closeBrace
  | closeParen => .closeParen

def character : ClosingMark → Char
  | semicolon => ';'
  | closeBrace => '}'
  | closeParen => ')'

theorem endsRaw_character : endsRaw mark.character = true := by
  cases mark <;> rfl

theorem begins (rest : List Char) : Begins [mark.character] (.symbol mark.symbol) rest := by
  cases mark
  all_goals
    apply begins_symbol rfl (fun _ _ => rfl)
    · exact fun isPoint => absurd isPoint (by decide)
    · exact not_startsComment (by decide) _

theorem character_ne_star : mark.character ≠ '*' := by
  cases mark <;> decide

theorem character_ne_quote : mark.character ≠ '"' := by
  cases mark <;> decide

end ClosingMark

/-- What follows a text: closing marks. -/
abbrev Ending := List ClosingMark

namespace Ending

variable {common : List Char} {ending : Ending}

/-- The characters of the marks. -/
def marks (ending : Ending) : List Char :=
  ending.map ClosingMark.character

/-- The text of an ending, with the marks on a line of their own. -/
def text : Ending → List Char
  | [] => []
  | mark :: others => '\n' :: marks (mark :: others)

/-- The token that an ending begins with. -/
def token : Ending → Token
  | [] => .endOfInput
  | mark :: _ => .symbol mark.symbol

/-- The tokens that an ending can begin with. -/
def beginsWith : Token → Bool
  | .endOfInput => true
  | .symbol .semicolon => true
  | .symbol .closeBrace => true
  | .symbol .closeParen => true
  | _ => false

theorem token_ne (ending : Ending) {token : Token} (noEnding : beginsWith token = false) :
    ending.token ≠ token := by
  rintro rfl
  cases ending with
  | nil => cases noEnding
  | cons mark others => cases mark <;> cases noEnding

/-- What is seen at a place of a text with an ending.  At the end of the text
the stream is in front of the marks. -/
def behind (ending : Ending) : List Char → List Char
  | [] => ending.marks
  | character :: rest => character :: rest ++ ending.text

theorem behind_of_ne_nil (ending : Ending) (nonempty : common ≠ []) :
    ending.behind common = common ++ ending.text := by
  cases common with
  | nil => exact absurd rfl nonempty
  | cons => rfl

/-- What is seen tells the place. -/
theorem behind_injective (ending : Ending) {first second : List Char}
    (same : ending.behind first = ending.behind second) : first = second := by
  have notAtEnd {character : Char} {rest : List Char} : ending.behind (character :: rest) ≠
      ending.behind [] := by
    intro same
    have lengths := congrArg List.length same
    cases ending with
    | nil => cases same
    | cons mark others =>
      simp only [behind, text, List.length_append, List.length_cons] at lengths
      omega
  cases first with
  | nil =>
    cases second with
    | nil => rfl
    | cons => exact absurd same.symm notAtEnd
  | cons =>
    cases second with
    | nil => exact absurd same notAtEnd
    | cons => exact List.append_cancel_right same

theorem readToken_marks (ending : Ending) :
    readToken ending.marks = (.ok ending.token, marks ending.tail) := by
  cases ending with
  | nil => rfl
  | cons mark others => exact (mark.begins _).reads

theorem skipGap_marks (ending : Ending) : skipGap .blanks ending.marks = .ok ending.marks := by
  cases ending with
  | nil => rfl
  | cons mark others => exact (mark.begins _).visible

theorem skipGap_text (ending : Ending) : skipGap .blanks ending.text = .ok ending.marks := by
  cases ending with
  | nil => rfl
  | cons mark others =>
    rw [text, skipGap_cons_of_isBlank (by decide)]
    exact skipGap_marks _

/-! ## Gaps -/

/-- An ending begins with a line feed. -/
theorem exists_cons_of_append {others : List Char} {character : Char}
    (split : common ++ ending.text = character :: others) (notLine : character ≠ '\n') :
    ∃ more, common = character :: more := by
  cases common with
  | cons first more =>
    cases split
    exact ⟨more, rfl⟩
  | nil =>
    cases ending with
    | nil => cases split
    | cons mark ending =>
      cases split
      exact absurd rfl notLine

theorem skipGap_comment_marks (ending : Ending) (opening : List Char) :
    skipGap (.comment opening) ending.marks = .error opening := by
  induction ending with
  | nil => rfl
  | cons mark others ih =>
    rw [marks, List.map_cons, skipGap_comment_cons, ← marks, ih]
    intro _ isStar
    exact absurd isStar mark.character_ne_star

/-- An ending does not close a comment. -/
theorem skipGap_comment_text (ending : Ending) (opening : List Char) :
    skipGap (.comment opening) ending.text = .error opening := by
  cases ending with
  | nil => rfl
  | cons mark others =>
    rw [text, skipGap_comment_cons, skipGap_comment_marks]
    intro _ isStar
    cases isStar

/-- What skipping a gap comes to when an ending is put behind the text. -/
inductive Skipped (ending : Ending) :
    Except (List Char) (List Char) → Except (List Char) (List Char) → Prop
  | visible (rest : List Char) : Skipped ending (.ok rest) (.ok (ending.behind rest))
  | unclosed (opening other : List Char) : Skipped ending (.error opening) (.error other)

open Gap in
theorem skipped_skipGap (ending : Ending) {mode other : Gap} (alike : mode.Alike other)
    (common : List Char) :
    ending.Skipped (skipGap mode common) (skipGap other (common ++ ending.text)) := by
  induction mode, common using Gap.induction generalizing other with
  | @step _ _ _ rest step ih =>
    obtain ⟨otherInner, alikeInner, otherStep⟩ :=
      step.exists_alike alike (rest ++ ending.text) fun _ _ _ split =>
        exists_cons_of_append split (by decide)
    rw [step.skipGap_eq, List.append_assoc, otherStep.skipGap_eq]
    exact ih alikeInner
  | @visible character rest notBlank noComment =>
    cases alike
    rw [skipGap_cons_self notBlank noComment, List.cons_append, skipGap_cons_self notBlank]
    · exact .visible (character :: rest)
    · rintro ⟨others, split | split⟩
      all_goals
        injection split with isSlash split
        obtain ⟨more, rfl⟩ := exists_cons_of_append split (by decide)
      · exact noComment ⟨more, .inl (congrArg (· :: _) isSlash)⟩
      · exact noComment ⟨more, .inr (congrArg (· :: _) isSlash)⟩
  | atEnd mode =>
    cases alike with
    | blanks =>
      rw [List.nil_append, skipGap_text]
      exact .visible []
    | lineComment =>
      cases ending with
      | nil => exact .visible []
      | cons mark others =>
        change Skipped _ _ (skipGap .blanks (marks _))
        rw [skipGap_marks]
        exact .visible []
    | comment opening =>
      rw [List.nil_append, skipGap_comment_text]
      exact .unclosed _ _

/-- A gap in front of a place of a text ends there with every ending. -/
theorem exists_behind_of_skipGap {rest : List Char}
    (skipped : skipGap .blanks (common ++ ending.text) = .ok rest) :
    ∃ seen, skipGap .blanks common = .ok seen ∧ rest = ending.behind seen ∧
      ∀ other : Ending, skipGap .blanks (common ++ other.text) = .ok (other.behind seen) := by
  have here := ending.skipped_skipGap .blanks common
  have there (other : Ending) := other.skipped_skipGap .blanks common
  rw [skipped] at here
  generalize gap : skipGap .blanks common = outcome at here there
  cases here with
  | visible seen =>
    refine ⟨seen, rfl, rfl, fun other => ?_⟩
    have same := there other
    generalize skipGap .blanks (common ++ other.text) = result at same ⊢
    cases same
    rfl

/-! ## Tokens -/

theorem mem_text {character : Char} (member : character ∈ ending.text) :
    character = '\n' ∨ ∃ mark : ClosingMark, character = mark.character := by
  cases ending with
  | nil => cases member
  | cons mark others =>
    rcases List.mem_cons.mp member with isLine | isMark
    · exact Or.inl isLine
    · obtain ⟨found, -, same⟩ := List.mem_map.mp isMark
      exact Or.inr ⟨found, same.symm⟩

/-- A token in front of an ending takes nothing of it. -/
theorem exists_split_of_spelled {word left : List Char} {token : Token}
    (spelled : Spelled word token) (nonempty : common ≠ [])
    (split : common ++ ending.text = word ++ left) :
    ∃ rest, common = word ++ rest ∧ left = rest ++ ending.text := by
  rw [List.append_eq_append_iff] at split
  rcases split with ⟨taken, isWord, isText⟩ | split
  · cases taken with
    | nil =>
      rw [List.append_nil] at isWord
      refine ⟨[], by rw [isWord, List.append_nil], ?_⟩
      exact isText.symm
    | cons next taken =>
      exfalso
      have isLine : next = '\n' := by
        cases ending with
        | nil => cases isText
        | cons => exact (List.cons.inj isText).1.symm
      subst isLine
      have inWord : '\n' ∈ word := by
        rw [isWord]
        exact List.mem_append_right _ List.mem_cons_self
      cases spelled with
      | number numeral =>
        rcases isDigit_or_point_of_spanNumber numeral.2 _ inWord with digit | point
        · exact absurd digit (by decide)
        · exact absurd point (by decide)
      | word spelled => exact absurd (isNameChar_of_mem_word spelled inWord) (by decide)
      | @quoted inner value closed =>
        -- the closing quote would have to be in the ending
        have isLast := congrArg List.getLast? isWord
        rw [List.getLast?_append, List.getLast?_append] at isLast
        have member := List.mem_of_getLast? (a := '"') (l := '\n' :: taken) (by
          cases last : ('\n' :: taken).getLast? with
          | none => cases List.getLast?_eq_none_iff.mp last
          | some found =>
            rw [last] at isLast
            exact isLast.symm)
        have inText : '"' ∈ ending.text := by
          rw [isText]
          exact List.mem_append_left _ member
        rcases mem_text inText with isLine | ⟨mark, isMark⟩
        · cases isLine
        · exact mark.character_ne_quote isMark.symm
      | single =>
        cases common with
        | nil => exact nonempty rfl
        | cons first others => cases others <;> cases isWord
      | @pair first second mark pair =>
        have isSecond : second = '\n' := by
          cases common with
          | nil => exact absurd rfl nonempty
          | cons first others =>
            cases others with
            | nil => cases isWord; rfl
            | cons second others => cases others <;> cases isWord
        subst isSecond
        rw [ofPair?_eq_none_of_isBlank (by decide)] at pair
        cases pair
  · obtain ⟨rest, sameWord, sameLeft⟩ := split
    exact ⟨rest, sameWord, sameLeft⟩

theorem startsWithLetter_append (first second : Ending) (common : List Char) :
    startsWithLetter (common ++ first.text) = startsWithLetter (common ++ second.text) := by
  cases common with
  | cons => rfl
  | nil => cases first <;> cases second <;> rfl

/-- Endings end a token in the same way. -/
theorem endsLike_append (first second : Ending) (common : List Char) :
    EndsLike (common ++ first.text) (common ++ second.text) := by
  cases common with
  | cons character rest => exact .same rfl fun _ => startsWithLetter_append second first rest
  | nil =>
    cases second with
    | nil => exact .done
    | cons mark others => exact .blank (by decide) _

/-- A token in front of one ending stands in front of every ending. -/
theorem exists_word_of_readToken {left : List Char} {token : Token} (nonempty : common ≠ [])
    (visible : skipGap .blanks (ending.behind common) = .ok (ending.behind common))
    (read : readToken (ending.behind common) = (.ok token, left)) :
    ∃ word rest, Spelled word token ∧ common = word ++ rest ∧ left = rest ++ ending.text ∧
      ∀ other : Ending, readToken (other.behind common) = (.ok token, rest ++ other.text) := by
  obtain ⟨word, split, spelled⟩ : ∃ word, ending.behind common = word ++ left ∧
      Spelled word token := by
    cases common with
    | nil => exact absurd rfl nonempty
    | cons => exact exists_spelled read
  rw [behind_of_ne_nil _ nonempty] at split visible read
  obtain ⟨rest, rfl, rfl⟩ := exists_split_of_spelled spelled nonempty split
  have begun : Begins word token (rest ++ ending.text) := by
    rw [List.append_assoc] at visible read
    exact ⟨spelled.ne_nil, visible, read⟩
  refine ⟨word, rest, spelled, rfl, rfl, fun other => ?_⟩
  rw [behind_of_ne_nil _ nonempty, List.append_assoc]
  exact (begun.of_endsLike (endsLike_append ending other rest)).reads

end Ending

end EventScript
