import EventScript.Proofs.Lexing.Tokens

/-!
# What tokens depend on

A token depends on its own spelling and, of the text behind it, on the next
character alone, or on two where a number is followed by a point.  A gap in
front of a token depends on nothing behind it.  So both can be put in front of
another text that begins alike.
-/

namespace EventScript

variable {character : Char} {opening rest text other : List Char} {mode : Gap} {token : Token}

/-! ## Gaps -/

theorem skipGap_lineComment_cons (character : Char) (rest : List Char) :
    skipGap .lineComment (character :: rest) =
      if character == '\n' then skipGap .blanks rest else skipGap .lineComment rest :=
  rfl

/-- A comment goes on behind a character that does not begin its closing mark. -/
theorem skipGap_comment_cons (inside : ∀ behind, character = '*' → rest = '/' :: behind → False) :
    skipGap (.comment opening) (character :: rest) = skipGap (.comment opening) rest := by
  generalize begins : character :: rest = text
  generalize inComment : Gap.comment opening = gap
  fun_cases skipGap gap text with
  | case7 _ others =>
    cases begins
    exact absurd rfl (inside others rfl)
  | case8 =>
    cases begins
    rfl
  | case9 => cases begins
  | case1 | case2 | case3 | case4 | case5 | case6 => cases inComment
  | case10 => cases begins

namespace Gap

variable {inner : Gap} {word front : List Char}

/-- One step over a gap: over a mark of a comment or over one character, in front
of a text. -/
inductive Step : Gap → List Char → List Char → Gap → Prop
  | openLine (rest : List Char) : Step .blanks ['/', '/'] rest .lineComment
  | openComment (rest : List Char) :
      Step .blanks ['/', '*'] rest (.comment ('/' :: '*' :: rest))
  | blank {character : Char} (isBlank : Text.isBlank character = true) (rest : List Char) :
      Step .blanks [character] rest .blanks
  | closeLine (rest : List Char) : Step .lineComment ['\n'] rest .blanks
  | inLine {character : Char} (inside : character ≠ '\n') (rest : List Char) :
      Step .lineComment [character] rest .lineComment
  | closeComment (opening rest : List Char) : Step (.comment opening) ['*', '/'] rest .blanks
  | inComment (opening : List Char) {character : Char} {rest : List Char}
      (inside : ∀ behind, character = '*' → rest = '/' :: behind → False) :
      Step (.comment opening) [character] rest (.comment opening)

theorem Step.skipGap_eq (step : Step mode word rest inner) :
    skipGap mode (word ++ rest) = skipGap inner rest := by
  cases step with
  | openLine | openComment | closeLine | closeComment => rfl
  | blank isBlank => exact skipGap_cons_of_isBlank isBlank rest
  | inLine inside => exact if_neg (by simpa using inside)
  | inComment _ inside => exact skipGap_comment_cons inside

/-- A gap is skipped step by step, up to a character that is kept or to the end. -/
theorem induction {motive : Gap → List Char → Prop}
    (step : ∀ {mode inner : Gap} {word rest : List Char}, Step mode word rest inner →
      motive inner rest → motive mode (word ++ rest))
    (visible : ∀ {character : Char} {rest : List Char}, Text.isBlank character = false →
      ¬StartsComment (character :: rest) → motive .blanks (character :: rest))
    (atEnd : ∀ mode, motive mode []) (mode : Gap) (text : List Char) : motive mode text := by
  fun_induction skipGap mode text with
  | case1 rest ih => exact step (.openLine rest) ih
  | case2 rest ih => exact step (.openComment rest) ih
  | case3 character rest _ _ isBlank ih => exact step (.blank isBlank rest) ih
  | case4 character rest noLine noComment notBlank =>
    refine visible (by simpa using notBlank) ?_
    rintro ⟨others, begins | begins⟩
    · exact noLine others (List.cons.inj begins).1 (List.cons.inj begins).2
    · exact noComment others (List.cons.inj begins).1 (List.cons.inj begins).2
  | case5 character rest lineEnd ih =>
    rw [beq_iff_eq.mp lineEnd]
    exact step (.closeLine rest) ih
  | case6 character rest inside ih => exact step (.inLine (by simpa using inside) rest) ih
  | case7 opening rest ih => exact step (.closeComment opening rest) ih
  | case8 opening character rest inside ih => exact step (.inComment opening inside) ih
  | case9 | case10 => exact atEnd _

/-- Two places in gaps of the same kind. -/
inductive Alike : Gap → Gap → Prop
  | blanks : Alike .blanks .blanks
  | lineComment : Alike .lineComment .lineComment
  | comment (opening other : List Char) : Alike (.comment opening) (.comment other)

/-- A step is made from every place alike in front of every text that does not
close a comment. -/
theorem Step.exists_alike {otherMode : Gap} (step : Step mode word rest inner)
    (alike : mode.Alike otherMode) (other : List Char)
    (closes : ∀ opening, inner = .comment opening → ∀ behind, other = '/' :: behind →
      ∃ others, rest = '/' :: others) :
    ∃ otherInner, inner.Alike otherInner ∧ Step otherMode word other otherInner := by
  cases step with
  | openLine =>
    cases alike
    exact ⟨_, .lineComment, .openLine other⟩
  | openComment =>
    cases alike
    exact ⟨_, .comment _ _, .openComment other⟩
  | blank isBlank =>
    cases alike
    exact ⟨_, .blanks, .blank isBlank other⟩
  | closeLine =>
    cases alike
    exact ⟨_, .blanks, .closeLine other⟩
  | inLine inside =>
    cases alike
    exact ⟨_, .lineComment, .inLine inside other⟩
  | closeComment =>
    cases alike
    exact ⟨_, .blanks, .closeComment _ other⟩
  | inComment _ inside =>
    cases alike
    refine ⟨_, .comment _ _, .inComment _ fun behind isStar begins => ?_⟩
    obtain ⟨others, begins⟩ := closes _ rfl behind begins
    exact inside others isStar begins

/-- A text that leads from a place in a gap to the end of the gap, whatever
follows. -/
def Passes (mode : Gap) (text : List Char) : Prop :=
  ∀ other, mode.Alike other →
    ∀ behind, skipGap other (text ++ behind) = skipGap .blanks behind

theorem passes_nil : Passes .blanks [] := by
  rintro _ ⟨⟩ behind
  rfl

/-- A step in front of a text that leads to the end of the gap. -/
theorem Step.passes (step : Step mode word (front ++ rest) inner) (passes : inner.Passes front) :
    mode.Passes (word ++ front) := by
  intro otherMode alike behind
  obtain ⟨otherInner, alikeInner, otherStep⟩ :
      ∃ otherInner, inner.Alike otherInner ∧ Step otherMode word (front ++ behind) otherInner := by
    refine step.exists_alike alike _ ?_
    rintro opening rfl more begins
    cases front with
    | nil =>
      -- a comment is not over without its closing mark
      cases passes _ (.comment opening opening) []
    | cons first others => exact ⟨others ++ rest, congrArg (· :: _) (List.cons.inj begins).1⟩
  rw [List.append_assoc, otherStep.skipGap_eq]
  exact passes _ alikeInner behind

end Gap

/-- A text that is skipped whatever follows it. -/
abbrev IsGap (gap : List Char) : Prop :=
  Gap.Passes .blanks gap

theorem isGap_singleton (isBlank : Text.isBlank character = true) : IsGap [character] := by
  rintro _ ⟨⟩ behind
  exact skipGap_cons_of_isBlank isBlank behind

open Gap in
/-- Where a gap ends in front of a token, its end does not depend on what
follows. -/
theorem exists_passes_of_ok (skipped : skipGap mode text = .ok rest) (nonempty : rest ≠ []) :
    ∃ gap, text = gap ++ rest ∧ mode.Passes gap := by
  induction mode, text using Gap.induction with
  | step step ih =>
    obtain ⟨gap, rfl, passes⟩ := ih (step.skipGap_eq.symm.trans skipped)
    exact ⟨_, (List.append_assoc ..).symm, step.passes passes⟩
  | visible notBlank noComment =>
    cases (skipGap_cons_self notBlank noComment).symm.trans skipped
    exact ⟨[], rfl, passes_nil⟩
  | atEnd mode =>
    cases mode <;> cases skipped
    all_goals exact absurd rfl nonempty

open Gap in
/-- A comment that is never closed is the one that is open, or begins behind a
gap. -/
theorem exists_passes_of_error (skipped : skipGap mode text = .error opening) :
    mode = .comment opening ∨ ∃ gap inside, text = gap ++ opening ∧ mode.Passes gap ∧
      opening = '/' :: '*' :: inside ∧ skipGap .blanks opening = .error opening := by
  induction mode, text using Gap.induction with
  | step step ih =>
    rcases ih (step.skipGap_eq.symm.trans skipped) with
      rfl | ⟨gap, inside, rfl, passes, begins, unclosed⟩
    · cases step with
      | openComment => exact .inr ⟨[], _, rfl, passes_nil, rfl, skipped⟩
      | inComment => exact .inl rfl
    · exact .inr ⟨_, inside, (List.append_assoc ..).symm, step.passes passes, begins, unclosed⟩
  | visible notBlank noComment => cases (skipGap_cons_self notBlank noComment).symm.trans skipped
  | atEnd mode =>
    cases mode <;> cases skipped
    exact .inl rfl

theorem exists_isGap_of_error (skipped : skipGap .blanks text = .error opening) :
    ∃ gap inside, text = gap ++ opening ∧ IsGap gap ∧ opening = '/' :: '*' :: inside ∧
      skipGap .blanks opening = .error opening :=
  (exists_passes_of_error skipped).resolve_left nofun

theorem exists_isGap (skipped : skipGap .blanks text = .ok rest) (nonempty : rest ≠ []) :
    ∃ gap, text = gap ++ rest ∧ IsGap gap :=
  exists_passes_of_ok skipped nonempty

/-- What remains behind a gap does not begin with one. -/
theorem skipGap_of_skipGap (skipped : skipGap mode text = .ok rest) :
    skipGap .blanks rest = .ok rest := by
  by_cases nonempty : rest = []
  · rw [nonempty]
    rfl
  · obtain ⟨gap, rfl, passes⟩ := exists_passes_of_ok skipped nonempty
    rw [← passes mode (by cases mode <;> constructor) rest]
    exact skipped

/-! ## Tokens -/

/-- The text in front of what remains is that of a token. -/
inductive Spelled : List Char → Token → Prop
  | number {word : List Char} (numeral : IsNumeral word) :
      Spelled word (.number (String.ofList word))
  | word {word : List Char} (spelled : isWord word = true) :
      Spelled word (.ofWord (String.ofList word))
  | quoted {inner value : List Char}
      (closed : ∀ rest, readQuoted (inner ++ '"' :: rest) = some (value, rest)) :
      Spelled ('"' :: inner ++ ['"']) (.text (String.ofList value))
  | single {character : Char} {mark : Symbol} (single : Symbol.ofChar? character = some mark) :
      Spelled [character] (.symbol mark)
  | pair {first second : Char} {mark : Symbol} (pair : Symbol.ofPair? first second = some mark) :
      Spelled [first, second] (.symbol mark)

theorem Spelled.ne_nil {word : List Char} (spelled : Spelled word token) : word ≠ [] := by
  rintro rfl
  generalize empty : ([] : List Char) = word at spelled
  cases spelled with
  | number numeral =>
    subst empty
    cases numeral.1
  | word spelled =>
    subst empty
    cases spelled
  | quoted | single | pair => cases empty

theorem Spelled.name {word : List Char} {spelling : String} (spelled : Spelled word (.name spelling)) :
    word = spelling.toList ∧ IsName spelling := by
  generalize isName : Token.name spelling = token at spelled
  cases spelled with
  | word spelled =>
    have valid := Token.valid_ofWord spelled
    unfold Token.ofWord at isName
    split at isName
    · cases isName
    · cases isName
      rename_i noKeyword
      rw [Token.ofWord, noKeyword] at valid
      exact ⟨String.toList_ofList.symm, valid⟩
  | _ => cases isName

/-- A quoted text is read up to its closing quote, whatever follows. -/
theorem exists_readQuoted_append {value : List Char} (read : readQuoted text = some (value, rest)) :
    ∃ inner, text = inner ++ '"' :: rest ∧
      ∀ other, readQuoted (inner ++ '"' :: other) = some (value, other) := by
  fun_induction readQuoted text generalizing value with
  | case1 => cases read
  | case2 others =>
    cases read
    exact ⟨[], rfl, fun _ => rfl⟩
  | case3 character others ih =>
    obtain ⟨inner, readInner, rfl⟩ := exists_of_map_fst read
    obtain ⟨front, rfl, closed⟩ := ih readInner
    refine ⟨'\\' :: character :: front, rfl, fun other => ?_⟩
    rw [List.cons_append, List.cons_append, readQuoted, closed]
    rfl
  | case4 character others notQuote notEscape ih =>
    obtain ⟨inner, readInner, rfl⟩ := exists_of_map_fst read
    obtain ⟨front, rfl, closed⟩ := ih readInner
    refine ⟨character :: front, rfl, fun other => ?_⟩
    rw [List.cons_append, readQuoted, closed]
    · rfl
    · exact notQuote
    · intro _ _ isBackslash _
      cases front with
      | nil => exact notEscape '"' _ isBackslash rfl
      | cons escaped front => exact notEscape escaped _ isBackslash rfl

theorem exists_spelled_symbol {mark : Symbol} (read : readSymbol character text = some (mark, rest)) :
    ∃ word, character :: text = word ++ rest ∧ Spelled word (.symbol mark) := by
  unfold readSymbol at read
  split at read
  · obtain ⟨_, isMark, same⟩ := Option.map_eq_some_iff.mp read
    cases same
    exact ⟨[character], rfl, .single isMark⟩
  · split at read
    · rename_i isPair
      cases read
      exact ⟨[character, _], rfl, .pair isPair⟩
    · obtain ⟨_, isMark, same⟩ := Option.map_eq_some_iff.mp read
      cases same
      exact ⟨[character], rfl, .single isMark⟩

/-- Every token that is read is spelled by what is read of the text. -/
theorem exists_spelled (read : readToken (character :: text) = (.ok token, rest)) :
    ∃ word, character :: text = word ++ rest ∧ Spelled word token := by
  have valid := (readToken_split read).2 token rfl
  rw [readToken] at read
  split at read
  · obtain ⟨isNumber, rfl⟩ := Prod.mk.inj read
    cases isNumber
    change IsNumeral _ at valid
    rw [String.toList_ofList] at valid
    exact ⟨_, (spanNumber_split rfl).1, .number valid⟩
  · split at read
    · rename_i start
      obtain ⟨isWord, rfl⟩ := Prod.mk.inj read
      cases isWord
      exact ⟨_, (List.takeWhile_append_dropWhile).symm, .word (isWord_takeWhile start text)⟩
    · split at read
      · rename_i isQuote
        rw [beq_iff_eq] at isQuote
        split at read
        · rename_i value left readInner
          obtain ⟨isText, rfl⟩ := Prod.mk.inj read
          cases isText
          obtain ⟨inner, rfl, closed⟩ := exists_readQuoted_append readInner
          rw [isQuote]
          exact ⟨'"' :: inner ++ ['"'], by simp, .quoted closed⟩
        · cases read
      · split at read
        · rename_i mark left readMark
          obtain ⟨isSymbol, rfl⟩ := Prod.mk.inj read
          cases isSymbol
          exact exists_spelled_symbol readMark
        · cases read

theorem Begins.spelled {word : List Char} (begun : Begins word token rest) :
    Spelled word token := by
  obtain ⟨nonempty, -, reads⟩ := begun
  cases word with
  | nil => exact absurd rfl nonempty
  | cons character others =>
    rw [List.cons_append] at reads
    obtain ⟨word, split, spelled⟩ := exists_spelled reads
    rw [← List.cons_append, List.append_left_inj] at split
    rwa [split]

/-! ## Texts behind tokens -/

/-- A text that cannot go on with a token that another text does not go on
with: it is empty, begins with a blank, or begins like the other.  Behind a
point it also matters whether a letter comes. -/
inductive EndsLike (rest : List Char) : List Char → Prop
  | done : EndsLike rest []
  | blank {character : Char} (isBlank : Text.isBlank character = true) (others : List Char) :
      EndsLike rest (character :: others)
  | same {character : Char} {more others : List Char} (split : rest = character :: more)
      (letters : character = '.' → startsWithLetter others = startsWithLetter more) :
      EndsLike rest (character :: others)

theorem EndsLike.forall_head (ends : EndsLike rest other) {property : Char → Prop}
    (ofBlank : ∀ character, Text.isBlank character = true →
      property character) (ofRest : ∀ character ∈ rest.head?, property character) :
    ∀ character ∈ other.head?, property character := by
  cases ends with
  | done =>
    rintro _ ⟨⟩
  | blank isBlank others =>
    rintro _ ⟨rfl⟩
    exact ofBlank _ isBlank
  | same split letters =>
    subst split
    exact ofRest

theorem isNameChar_eq_false_of_isBlank (isBlank : Text.isBlank character = true) :
    isNameChar character = false := by
  rw [Bool.eq_false_iff]
  intro named
  rw [isBlank_eq_false_of_isNameChar named] at isBlank
  cases isBlank

theorem ofPair?_eq_none_of_isBlank {first second : Char} (isBlank : Text.isBlank second = true) :
    Symbol.ofPair? first second = none := by
  unfold Symbol.ofPair?
  split
  all_goals first | rfl | exact absurd isBlank (by decide)

/-- A number ends in front of a text that begins alike. -/
theorem spanNumber_of_endsLike {pointSeen : Bool} {number : List Char}
    (split : spanNumber pointSeen (number ++ rest) = (number, rest)) (ends : EndsLike rest other) :
    spanNumber pointSeen (number ++ other) = (number, other) := by
  have alone := (spanNumber_split split).2
  cases ends with
  | done => exact spanNumber_append alone (stops_nil _)
  | blank isBlank others =>
    apply spanNumber_append alone
    rw [stops_cons, continuesNumber, isNameChar_eq_false_of_isBlank isBlank, Bool.false_or,
      beq_eq_false_iff_ne]
    rintro rfl
    exact absurd isBlank (by decide)
  | @same character more others begins letters =>
    subst begins
    have samePoint (seen : Bool) : (character == '.' && !seen && !startsWithLetter others) =
        (character == '.' && !seen && !startsWithLetter more) := by
      by_cases isPoint : character = '.'
      · rw [letters isPoint]
      · rw [beq_eq_false_iff_ne.mpr isPoint]
        rfl
    have sameLetter (number : List Char) : startsWithLetter (number ++ character :: others) =
        startsWithLetter (number ++ character :: more) := by
      cases number <;> rfl
    clear alone
    induction number generalizing pointSeen with
    | nil =>
      rw [List.nil_append, spanNumber] at split ⊢
      rw [samePoint]
      by_cases digit : character.isDigit = true
      · rw [if_pos digit] at split
        cases congrArg Prod.fst split
      · rw [if_neg digit] at split ⊢
        by_cases point : (character == '.' && !pointSeen && !startsWithLetter more) = true
        · rw [if_pos point] at split
          cases congrArg Prod.fst split
        · rw [if_neg point]
    | cons first number ih =>
      have inner (seen : Bool) (taken : (first :: (spanNumber seen (number ++ character :: more)).1,
            (spanNumber seen (number ++ character :: more)).2) =
          (first :: number, character :: more)) :
          spanNumber seen (number ++ character :: others) = (number, character :: others) := by
        obtain ⟨sameNumber, sameRest⟩ := Prod.mk.inj taken
        injection sameNumber with _ sameNumber
        exact ih (Prod.ext sameNumber sameRest)
      rw [List.cons_append, spanNumber] at split ⊢
      rw [sameLetter]
      by_cases digit : first.isDigit = true
      · rw [if_pos digit] at split ⊢
        rw [inner _ split]
      · rw [if_neg digit] at split ⊢
        by_cases point : (first == '.' && !pointSeen &&
            !startsWithLetter (number ++ character :: more)) = true
        · rw [if_pos point] at split ⊢
          rw [inner _ split]
        · rw [if_neg point] at split
          cases congrArg Prod.fst split

theorem spanNumber_of_readToken {spelling : String}
    (read : readToken text = (.ok (.number spelling), rest)) :
    spanNumber false text = (spelling.toList, rest) := by
  cases text with
  | nil => cases read
  | cons character others =>
    rw [readToken] at read
    split at read
    · generalize spanNumber false (character :: others) = spanned at read ⊢
      cases read
      rw [String.toList_ofList]
    · split at read
      · have isWord := (Prod.mk.inj read).1
        unfold Token.ofWord at isWord
        split at isWord <;> cases isWord
      · split at read
        · split at read <;> cases read
        · split at read <;> cases read

theorem startsWithDigit_eq_false_iff : startsWithDigit text = false ↔ Stops Char.isDigit text := by
  cases text with
  | nil => simp [startsWithDigit, stops_nil]
  | cons => simp [startsWithDigit]

theorem startsComment_cons_iff :
    StartsComment (character :: rest) ↔
      character = '/' ∧ ∃ second ∈ rest.head?, second = '/' ∨ second = '*' := by
  constructor
  · rintro ⟨others, same | same⟩
    · cases same
      exact ⟨rfl, '/', rfl, Or.inl rfl⟩
    · cases same
      exact ⟨rfl, '*', rfl, Or.inr rfl⟩
  · rintro ⟨rfl, second, isSecond, isMark⟩
    cases rest with
    | nil => cases isSecond
    | cons next others =>
      cases isSecond
      rcases isMark with rfl | rfl
      · exact ⟨others, Or.inl rfl⟩
      · exact ⟨others, Or.inr rfl⟩

/-- What follows a word does not go on with it. -/
theorem stops_of_readToken {word : List Char} {outcome : Except Fault Token}
    (spelled : isWord word = true) (read : readToken (word ++ rest) = (outcome, rest)) :
    Stops isNameChar rest := by
  cases word with
  | nil => cases spelled
  | cons character others =>
    have start : isNameStart character = true := by
      rw [isWord, Bool.and_eq_true] at spelled
      exact spelled.1
    have notPoint : character ≠ '.' :=
      ne_of_isNameChar (isNameChar_of_isNameStart start) (by decide)
    rw [List.cons_append, readToken, if_neg, if_pos start] at read
    · obtain ⟨-, dropped⟩ := Prod.mk.inj read
      rw [← dropped]
      intro next isNext
      have stopped := List.head?_dropWhile_not isNameChar (character :: (others ++ rest))
      rw [Option.mem_def] at isNext
      rw [isNext] at stopped
      exact stopped
    · simp [isDigit_eq_false_of_isNameStart start, notPoint]

theorem not_startsComment_of_visible (visible : skipGap .blanks text = .ok text) :
    ¬StartsComment text := by
  rintro ⟨rest, rfl | rfl⟩
  · have skipped : skipGap .lineComment rest = .ok ('/' :: '/' :: rest) := visible
    have shorter := (isSuffix_of_skipGap skipped).length_le
    rw [List.length_cons, List.length_cons] at shorter
    omega
  · have skipped : skipGap (.comment ('/' :: '*' :: rest)) rest = .ok ('/' :: '*' :: rest) :=
      visible
    have shorter := (isSuffix_of_skipGap skipped).length_le
    rw [List.length_cons, List.length_cons] at shorter
    omega

/-- What follows a symbol does not go on with it. -/
theorem alone_of_readToken {mark : Symbol} (single : Symbol.ofChar? character = some mark)
    (read : readToken (character :: rest) = (.ok (.symbol mark), rest)) :
    (∀ second ∈ rest.head?, Symbol.ofPair? character second = none) ∧
      (character = '.' → startsWithDigit rest = false) := by
  obtain ⟨notDigit, notName, notQuote, -⟩ := not_other_of_ofChar? (Option.isSome_of_eq_some single)
  rw [readToken] at read
  split at read
  · cases read
  · rename_i notNumber
    rw [if_neg (by simp [notName]), if_neg (by simp [notQuote])] at read
    constructor
    · intro second isSecond
      cases rest with
      | nil => cases isSecond
      | cons next others =>
        cases isSecond
        cases isPair : Symbol.ofPair? character second with
        | none => rfl
        | some longer =>
          rw [readSymbol_pair isPair] at read
          have shorter := congrArg (fun outcome => outcome.2.length) read
          simp at shorter
    · rintro rfl
      simpa using notNumber

/-- A quoted text ends with its quote, whatever follows. -/
theorem begins_quoted {inner value : List Char}
    (closed : ∀ rest, readQuoted (inner ++ '"' :: rest) = some (value, rest)) (rest : List Char) :
    Begins ('"' :: inner ++ ['"']) (.text (String.ofList value)) rest := by
  constructor
  case nonempty => exact List.cons_ne_nil _ _
  case visible => exact skipGap_cons_self (by decide) (not_startsComment (by decide) _)
  case reads =>
    rw [List.append_assoc]
    exact readToken_quoted (closed rest)

/-- A token in front of another text that does not go on with it. -/
theorem Begins.of_endsLike {word : List Char} (begun : Begins word token rest)
    (ends : EndsLike rest other) : Begins word token other := by
  have reads := begun.reads
  cases begun.spelled with
  | number numeral =>
    have split := spanNumber_of_readToken reads
    rw [String.toList_ofList] at split
    exact begins_numeral numeral (spanNumber_of_endsLike split ends)
  | word spelled =>
    have stops := stops_of_readToken spelled reads
    exact begins_word spelled
      (ends.forall_head (fun _ => isNameChar_eq_false_of_isBlank) stops)
  | quoted closed => exact begins_quoted closed other
  | @single character mark single =>
    obtain ⟨alone, notNumber⟩ := alone_of_readToken single reads
    apply begins_symbol single
    · exact ends.forall_head (fun _ => ofPair?_eq_none_of_isBlank) alone
    · intro isPoint
      rw [startsWithDigit_eq_false_iff]
      refine ends.forall_head ?_ ?_
      · intro blank isBlank
        rw [Bool.eq_false_iff]
        intro digit
        have named := (isNameChar_iff blank).mpr (Or.inr digit)
        rw [isNameChar_eq_false_of_isBlank isBlank] at named
        cases named
      · exact startsWithDigit_eq_false_iff.mp (notNumber isPoint)
    · rw [startsComment_cons_iff]
      rintro ⟨isSlash, second, isSecond, isMark⟩
      have noMark : ∀ next ∈ other.head?, ¬(next = '/' ∨ next = '*') := by
        refine ends.forall_head ?_ ?_
        · rintro _ isBlank (rfl | rfl)
          · exact absurd isBlank (by decide)
          · exact absurd isBlank (by decide)
        · intro next isNext alsoMark
          apply not_startsComment_of_visible begun.visible
          exact startsComment_cons_iff.mpr ⟨isSlash, next, isNext, alsoMark⟩
      exact noMark second isSecond isMark
  | pair pair => exact begins_pair pair other

/-! ## Marks that keep tokens apart -/

/-- Characters that go on with no token and begin one of their own. -/
def isSeparator (character : Char) : Bool :=
  ['(', ')', '[', ']', '{', '}', ',', ';'].contains character

theorem eq_of_isSeparator (separates : isSeparator character = true) :
    character = '(' ∨ character = ')' ∨ character = '[' ∨ character = ']' ∨ character = '{' ∨
      character = '}' ∨ character = ',' ∨ character = ';' := by
  simpa [isSeparator] using separates

theorem Begins.of_separator {word : List Char} (begun : Begins word token rest)
    (separates : isSeparator character = true) (others : List Char) :
    Begins word token (character :: others) := by
  have isMark := eq_of_isSeparator separates
  have noName : isNameChar character = false := by
    rcases isMark with rfl | rfl | rfl | rfl | rfl | rfl | rfl | rfl <;> decide
  cases begun.spelled with
  | number numeral =>
    refine begins_number numeral ?_
    rw [stops_cons, continuesNumber, noName]
    rcases isMark with rfl | rfl | rfl | rfl | rfl | rfl | rfl | rfl <;> rfl
  | word spelled => exact begins_word spelled (by rw [stops_cons, noName])
  | quoted closed => exact begins_quoted closed _
  | @single first mark single =>
    apply begins_symbol single
    · rintro _ ⟨rfl⟩
      unfold Symbol.ofPair?
      split
      all_goals first | rfl | simp at isMark
    · intro _
      rcases isMark with rfl | rfl | rfl | rfl | rfl | rfl | rfl | rfl <;> rfl
    · rw [startsComment_cons_iff]
      rintro ⟨-, _, ⟨rfl⟩, rfl | rfl⟩ <;> simp at isMark
  | pair pair => exact begins_pair pair _

end EventScript
