import EventScript.Proofs.Lexing.Readers

/-!
# Texts and their tokens

`Lexes text tokens` says that a text reads without errors as a list of tokens.
It is built from the end: a token is put in front of a text with `Begins`,
which holds for every spelling of the token that what follows does not
continue, and blanks are put in front freely.  Conversely every token that is
read is spelled as its kind demands.
-/

namespace EventScript

variable {word text rest : List Char} {character : Char} {mark : Symbol} {tokens : List Token}

/-! ## The tokens that are read -/

/-- The spelling of a number or a name is one that a reader accepts. -/
def Token.Valid : Token → Prop
  | .number spelling => IsNumeral spelling.toList
  | .name spelling => IsName spelling
  | _ => True

theorem Token.valid_ofWord (spelled : isWord word = true) :
    (Token.ofWord (String.ofList word)).Valid := by
  unfold Token.ofWord
  split
  · trivial
  · rename_i noKeyword
    exact ⟨by rw [String.toList_ofList]; exact spelled, noKeyword⟩

theorem isWord_takeWhile (start : isNameStart character = true) (rest : List Char) :
    isWord ((character :: rest).takeWhile isNameChar) = true := by
  rw [List.takeWhile_cons_of_pos (isNameChar_of_isNameStart start), isWord, start,
    List.all_takeWhile]
  rfl

private theorem startsWithLetter_eq_false (digit : startsWithDigit text = true) :
    startsWithLetter text = false := by
  cases text with
  | nil => rfl
  | cons character others =>
    rw [startsWithDigit, isDigit_iff] at digit
    rw [startsWithLetter, Bool.eq_false_iff, ne_eq, isAlpha_iff]
    omega

private theorem startsNumber_take {number : List Char}
    (start : startsNumber (number ++ rest) = true)
    (spelled : spanNumber false number = (number, []))
    (whole : spanNumber false (number ++ rest) = (number, rest)) : startsNumber number = true := by
  cases number with
  | nil =>
    -- a text that begins with a number yields a number that is not empty
    cases rest with
    | nil => cases start
    | cons character others =>
      simp only [List.nil_append, startsNumber, Bool.or_eq_true, Bool.and_eq_true,
        beq_iff_eq] at start
      rcases start with digit | ⟨rfl, digit⟩
      · simp [spanNumber, digit] at whole
      · simp [spanNumber, startsWithLetter_eq_false digit] at whole
  | cons character others =>
    cases others with
    | cons next more => exact start
    | nil =>
      by_cases digit : character.isDigit = true
      · simp [startsNumber, digit]
      · -- a lone point would have to be followed by a digit, which belongs to the number
        simp only [List.cons_append, List.nil_append, startsNumber, digit, Bool.or_eq_true,
          Bool.and_eq_true, beq_iff_eq, false_or, Bool.false_eq_true] at start
        obtain ⟨rfl, digitNext⟩ := start
        cases rest with
        | nil => cases digitNext
        | cons next more =>
          have noLetter := startsWithLetter_eq_false digitNext
          rw [startsWithDigit] at digitNext
          simp [spanNumber, noLetter, digitNext, digit] at whole

/-- Every token that is read is spelled as its kind demands, and at least one
character is read. -/
theorem readToken_split {left : List Char} {outcome : Except Fault Token}
    (read : readToken (character :: text) = (outcome, left)) :
    left <:+ text ∧ ∀ token, outcome = .ok token → token.Valid := by
  rw [readToken] at read
  split at read
  · rename_i start
    obtain ⟨rfl, rfl⟩ := Prod.mk.inj read
    have whole : spanNumber false (character :: text) =
      ((spanNumber false (character :: text)).1, (spanNumber false (character :: text)).2) := rfl
    obtain ⟨split, spelled⟩ := spanNumber_split whole
    have begun : startsNumber (character :: text) = true := start
    rw [split] at begun
    have numeral := startsNumber_take begun spelled (by rw [← split])
    refine ⟨?_, ?_⟩
    · cases taken : (spanNumber false (character :: text)).1 with
      | nil =>
        rw [taken] at numeral
        cases numeral
      | cons first others =>
        rw [taken, List.cons_append, List.cons.injEq] at split
        exact ⟨others, split.2.symm⟩
    · rintro token ⟨rfl⟩
      change IsNumeral _
      rw [String.toList_ofList]
      exact ⟨numeral, spelled⟩
  · split at read
    · rename_i start
      obtain ⟨rfl, rfl⟩ := Prod.mk.inj read
      refine ⟨?_, ?_⟩
      · rw [List.dropWhile_cons_of_pos (isNameChar_of_isNameStart start)]
        exact List.dropWhile_suffix _
      · rintro token ⟨rfl⟩
        exact Token.valid_ofWord (isWord_takeWhile start text)
    · split at read
      · split at read
        · rename_i readInner
          obtain ⟨rfl, rfl⟩ := Prod.mk.inj read
          exact ⟨isSuffix_of_readQuoted readInner, by rintro token ⟨rfl⟩; trivial⟩
        · obtain ⟨rfl, rfl⟩ := Prod.mk.inj read
          exact ⟨List.nil_suffix, by rintro token ⟨⟩⟩
      · split at read
        · rename_i readMark
          obtain ⟨rfl, rfl⟩ := Prod.mk.inj read
          exact ⟨isSuffix_of_readSymbol readMark, by rintro token ⟨rfl⟩; trivial⟩
        · obtain ⟨rfl, rfl⟩ := Prod.mk.inj read
          exact ⟨List.suffix_refl _, by rintro token ⟨⟩⟩

theorem isSuffix_of_readToken (text : List Char) : (readToken text).2 <:+ text := by
  cases text with
  | nil => exact List.suffix_refl _
  | cons character rest => exact (readToken_split rfl).1.trans (List.suffix_cons _ _)

/-! ## Spellings of single tokens -/

/-- A text that begins with a token of a given spelling, right in front of
`rest`. -/
structure Begins (word : List Char) (token : Token) (rest : List Char) : Prop where
  nonempty : word ≠ []
  visible : skipGap .blanks (word ++ rest) = .ok (word ++ rest)
  reads : readToken (word ++ rest) = (.ok token, rest)

theorem not_startsComment (notSlash : character ≠ '/') (rest : List Char) :
    ¬StartsComment (character :: rest) := by
  rintro ⟨_, same | same⟩
  all_goals exact notSlash (List.cons.inj same).1

/-- A number in front of a text that the reader does not take for a part of
it. -/
theorem begins_numeral {number : List Char} (numeral : IsNumeral number)
    (split : spanNumber false (number ++ rest) = (number, rest)) :
    Begins number (.number (String.ofList number)) rest := by
  obtain ⟨start, -⟩ := numeral
  cases number with
  | nil => cases start
  | cons character others =>
    have startWhole :
        (character.isDigit || (character == '.' && startsWithDigit (others ++ rest))) = true := by
      cases others with
      | nil =>
        have digit : character.isDigit = true := by
          simpa [startsNumber, startsWithDigit] using start
        simp [digit]
      | cons next more => exact start
    refine ⟨by simp, ?_, ?_⟩
    · apply skipGap_cons_self
      · rcases Bool.or_eq_true _ _ |>.mp start with digit | point
        · exact isBlank_eq_false_of_isNameChar ((isNameChar_iff character).mpr (.inr digit))
        · rw [Bool.and_eq_true, beq_iff_eq] at point
          rw [point.1]
          decide
      · apply not_startsComment
        rintro rfl
        simp [startsNumber] at start
    · rw [List.cons_append, readToken, if_pos startWhole, ← List.cons_append, split]

theorem begins_number {number rest : List Char} (numeral : IsNumeral number)
    (ended : Stops continuesNumber rest) :
    Begins number (.number (String.ofList number)) rest :=
  begins_numeral numeral (spanNumber_append numeral.2 ended)

theorem begins_word (spelled : isWord word = true) (ended : Stops isNameChar rest) :
    Begins word (.ofWord (String.ofList word)) rest := by
  have taken := takeWhile_isNameChar spelled ended
  have dropped := dropWhile_isNameChar spelled ended
  cases word with
  | nil => cases spelled
  | cons character others =>
    have start : isNameStart character = true := by
      rw [isWord, Bool.and_eq_true] at spelled
      exact spelled.1
    have named := isNameChar_of_isNameStart start
    refine ⟨by simp, ?_, ?_⟩
    · exact skipGap_cons_self (isBlank_eq_false_of_isNameChar named)
        (not_startsComment (ne_of_isNameChar named (by decide)) _)
    · have notPoint : character ≠ '.' := ne_of_isNameChar named (by decide)
      rw [List.cons_append, readToken, if_neg, if_pos start, ← List.cons_append, taken, dropped]
      simp [isDigit_eq_false_of_isNameStart start, notPoint]

theorem begins_name {spelling : String} {rest : List Char} (named : IsName spelling)
    (ended : Stops isNameChar rest) : Begins spelling.toList (.name spelling) rest := by
  have begun := begins_word named.1 ended
  rwa [String.ofList_toList, Token.ofWord, named.2] at begun

theorem begins_keyword (word : Keyword) (ended : Stops isNameChar rest) :
    Begins word.spelling.toList (.keyword word) rest := by
  have spelled : isWord word.spelling.toList = true := by cases word <;> decide
  have found : Keyword.ofSpelling? word.spelling = some word := by cases word <;> decide
  have begun := begins_word spelled ended
  rwa [String.ofList_toList, Token.ofWord, found] at begun

/-- A quoted text is read from behind its opening quote. -/
theorem readToken_quoted {value left : List Char} (read : readQuoted text = some (value, left)) :
    readToken ('"' :: text) = (.ok (.text (String.ofList value)), left) := by
  simp [readToken, isNameStart, read]

theorem begins_quote (value : String) (rest : List Char) :
    Begins (Text.quote value).toList (.text value) rest := by
  have spelled : (Text.quote value).toList ++ rest =
      '"' :: (value.toList.flatMap Text.escape ++ '"' :: rest) := by
    simp [Text.quote, Text.quoteChars]
  refine ⟨by simp [Text.quote, Text.quoteChars], ?_, ?_⟩
  · rw [spelled]
    exact skipGap_cons_self (by decide) (not_startsComment (by decide) _)
  · rw [spelled, readToken_quoted (readQuoted_flatMap_escape value.toList rest),
      String.ofList_toList]

/-- The characters that begin symbols begin nothing else. -/
theorem not_other_of_ofChar? (isMark : (Symbol.ofChar? character).isSome = true) :
    character.isDigit = false ∧ isNameStart character = false ∧ (character == '"') = false ∧
      Text.isBlank character = false := by
  unfold Symbol.ofChar? at isMark
  split at isMark
  all_goals first | decide | cases isMark

private theorem isSome_ofChar?_of_ofPair? {first second : Char}
    (pair : Symbol.ofPair? first second = some mark) : (Symbol.ofChar? first).isSome = true := by
  unfold Symbol.ofPair? at pair
  split at pair
  all_goals first | rfl | cases pair

/-- A point in front of a digit begins a number. -/
private theorem begins_readSymbol (isMark : (Symbol.ofChar? character).isSome = true)
    (read : readSymbol character (word ++ rest) = some (mark, rest))
    (notNumber : character = '.' → startsWithDigit (word ++ rest) = false)
    (noComment : ¬StartsComment (character :: (word ++ rest))) :
    Begins (character :: word) (.symbol mark) rest := by
  obtain ⟨notDigit, notName, notQuote, visible⟩ := not_other_of_ofChar? isMark
  refine ⟨by simp, skipGap_cons_self visible noComment, ?_⟩
  have noNumber : ¬(character.isDigit ||
      (character == '.' && startsWithDigit (word ++ rest))) = true := by
    rw [notDigit, Bool.false_or, Bool.and_eq_true, beq_iff_eq]
    rintro ⟨isPoint, digit⟩
    rw [notNumber isPoint] at digit
    cases digit
  rw [List.cons_append, readToken, if_neg noNumber, if_neg (by simp [notName]),
    if_neg (by simp [notQuote]), read]

theorem begins_symbol (single : Symbol.ofChar? character = some mark)
    (alone : ∀ second ∈ rest.head?, Symbol.ofPair? character second = none)
    (notNumber : character = '.' → startsWithDigit rest = false)
    (noComment : ¬StartsComment (character :: rest)) : Begins [character] (.symbol mark) rest :=
  begins_readSymbol (by simp [single]) (readSymbol_single single alone) notNumber noComment

theorem begins_pair {first second : Char} (pair : Symbol.ofPair? first second = some mark)
    (rest : List Char) : Begins [first, second] (.symbol mark) rest := by
  refine begins_readSymbol (isSome_ofChar?_of_ofPair? pair) (readSymbol_pair pair rest) ?_ ?_
  · rintro rfl
    simp [Symbol.ofPair?] at pair
  · rintro ⟨_, same | same⟩
    all_goals
      cases same
      simp [Symbol.ofPair?] at pair

/-! ## Texts of several tokens -/

/-- A text reads without errors as a list of tokens. -/
inductive Lexes : List Char → List Token → Prop
  | done {text : List Char} (gap : skipGap .blanks text = .ok []) : Lexes text []
  | step {text rest left : List Char} {token : Token} {tokens : List Token}
      (gap : skipGap .blanks text = .ok rest) (nonempty : rest ≠ [])
      (read : readToken rest = (.ok token, left)) (others : Lexes left tokens) :
      Lexes text (token :: tokens)

theorem lexes_nil : Lexes [] [] :=
  .done rfl

/-- A token in front of a text that does not continue it. -/
theorem Begins.lexes {token : Token} (begun : Begins word token rest) (others : Lexes rest tokens) :
    Lexes (word ++ rest) (token :: tokens) :=
  .step begun.visible (by simp [begun.nonempty]) begun.reads others

/-- Blanks in front of a text do not matter. -/
theorem Lexes.blank (isBlank : Text.isBlank character = true) (lexed : Lexes text tokens) :
    Lexes (character :: text) tokens := by
  cases lexed with
  | done gap => exact .done (by rw [skipGap_cons_of_isBlank isBlank, gap])
  | step gap nonempty read others =>
    exact .step (by rw [skipGap_cons_of_isBlank isBlank, gap]) nonempty read others

theorem Lexes.blanks {gap : List Char} (allBlank : ∀ character ∈ gap, Text.isBlank character = true)
    (lexed : Lexes text tokens) : Lexes (gap ++ text) tokens := by
  induction gap with
  | nil => exact lexed
  | cons character others ih =>
    rw [List.forall_mem_cons] at allBlank
    exact (ih allBlank.2).blank allBlank.1

end EventScript
