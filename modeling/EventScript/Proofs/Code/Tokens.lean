import EventScript.Proofs.Lexing.Lookahead

/-!
# Tokens of generated code

Generated code has the tokens of scripts, the strict comparison `!==`, and
characters that scripts have no use for.  `codeTokens` reads them.  `ReadsAs`
says the same of a text whose gaps are complete: such texts can be joined as
long as the last token of the first is not continued by the second.
-/

namespace EventScript

variable {others word rest : List Char}

/-- One token of generated code. -/
inductive CodeToken where
  /-- A token that scripts have too. -/
  | shared (token : Token)
  /-- The strict comparison `!==`. -/
  | differs
  /-- A character that begins no token of scripts. -/
  | other (character : Char)
  deriving DecidableEq, Repr

/-- Read the token at the front of code that does not begin with a gap, and what
remains behind it. -/
def readCodeToken : List Char → Option (CodeToken × List Char)
  | '!' :: '=' :: '=' :: rest => some (.differs, rest)
  | text =>
    match readToken text with
    | (.ok token, rest) => some (.shared token, rest)
    | (.error (.unexpectedCharacter character), rest) => some (.other character, rest)
    | (.error _, _) => none

/-- Read tokens up to the end of the code.  The first argument bounds their
number. -/
def codeTokensUpTo : Nat → List Char → Option (List CodeToken)
  | 0, _ => none
  | bound + 1, text =>
    match skipGap .blanks text with
    | .error _ => none
    | .ok [] => some []
    | .ok rest => do
      let (token, left) ← readCodeToken rest
      return token :: (← codeTokensUpTo bound left)

/-- The tokens of code, unless a comment or a quoted text in it is never
closed. -/
def codeTokens (code : String) : Option (List CodeToken) :=
  codeTokensUpTo (code.toList.length + 1) code.toList

/-! ## Tokens of scripts in front of marks -/

/-- A point in front of a letter is no part of a number. -/
theorem spanNumber_append_point {pointSeen : Bool} {number : List Char}
    (spelled : spanNumber pointSeen number = (number, [])) (letter : startsWithLetter others = true) :
    spanNumber pointSeen (number ++ '.' :: others) = (number, '.' :: others) := by
  induction number generalizing pointSeen with
  | nil => simp [spanNumber, letter]
  | cons character number ih =>
    have sameLetter : startsWithLetter (number ++ '.' :: others) = startsWithLetter number := by
      cases number <;> rfl
    rw [spanNumber] at spelled
    rw [List.cons_append, spanNumber, sameLetter]
    split at spelled
    · next digit =>
      have inner : spanNumber pointSeen number = (number, []) := by
        simpa [Prod.ext_iff] using spelled
      rw [if_pos digit, ih inner]
    · next notDigit =>
      split at spelled
      · next point =>
        have inner : spanNumber true number = (number, []) := by
          simpa [Prod.ext_iff] using spelled
        rw [if_neg notDigit, if_pos point, ih inner]
      · simp at spelled

/-- Whether a token can be the last one of an operand. -/
def Token.endsOperand : Token → Bool
  | number _ => true
  | text _ => true
  | name _ => true
  | keyword _ => true
  | symbol .closeParen => true
  | symbol .closeBracket => true
  | symbol .closeBrace => true
  | _ => false

/-- The point of a member access is no part of what it accesses. -/
theorem Begins.of_member {token : Token} (begun : Begins word token rest)
    (ends : token.endsOperand = true) (letter : startsWithLetter others = true) :
    Begins word token ('.' :: others) := by
  cases begun.spelled with
  | number numeral => exact begins_numeral numeral (spanNumber_append_point numeral.2 letter)
  | word spelled => exact begins_word spelled (by rw [stops_cons]; decide)
  | quoted closed => exact begins_quoted closed _
  | @single first mark single =>
    have isClosing : first = ')' ∨ first = ']' ∨ first = '}' := by
      unfold Symbol.ofChar? at single
      split at single
      all_goals first
        | exact .inl rfl | exact .inr (.inl rfl) | exact .inr (.inr rfl) | cases single
      all_goals cases ends
    apply begins_symbol single
    · rintro _ ⟨rfl⟩
      rcases isClosing with rfl | rfl | rfl <;> rfl
    · rintro rfl
      simp at isClosing
    · rw [startsComment_cons_iff]
      rintro ⟨rfl, -⟩
      simp at isClosing
  | pair pair => exact begins_pair pair _

/-- Characters that are the second one of a symbol. -/
def continuesSymbol (character : Char) : Bool :=
  ['=', '+', '-', '<', '>', '&', '|'].contains character

/-- A symbol other than a point or a slash ends in front of a character that
continues no symbol. -/
theorem Begins.of_symbol {other : List Char} {mark : Symbol}
    (begun : Begins word (.symbol mark) rest) (notPoint : mark ≠ .dot) (notSlash : mark ≠ .slash)
    (ended : Stops continuesSymbol other) : Begins word (.symbol mark) other := by
  generalize isMark : Token.symbol mark = token at begun
  cases begun.spelled with
  | number => cases isMark
  | word spelled =>
    unfold Token.ofWord at isMark
    split at isMark <;> cases isMark
  | quoted => cases isMark
  | @single first mark single =>
    cases isMark
    apply begins_symbol single
    · intro second isSecond
      have noContinuation := ended second isSecond
      unfold Symbol.ofPair?
      split
      all_goals first | rfl | cases noContinuation
    · rintro rfl
      exact absurd (Option.some.inj single).symm notPoint
    · rw [startsComment_cons_iff]
      rintro ⟨rfl, -⟩
      exact notSlash (Option.some.inj single).symm
  | pair pair => exact begins_pair pair _

/-! ## Single tokens -/

namespace CodeToken

variable {character : Char}

/-- Code that begins with a token of a given spelling, right in front of
`rest`. -/
structure Begins (word : List Char) (token : CodeToken) (rest : List Char) : Prop where
  nonempty : word ≠ []
  visible : skipGap .blanks (word ++ rest) = .ok (word ++ rest)
  reads : readCodeToken (word ++ rest) = some (token, rest)

theorem readCodeToken_of_readToken {text : List Char} {token : Token}
    (read : readToken text = (.ok token, rest))
    (notStrict : ∀ behind, text ≠ '!' :: '=' :: '=' :: behind) :
    readCodeToken text = some (.shared token, rest) := by
  unfold readCodeToken
  split
  · next behind => exact absurd rfl (notStrict behind)
  · rw [read]

theorem readToken_of_readCodeToken {text : List Char} {token : Token}
    (read : readCodeToken text = some (.shared token, rest)) :
    readToken text = (.ok token, rest) ∧ ∀ behind, text ≠ '!' :: '=' :: '=' :: behind := by
  unfold readCodeToken at read
  split at read
  · cases read
  · next notStrict =>
    refine ⟨?_, notStrict⟩
    split at read
    · next found left same =>
      cases read
      exact same
    · cases read
    · cases read

/-- A token of scripts is one of code, unless it is the beginning of a strict
comparison. -/
theorem begins_shared {token : Token} (begun : EventScript.Begins word token rest)
    (notStrict : word = ['!', '='] → rest.head? ≠ some '=') : Begins word (.shared token) rest := by
  refine ⟨begun.nonempty, begun.visible, readCodeToken_of_readToken begun.reads fun behind same => ?_⟩
  have notMark {character : Char} {others : List Char} (begins : word = character :: others)
      (notStart : character ≠ '!') : False := by
    rw [begins, List.cons_append] at same
    exact notStart (List.cons.inj same).1
  cases begun.spelled with
  | @number number numeral =>
    cases word with
    | nil => exact begun.nonempty rfl
    | cons character others =>
      refine notMark rfl fun isMark => ?_
      subst isMark
      cases numeral.1
  | word spelled =>
    cases word with
    | nil => exact begun.nonempty rfl
    | cons character others =>
      exact notMark rfl (ne_of_isNameChar (isNameChar_of_mem_word spelled (.head _)) (by decide))
  | quoted closed => exact notMark rfl (by decide)
  | @single character mark single =>
    rw [List.singleton_append] at same
    obtain ⟨rfl, rfl⟩ := List.cons.inj same
    have alone := (alone_of_readToken single begun.reads).1 '=' rfl
    cases alone
  | @pair first second mark pair =>
    obtain ⟨rfl, rfl, rfl⟩ : first = '!' ∧ second = '=' ∧ rest = '=' :: behind := by
      simpa using same
    exact notStrict rfl rfl

theorem begins_differs (rest : List Char) : Begins ['!', '=', '='] .differs rest :=
  ⟨by simp, skipGap_cons_self (by decide) (not_startsComment (by decide) _), rfl⟩

/-- Whether a character begins no token. -/
def isForeign (character : Char) : Bool :=
  !character.isDigit && !isNameStart character && character != '"' &&
    (Symbol.ofChar? character).isNone && !Text.isBlank character

theorem readToken_of_isForeign (foreign : isForeign character = true) (rest : List Char) :
    readToken (character :: rest) = (.error (.unexpectedCharacter character), rest) := by
  simp only [isForeign, Bool.and_eq_true, Bool.not_eq_true', bne_iff_ne, ne_eq,
    Option.isNone_iff_eq_none] at foreign
  obtain ⟨⟨⟨⟨notDigit, notName⟩, notQuote⟩, noMark⟩, _⟩ := foreign
  have notPoint : (character == '.') = false := by
    rw [beq_eq_false_iff_ne]
    rintro rfl
    cases noMark
  have noPair (second : Char) : Symbol.ofPair? character second = none := by
    unfold Symbol.ofPair?
    split
    all_goals first | rfl | cases noMark
  have noSymbol : readSymbol character rest = none := by
    cases rest with
    | nil => rw [readSymbol, noMark]; rfl
    | cons second others => rw [readSymbol, noPair, noMark]; rfl
  rw [readToken, notDigit, notPoint, notName, noSymbol]
  simp [notQuote]

theorem begins_other (foreign : isForeign character = true) (rest : List Char) :
    Begins [character] (.other character) rest := by
  have notSlash : character ≠ '/' := by
    rintro rfl
    cases foreign
  have notBang : character ≠ '!' := by
    rintro rfl
    cases foreign
  have visible : Text.isBlank character = false := by
    simp only [isForeign, Bool.and_eq_true, Bool.not_eq_true'] at foreign
    exact foreign.2
  refine ⟨by simp, skipGap_cons_self visible (not_startsComment notSlash _), ?_⟩
  change readCodeToken (character :: rest) = _
  unfold readCodeToken
  split
  · next same => exact absurd (List.cons.inj same).1 notBang
  · rw [readToken_of_isForeign foreign]

theorem isForeign_of_readToken {text : List Char} (visible : skipGap .blanks text = .ok text)
    (read : readToken text = (.error (.unexpectedCharacter character), rest)) :
    text = character :: rest ∧ isForeign character = true := by
  cases text with
  | nil => cases read
  | cons first others =>
    have notBlank : Text.isBlank first = false := by
      rw [skipGap_cons (not_startsComment_of_visible visible)] at visible
      split at visible
      · have shorter := (isSuffix_of_skipGap visible).length_le
        exact absurd shorter (Nat.not_succ_le_self _)
      · next notBlank => exact Bool.eq_false_iff.mpr notBlank
    rw [readToken] at read
    split at read
    · cases read
    · next notNumber =>
      split at read
      · cases read
      · next notName =>
        split at read
        · split at read <;> cases read
        · next notQuote =>
          split at read
          · cases read
          · next noSymbol =>
            have noMark : Symbol.ofChar? first = none := by
              unfold readSymbol at noSymbol
              split at noSymbol
              · exact Option.map_eq_none_iff.mp noSymbol
              · split at noSymbol
                · cases noSymbol
                · exact Option.map_eq_none_iff.mp noSymbol
            cases read
            rw [Bool.or_eq_true, not_or] at notNumber
            refine ⟨rfl, ?_⟩
            simp only [beq_iff_eq] at notQuote
            simp [isForeign, notNumber.1, notName, notQuote, noMark, notBlank]

/-- What code can begin with: a token of scripts, a strict comparison, or a
character that begins no token. -/
inductive Kind (word rest : List Char) : CodeToken → Prop
  | shared {token : Token} (begun : EventScript.Begins word token rest)
      (notStrict : word = ['!', '='] → rest.head? ≠ some '=') : Kind word rest (.shared token)
  | differs (spelled : word = ['!', '=', '=']) : Kind word rest .differs
  | other {character : Char} (spelled : word = [character])
      (foreign : isForeign character = true) : Kind word rest (.other character)

theorem Begins.kind {token : CodeToken} (begun : Begins word token rest) :
    Kind word rest token := by
  have reads := begun.reads
  cases token with
  | shared token =>
    obtain ⟨read, notStrict⟩ := readToken_of_readCodeToken reads
    refine .shared ⟨begun.nonempty, begun.visible, read⟩ ?_
    rintro rfl isMark
    obtain ⟨behind, rfl⟩ := List.head?_eq_some_iff.mp isMark
    exact notStrict behind rfl
  | differs =>
    unfold readCodeToken at reads
    split at reads
    · next behind same =>
      cases reads
      exact .differs ((List.append_left_inj _).mp same)
    · split at reads <;> cases reads
  | other character =>
    unfold readCodeToken at reads
    split at reads
    · cases reads
    · split at reads
      · cases reads
      · next found left same =>
        cases reads
        obtain ⟨spelled, foreign⟩ := isForeign_of_readToken begun.visible same
        exact .other ((List.append_left_inj _).mp spelled) foreign
      · cases reads

/-- A token in front of another text that does not go on with it. -/
theorem Begins.of_endsLike {other : List Char} {token : CodeToken} (begun : Begins word token rest)
    (ends : EndsLike rest other) : Begins word token other := by
  cases begun.kind with
  | shared inScripts notStrict =>
    refine begins_shared (inScripts.of_endsLike ends) fun isPair isMark => ?_
    have notMark : ∀ next ∈ other.head?, next ≠ '=' := by
      refine ends.forall_head ?_ ?_
      · rintro blank isBlank rfl
        exact absurd isBlank (by decide)
      · rintro next isNext rfl
        exact notStrict isPair isNext
    exact notMark '=' isMark rfl
  | differs spelled => exact spelled ▸ begins_differs other
  | other spelled foreign => exact spelled ▸ begins_other foreign other

theorem Begins.of_separator {token : CodeToken} (begun : Begins word token rest)
    (separates : isSeparator character = true) (others : List Char) :
    Begins word token (character :: others) := by
  cases begun.kind with
  | shared inScripts notStrict =>
    refine begins_shared (inScripts.of_separator separates others) ?_
    rintro - ⟨rfl⟩
    cases separates
  | differs spelled => exact spelled ▸ begins_differs _
  | other spelled foreign => exact spelled ▸ begins_other foreign _

theorem Begins.of_member {token : Token} (begun : Begins word (.shared token) rest)
    (ends : token.endsOperand = true) (letter : startsWithLetter others = true) :
    Begins word (.shared token) ('.' :: others) := by
  cases begun.kind with
  | shared inScripts notStrict =>
    exact begins_shared (inScripts.of_member ends letter) (by simp)

theorem Begins.of_symbol {other : List Char} {mark : Symbol}
    (begun : Begins word (.shared (.symbol mark)) rest) (notPoint : mark ≠ .dot)
    (notSlash : mark ≠ .slash) (ended : Stops continuesSymbol other) :
    Begins word (.shared (.symbol mark)) other := by
  cases begun.kind with
  | shared inScripts notStrict =>
    refine begins_shared (inScripts.of_symbol notPoint notSlash ended) fun _ isMark => ?_
    cases ended '=' isMark

end CodeToken

/-! ## Texts of several tokens -/

/-- Code reads as a list of tokens, and its gaps are complete, so that they are
skipped whatever follows. -/
inductive ReadsAs : List Char → List CodeToken → Prop
  | done {gap : List Char} (isGap : IsGap gap) : ReadsAs gap []
  | token {gap word rest : List Char} {token : CodeToken} {tokens : List CodeToken}
      (isGap : IsGap gap) (begun : CodeToken.Begins word token rest)
      (others : ReadsAs rest tokens) : ReadsAs (gap ++ (word ++ rest)) (token :: tokens)

theorem IsGap.append {first second : List Char} (isFirst : IsGap first) (isSecond : IsGap second) :
    IsGap (first ++ second) := by
  rintro _ ⟨⟩ behind
  rw [List.append_assoc, isFirst _ .blanks, isSecond _ .blanks]

theorem ReadsAs.nil : ReadsAs [] [] :=
  .done Gap.passes_nil

theorem ReadsAs.gap {gap text : List Char} {tokens : List CodeToken} (isGap : IsGap gap)
    (reads : ReadsAs text tokens) : ReadsAs (gap ++ text) tokens := by
  cases reads with
  | done isInner => exact .done (isGap.append isInner)
  | token isInner begun others =>
    rw [← List.append_assoc]
    exact .token (isGap.append isInner) begun others

theorem CodeToken.Begins.readsAs {token : CodeToken} {tokens : List CodeToken}
    (begun : Begins word token rest) (others : ReadsAs rest tokens) :
    ReadsAs (word ++ rest) (token :: tokens) :=
  .token Gap.passes_nil begun others

theorem eq_nil_of_readsAs_nil {tokens : List CodeToken} (reads : ReadsAs [] tokens) :
    tokens = [] := by
  generalize empty : ([] : List Char) = text at reads
  cases reads with
  | done => rfl
  | token isGap begun others =>
    simp [begun.nonempty] at empty

/-- A lone point is read as one. -/
theorem eq_point_of_readsAs {tokens : List CodeToken} (reads : ReadsAs ['.'] tokens) :
    tokens = [.shared (.symbol .dot)] := by
  generalize isPoint : ['.'] = text at reads
  cases reads with
  | done isGap =>
    subst isPoint
    cases isGap _ .blanks []
  | @token gap word rest token tokens isGap begun others =>
    cases word with
    | nil => exact absurd rfl begun.nonempty
    | cons character word =>
      have lengths := congrArg List.length isPoint
      simp only [List.length_cons, List.length_append, List.length_nil] at lengths
      obtain rfl := List.eq_nil_of_length_eq_zero (show gap.length = 0 by omega)
      obtain rfl := List.eq_nil_of_length_eq_zero (show word.length = 0 by omega)
      obtain rfl := List.eq_nil_of_length_eq_zero (show rest.length = 0 by omega)
      cases isPoint
      have reads := begun.reads
      obtain rfl := eq_nil_of_readsAs_nil others
      cases reads
      rfl

/-- Two texts are read one behind the other if the second does not go on with
the last token of the first.  A letter behind a point would decide what the
point belongs to. -/
theorem ReadsAs.append {first second : List Char} {tokens others : List CodeToken}
    (reads : ReadsAs first tokens) (behind : ReadsAs second others)
    (joins : ∀ token ∈ tokens.getLast?, ∀ word, CodeToken.Begins word token [] →
      CodeToken.Begins word token second)
    (apart : tokens.getLast? = some (.shared (.symbol .dot)) → startsWithLetter second = false) :
    ReadsAs (first ++ second) (tokens ++ others) := by
  induction reads with
  | done isGap => exact behind.gap isGap
  | @token gap word rest token tokens isGap begun readsRest ih =>
    have lastOf {last : CodeToken} (isLast : tokens.getLast? = some last) :
        (token :: tokens).getLast? = some last := by
      rw [List.getLast?_cons, isLast]
      rfl
    have readsBehind := ih (fun last isLast => joins last (lastOf isLast))
      (fun isLast => apart (lastOf isLast))
    rw [List.append_assoc, List.append_assoc]
    refine .token isGap ?_ readsBehind
    cases rest with
    | nil =>
      obtain rfl := eq_nil_of_readsAs_nil readsRest
      exact joins token rfl word begun
    | cons character more =>
      refine begun.of_endsLike (.same rfl ?_)
      rintro rfl
      cases more with
      | cons next more => rfl
      | nil =>
        obtain rfl := eq_point_of_readsAs readsRest
        exact apart rfl

theorem ReadsAs.codeTokensUpTo_eq {text : List Char} {tokens : List CodeToken}
    (reads : ReadsAs text tokens) {bound : Nat} (enough : text.length < bound) :
    codeTokensUpTo bound text = some tokens := by
  induction reads generalizing bound with
  | @done gap isGap =>
    obtain ⟨bound, rfl⟩ := Nat.exists_eq_succ_of_ne_zero (Nat.ne_zero_of_lt enough)
    have skipped := isGap _ .blanks []
    rw [List.append_nil] at skipped
    rw [Nat.succ_eq_add_one, codeTokensUpTo, skipped]
    rfl
  | @token gap word rest token tokens isGap begun others ih =>
    obtain ⟨bound, rfl⟩ := Nat.exists_eq_succ_of_ne_zero (Nat.ne_zero_of_lt enough)
    have skipped := (isGap _ .blanks (word ++ rest)).trans begun.visible
    have read := begun.reads
    obtain ⟨character, more, begins⟩ := List.exists_cons_of_ne_nil begun.nonempty
    rw [begins, List.cons_append] at skipped read enough
    rw [List.length_append, List.length_cons, List.length_append] at enough
    rw [Nat.succ_eq_add_one, codeTokensUpTo, begins, List.cons_append, skipped]
    dsimp only
    rw [read, Option.bind_eq_bind, Option.bind_some]
    dsimp only
    rw [ih (by omega)]
    rfl

theorem ReadsAs.codeTokens_eq {code : String} {tokens : List CodeToken}
    (reads : ReadsAs code.toList tokens) : codeTokens code = some tokens :=
  reads.codeTokensUpTo_eq (Nat.lt_succ_self _)

end EventScript
