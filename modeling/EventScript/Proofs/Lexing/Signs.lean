import EventScript.Proofs.Grammar.Shape
import EventScript.Proofs.Lexing.Spacing

/-!
# Operators at the edges of a text

An operator with one operand is written right in front of the text of its operand
or right behind it.  A prefix operator is read as such unless the text begins with
a character that makes it a longer symbol.  A postfix operator is read as such
unless it becomes part of a comment that the text leaves open, or joins a sign at
the end of the text.  The latter cannot happen where signs come in pairs.
-/

namespace EventScript

variable {text word rest : List Char} {mode : Gap} {sign : Char} {tokens : List Token}
  {mark : Symbol}

/-! ## Texts without errors -/

/-- What is reported for a text that reads as tokens. -/
theorem outcomes_of_lexes {text : String} {found : List Token} (lexed : Lexes text.toList found) :
    outcomes text = found.map .ok ++ [.ok .endOfInput] :=
  Cursor.map_outcome_scanAll lexed (Nat.lt_succ_self _)

theorem Cursor.exists_lexes_of_scanAll {bound : Nat} {cursor : Cursor}
    (enough : cursor.rest.length < bound)
    (clean : ∀ scan ∈ scanAll bound cursor, scan.outcome.isOk = true) :
    ∃ found, Lexes cursor.rest found := by
  induction bound generalizing cursor with
  | zero => exact absurd enough (Nat.not_lt_zero _)
  | succ bound ih =>
    by_cases atEnd : cursor.scan.outcome = .ok .endOfInput
    · have shape := cursor.scanned_scan
      generalize cursor.scan = scan at atEnd shape
      cases shape with
      | token gap read =>
        cases atEnd
        rw [(eq_nil_of_readToken read).1] at gap
        exact ⟨[], .done gap⟩
      | unexpected | openText | openComment => cases atEnd
    · have shorter := length_scan_next_lt atEnd
      rw [scanAll_succ_of_ne atEnd, List.forall_mem_cons] at clean
      obtain ⟨found, others⟩ := ih (by omega) clean.2
      have shape := cursor.scanned_scan
      have cleanFirst := clean.1
      generalize cursor.scan = scan at atEnd shape cleanFirst others
      cases shape with
      | @token rest left token gap read =>
        refine ⟨token :: found, .step gap ?_ read others⟩
        rintro rfl
        cases read
        exact atEnd rfl
      | unexpected | openText | openComment => cases cleanFirst

/-- A text for which no error is reported reads as tokens. -/
theorem exists_lexes_of_clean {text : String}
    (clean : ∀ outcome ∈ outcomes text, outcome.isOk = true) :
    ∃ found, Lexes text.toList found :=
  @Cursor.exists_lexes_of_scanAll _ (.ofText text.toList) (Nat.lt_succ_self _)
    fun _ member => clean _ (List.mem_map_of_mem member)

/-- The first token that is reported is the one that the text begins with. -/
theorem head?_outcomes_of_begins {token : Token} {text : String} (begun : Begins word token rest)
    (spelled : text.toList = word ++ rest) : (outcomes text).head? = some (.ok token) := by
  have visible : skipGap .blanks (Cursor.ofText text.toList).rest = .ok (word ++ rest) := by
    rw [Cursor.ofText, spelled]
    exact begun.visible
  have notEnd : token ≠ .endOfInput := by
    rintro rfl
    have isEmpty := (eq_nil_of_readToken begun.reads).1
    exact begun.nonempty (List.append_eq_nil_iff.mp isEmpty).1
  have scanned := Cursor.scan_of_readToken visible begun.reads
  rw [outcomes, tokens, Cursor.scanAll_succ_of_ne, scanned]
  · rfl
  · rw [scanned]
    simpa using notEnd

/-- A token that is read begins the text in front of which there is no gap. -/
theorem exists_begins {left : List Char} {token : Token} (visible : skipGap .blanks rest = .ok rest)
    (nonempty : rest ≠ []) (read : readToken rest = (.ok token, left)) :
    ∃ word, rest = word ++ left ∧ Begins word token left := by
  obtain ⟨character, others, rfl⟩ := List.exists_cons_of_ne_nil nonempty
  obtain ⟨word, split, spelled⟩ := exists_spelled read
  refine ⟨word, split, spelled.ne_nil, ?_, ?_⟩
  · rwa [← split]
  · rwa [← split]

/-! ## Gaps at the end of a text -/

namespace Gap

/-- A text is passed over as a whole, or up to a line comment that nothing ends. -/
def PassesAll (mode : Gap) (text : List Char) : Prop :=
  mode.Passes text ∨
    ∃ front comment, text = front ++ '/' :: '/' :: comment ∧ '\n' ∉ comment ∧ mode.Passes front

theorem PassesAll.append_left {inner : Gap} (all : inner.PassesAll text)
    (step : Step mode word text inner) : mode.PassesAll (word ++ text) := by
  rcases all with passes | ⟨front, comment, rfl, noLine, passes⟩
  · rw [← List.append_nil text] at step
    exact .inl (step.passes passes)
  · exact .inr ⟨word ++ front, comment, (List.append_assoc ..).symm, noLine, step.passes passes⟩

/-- A gap up to the end of a text is passed over, unless it began inside a line
comment that nothing ends. -/
theorem passesAll_of_skipGap (skipped : skipGap mode text = .ok []) :
    mode.PassesAll text ∨ mode = .lineComment ∧ '\n' ∉ text := by
  induction mode, text using Gap.induction with
  | step step ih =>
    rcases ih (step.skipGap_eq.symm.trans skipped) with all | ⟨rfl, noLine⟩
    · exact .inl (all.append_left step)
    · cases step with
      | openLine => exact .inl (.inr ⟨[], _, rfl, noLine, passes_nil⟩)
      | inLine inside =>
        refine .inr ⟨rfl, ?_⟩
        rw [List.singleton_append, List.mem_cons, not_or]
        exact ⟨inside.symm, noLine⟩
  | visible notBlank noComment => cases (skipGap_cons_self notBlank noComment).symm.trans skipped
  | atEnd mode =>
    cases mode with
    | blanks => exact .inl (.inl passes_nil)
    | lineComment => exact .inr ⟨rfl, by simp⟩
    | comment => cases skipped

end Gap

/-- A gap in front of a token ends with a blank or with the mark of a comment. -/
theorem exists_last_of_skipGap (skipped : skipGap mode text = .ok rest) (nonempty : rest ≠ []) :
    ∃ gap, text = gap ++ rest ∧ (gap = [] → mode = .blanks) ∧
      ∀ last ∈ gap.getLast?, Text.isBlank last = true ∨ last = '/' := by
  induction mode, text using Gap.induction with
  | step step ih =>
    obtain ⟨gap, rfl, inside, ends⟩ := ih (step.skipGap_eq.symm.trans skipped)
    refine ⟨_, (List.append_assoc ..).symm, fun isEmpty => ?_, ?_⟩
    · cases step <;> cases isEmpty
    cases gap with
    | cons first others =>
      rwa [List.getLast?_append, List.getLast?_cons, Option.some_or, ← List.getLast?_cons]
    | nil =>
      -- behind the last character of the gap the mode is that of blanks
      obtain rfl := inside rfl
      rw [List.append_nil]
      cases step with
      | blank isBlank =>
        rintro _ ⟨rfl⟩
        exact .inl isBlank
      | closeLine | closeComment =>
        rintro _ ⟨rfl⟩
        decide
  | visible notBlank noComment =>
    cases (skipGap_cons_self notBlank noComment).symm.trans skipped
    exact ⟨[], rfl, fun _ => rfl, by simp⟩
  | atEnd mode =>
    cases mode <;> cases skipped
    all_goals exact absurd rfl nonempty

/-! ## Signs at the end of a text -/

/-- Whether a sign stands an odd number of times at the end of a text, behind a
text of which `odd` tells this. -/
def endsOdd (sign : Char) : (odd : Bool) → List Char → Bool
  | odd, [] => odd
  | odd, character :: rest => endsOdd sign (character == sign && !odd) rest

theorem endsOdd_append (sign : Char) (odd : Bool) (first second : List Char) :
    endsOdd sign odd (first ++ second) = endsOdd sign (endsOdd sign odd first) second := by
  induction first generalizing odd with
  | nil => rfl
  | cons character rest ih => exact ih _

theorem endsOdd_concat {last : Char} (notSign : last ≠ sign) (odd : Bool) (front : List Char) :
    endsOdd sign odd (front ++ [last]) = false := by
  rw [endsOdd_append, endsOdd, beq_eq_false_iff_ne.mpr notSign]
  rfl

theorem endsOdd_of_getLast? (notSign : ∀ last ∈ text.getLast?, last ≠ sign) :
    endsOdd sign false text = false := by
  cases isLast : text.getLast? with
  | none =>
    rw [List.getLast?_eq_none_iff.mp isLast]
    rfl
  | some last =>
    obtain ⟨front, rfl⟩ := List.getLast?_eq_some_iff.mp isLast
    exact endsOdd_concat (notSign last isLast) false front

/-- The signs that are doubled to change a variable. -/
def isStepSign (sign : Char) : Bool :=
  sign == '+' || sign == '-'

section Signs

variable {sign : Char}

theorem ofPair?_stepSign (isStep : isStepSign sign = true) {first : Char} (notSame : first ≠ sign) :
    Symbol.ofPair? first sign = none := by
  rw [isStepSign, Bool.or_eq_true, beq_iff_eq, beq_iff_eq] at isStep
  unfold Symbol.ofPair?
  split
  all_goals first
    | rfl
    | exact absurd rfl notSame
    | exact absurd isStep (by decide)

theorem not_isNameChar_stepSign (isStep : isStepSign sign = true) : isNameChar sign = false := by
  rw [isStepSign, Bool.or_eq_true, beq_iff_eq, beq_iff_eq] at isStep
  rcases isStep with rfl | rfl <;> rfl

/-- No gap ends with a sign. -/
theorem endsOdd_gap (isStep : isStepSign sign = true) {gap : List Char} (isGap : IsGap gap) :
    endsOdd sign false gap = false := by
  have skipped : skipGap .blanks (gap ++ ['x']) = .ok ['x'] := isGap _ .blanks ['x']
  obtain ⟨front, split, -, ends⟩ := exists_last_of_skipGap skipped (by simp)
  obtain rfl := List.append_cancel_right split
  refine endsOdd_of_getLast? fun last isLast => ?_
  rintro rfl
  rw [isStepSign, Bool.or_eq_true, beq_iff_eq, beq_iff_eq] at isStep
  rcases isStep with rfl | rfl
  · exact absurd (ends _ isLast) (by decide)
  · exact absurd (ends _ isLast) (by decide)

/-- A token does not end with a sign unless it consists of one or of two. -/
theorem Begins.endsOdd_word (isStep : isStepSign sign = true) {token : Token}
    (begun : Begins word token rest) : endsOdd sign false word = false ∨ word = [sign] := by
  have noName := not_isNameChar_stepSign isStep
  cases begun.spelled with
  | number numeral =>
    refine .inl (endsOdd_of_getLast? fun last isLast => ?_)
    rintro rfl
    rcases isDigit_or_point_of_spanNumber numeral.2 _ (List.mem_of_getLast? isLast) with
      digit | rfl
    · rw [(isNameChar_iff _).mpr (.inr digit)] at noName
      cases noName
    · cases isStep
  | word spelled =>
    refine .inl (endsOdd_of_getLast? fun last isLast => ?_)
    rintro rfl
    rw [isNameChar_of_mem_word spelled (List.mem_of_getLast? isLast)] at noName
    cases noName
  | quoted closed =>
    refine .inl (endsOdd_concat ?_ _ _)
    rintro rfl
    cases isStep
  | @single character mark single =>
    by_cases same : character = sign
    · exact .inr (by rw [same])
    · exact .inl (endsOdd_concat same false [])
  | @pair first second mark pair =>
    by_cases same : second = sign
    · subst same
      by_cases doubled : first = second
      · subst doubled
        exact .inl (by simp [endsOdd])
      · rw [ofPair?_stepSign isStep doubled] at pair
        cases pair
    · exact .inl (endsOdd_concat same false [first])

/-- A token other than the sign itself reads the same in front of the sign. -/
theorem Begins.before_sign (isStep : isStepSign sign = true) {token : Token}
    (begun : Begins word token rest) (notSign : word ≠ [sign]) (others : List Char) :
    Begins word token (sign :: others) := by
  have noName := not_isNameChar_stepSign isStep
  have noPoint : sign ≠ '.' := by
    rintro rfl
    cases isStep
  cases begun.spelled with
  | number numeral =>
    refine begins_number numeral ?_
    rw [stops_cons, continuesNumber, noName, Bool.false_or, beq_eq_false_iff_ne]
    exact noPoint
  | word spelled =>
    refine begins_word spelled ?_
    rwa [stops_cons]
  | quoted closed => exact begins_quoted closed _
  | @single character mark single =>
    apply begins_symbol single
    · rintro _ ⟨rfl⟩
      refine ofPair?_stepSign isStep ?_
      rintro rfl
      exact notSign rfl
    · intro _
      rw [startsWithDigit, ← Bool.not_eq_true]
      intro digit
      rw [(isNameChar_iff _).mpr (.inr digit)] at noName
      cases noName
    · rw [startsComment_cons_iff]
      rintro ⟨-, _, ⟨rfl⟩, rfl | rfl⟩
      · cases isStep
      · cases isStep
  | pair pair => exact begins_pair pair _

/-- A token that is followed by more of its text reads the same with a sign
behind that. -/
theorem Begins.append_sign (isStep : isStepSign sign = true) {token : Token}
    (begun : Begins word token rest) (nonempty : rest ≠ []) (others : List Char) :
    Begins word token (rest ++ sign :: others) := by
  obtain ⟨first, more, rfl⟩ := List.exists_cons_of_ne_nil nonempty
  refine begun.of_endsLike (.same rfl fun _ => ?_)
  cases more with
  | cons => rfl
  | nil =>
    rw [isStepSign, Bool.or_eq_true, beq_iff_eq, beq_iff_eq] at isStep
    rcases isStep with rfl | rfl <;> rfl

end Signs

/-! ## Texts that end inside a comment -/

/-- A text whose last token is followed by a line comment that nothing ends. -/
inductive EndsInComment : List Char → Prop
  | comment {gap comment : List Char} (isGap : IsGap gap) (noLine : '\n' ∉ comment) :
      EndsInComment (gap ++ '/' :: '/' :: comment)
  | token {gap word rest : List Char} {token : Token} (isGap : IsGap gap)
      (begun : Begins word token rest) (later : EndsInComment rest) :
      EndsInComment (gap ++ (word ++ rest))

theorem EndsInComment.ne_nil (ends : EndsInComment text) : text ≠ [] := by
  cases ends with
  | comment => simp
  | token isGap begun _ => simp [begun.nonempty]

theorem lexes_nil_iff : Lexes [] tokens ↔ tokens = [] := by
  constructor
  · intro lexed
    cases lexed with
    | done => rfl
    | step gap nonempty =>
      cases gap
      exact absurd rfl nonempty
  · rintro rfl
    exact lexes_nil

/-- A doubled sign behind a text in which signs come in pairs is one more token,
unless it is part of a comment. -/
theorem Lexes.append_pair (isStep : isStepSign sign = true)
    (pair : Symbol.ofPair? sign sign = some mark) (lexed : Lexes text tokens)
    (even : endsOdd sign false text = false) :
    Lexes (text ++ [sign, sign]) (tokens ++ [.symbol mark]) ∨ EndsInComment text := by
  induction lexed with
  | done gap =>
    rcases Gap.passesAll_of_skipGap gap with
      (isGap | ⟨front, comment, rfl, noLine, isGap⟩) | ⟨isLine, -⟩
    · exact .inl (((begins_pair pair []).lexes lexes_nil).gap isGap)
    · exact .inr (.comment isGap noLine)
    · cases isLine
  | @step text rest left token tokens gap nonempty read others ih =>
    obtain ⟨front, rfl, isGap⟩ := exists_isGap gap nonempty
    obtain ⟨word, rfl, begun⟩ := exists_begins (skipGap_of_skipGap gap) nonempty read
    rw [endsOdd_append, endsOdd_gap isStep isGap, endsOdd_append] at even
    rw [List.append_assoc, List.append_assoc]
    by_cases atEnd : left = []
    · subst atEnd
      obtain rfl := lexes_nil_iff.mp others
      have notSign : word ≠ [sign] := by
        rintro rfl
        simp [endsOdd] at even
      exact .inl (((begun.before_sign isStep notSign _).lexes
        ((begins_pair pair []).lexes lexes_nil)).gap isGap)
    · have evenLeft : endsOdd sign false left = false := by
        rcases begun.endsOdd_word isStep with evenWord | rfl
        · rwa [evenWord] at even
        · -- a lone sign is not followed by another one
          obtain ⟨first, more, rfl⟩ := List.exists_cons_of_ne_nil atEnd
          have other : first ≠ sign := by
            rintro rfl
            have same := begun.reads.symm.trans (begins_pair pair more).reads
            simpa using congrArg (fun read => read.2.length) same
          rw [endsOdd, beq_eq_false_iff_ne.mpr other, Bool.false_and] at even ⊢
          exact even
      rcases ih evenLeft with lexed | ends
      · exact .inl (((begun.append_sign isStep atEnd _).lexes lexed).gap isGap)
      · exact .inr (.token isGap begun ends)

theorem skipGap_lineComment_of_notMem {comment : List Char} (noLine : '\n' ∉ comment) :
    skipGap .lineComment comment = .ok [] := by
  induction comment with
  | nil => rfl
  | cons character rest ih =>
    rw [List.mem_cons, not_or] at noLine
    rw [skipGap_lineComment_cons, if_neg (by simpa using Ne.symm noLine.1),
      ih noLine.2]

/-- Signs behind a text that ends inside a comment are part of the comment. -/
theorem EndsInComment.lexes_append (isStep : isStepSign sign = true) (ends : EndsInComment text)
    (lexed : Lexes text tokens) : Lexes (text ++ [sign, sign]) tokens := by
  induction ends generalizing tokens with
  | @comment gap comment isGap noLine =>
    have noSign : '\n' ≠ sign := by
      rintro rfl
      cases isStep
    have skipped {inside : List Char} (noLine : '\n' ∉ inside) :
        skipGap .blanks (gap ++ '/' :: '/' :: inside) = .ok [] :=
      (isGap _ .blanks _).trans (skipGap_lineComment_of_notMem noLine)
    have noTokens : tokens = [] := by
      cases lexed with
      | done => rfl
      | step seen nonempty =>
        rw [skipped noLine] at seen
        cases seen
        exact absurd rfl nonempty
    rw [noTokens, List.append_assoc]
    exact .done (skipped (by simp [noLine, noSign]))
  | @token gap word rest token isGap begun later ih =>
    have seen : skipGap .blanks (gap ++ (word ++ rest)) = .ok (word ++ rest) :=
      (isGap _ .blanks _).trans begun.visible
    rw [List.append_assoc, List.append_assoc]
    cases lexed with
    | done gap =>
      rw [seen] at gap
      exact absurd (List.append_eq_nil_iff.mp (Except.ok.inj gap)).1 begun.nonempty
    | @step _ found left _ tokens gap nonempty read others =>
      rw [seen] at gap
      obtain rfl := Except.ok.inj gap
      rw [begun.reads] at read
      obtain ⟨same, rfl⟩ := Prod.mk.inj read
      obtain rfl := Except.ok.inj same
      have lexed := ih others
      exact ((begun.append_sign isStep later.ne_nil _).lexes lexed).gap isGap

/-! ## Operators -/

/-- A text at whose end signs come in pairs, with another character in front of
them. -/
def Settled (text : String) : Prop :=
  ∀ sign ∈ ['+', '-'], ∀ odd, endsOdd sign odd text.toList = false

instance (text : String) : Decidable (Settled text) :=
  decidable_of_iff
    ((['+', '-'].all fun sign => [false, true].all fun odd => !endsOdd sign odd text.toList) = true)
    (by simp [Settled])

namespace UnaryOp

/-- What is reported for an operand with an operator at it: the token of the
operator in front of what is reported for the operand, or behind its tokens. -/
def around (op : UnaryOp) (reported : List (Except ScriptError Token)) :
    List (Except ScriptError Token) :=
  if op.isPostfix then reported.dropLast ++ [.ok op.token, .ok .endOfInput]
  else .ok op.token :: reported

/-- Nothing in the text of an operand runs on with the operator at it; `begins`
tells which signs the text begins with. -/
def Clear (op : UnaryOp) (begins : Char → Bool) (text : String) : Prop :=
  match op with
  | not => begins '=' = false
  | negate => begins '-' = false ∧ begins '=' = false
  | preIncrement | preDecrement => True
  | postIncrement | postDecrement => ¬EndsInComment text.toList

end UnaryOp

theorem ofPair?_not_eq_none_iff (second : Char) :
    Symbol.ofPair? '!' second = none ↔ second ≠ '=' := by
  by_cases isEqual : second = '='
  · simp [isEqual, Symbol.ofPair?]
  · simp [Symbol.ofPair?, isEqual]

theorem ofPair?_minus_eq_none_iff (second : Char) :
    Symbol.ofPair? '-' second = none ↔ second ≠ '-' ∧ second ≠ '=' := by
  by_cases isMinus : second = '-'
  · simp [isMinus, Symbol.ofPair?]
  · by_cases isEqual : second = '='
    · simp [isEqual, Symbol.ofPair?]
    · simp [Symbol.ofPair?, isMinus, isEqual]

/-- A symbol of two characters is another one than its first character alone,
unless it is a logical operator. -/
theorem ofPair?_ne_of_ofChar? (single : Symbol.ofChar? sign = some mark) (notAnd : sign ≠ '&')
    (notOr : sign ≠ '|') (second : Char) : Symbol.ofPair? sign second ≠ some mark := by
  intro isPair
  unfold Symbol.ofPair? at isPair
  split at isPair
  all_goals cases isPair
  all_goals first
    | exact absurd rfl notAnd
    | exact absurd rfl notOr
    | exact absurd single (by decide)

section Operators

variable {text : String}

/-- A sign of one character in front of a text is read as such unless the text
goes on with it. -/
theorem outcomes_sign_iff (single : Symbol.ofChar? sign = some mark)
    (isOther : sign ∉ ['.', '/', '&', '|']) (clean : ∀ outcome ∈ outcomes text, outcome.isOk = true) :
    outcomes (String.singleton sign ++ text) = .ok (.symbol mark) :: outcomes text ↔
      ∀ second ∈ text.toList.head?, Symbol.ofPair? sign second = none := by
  have spelled : (String.singleton sign ++ text).toList = [sign] ++ text.toList := by simp
  simp only [List.mem_cons, List.not_mem_nil, or_false, not_or] at isOther
  obtain ⟨notPoint, notSlash, notAnd, notOr⟩ := isOther
  constructor
  · intro same second isSecond
    obtain ⟨others, begins⟩ := List.head?_eq_some_iff.mp isSecond
    cases isPair : Symbol.ofPair? sign second with
    | none => rfl
    | some other =>
      have whole : (String.singleton sign ++ text).toList = [sign, second] ++ others := by
        rw [spelled, begins]
        rfl
      have found := head?_outcomes_of_begins (begins_pair isPair others) whole
      rw [same] at found
      cases found
      exact absurd isPair (ofPair?_ne_of_ofChar? single notAnd notOr second)
  · intro alone
    obtain ⟨found, lexed⟩ := exists_lexes_of_clean clean
    have begun : Begins [sign] (.symbol mark) text.toList :=
      begins_symbol single alone (fun isPoint => absurd isPoint notPoint)
        (not_startsComment notSlash _)
    have whole := begun.lexes lexed
    rw [← spelled] at whole
    rw [outcomes_of_lexes whole, outcomes_of_lexes lexed]
    rfl

/-- A sign of two characters in front of a text is always read as such. -/
theorem outcomes_pair {first second : Char} (pair : Symbol.ofPair? first second = some mark)
    (clean : ∀ outcome ∈ outcomes text, outcome.isOk = true) :
    outcomes (String.ofList [first, second] ++ text) = .ok (.symbol mark) :: outcomes text := by
  obtain ⟨found, lexed⟩ := exists_lexes_of_clean clean
  have whole := (begins_pair pair text.toList).lexes lexed
  have spelled :
      (String.ofList [first, second] ++ text).toList = [first, second] ++ text.toList := by
    simp
  rw [← spelled] at whole
  rw [outcomes_of_lexes whole, outcomes_of_lexes lexed]
  rfl

/-- A doubled sign behind a text is read as such unless it is part of a
comment. -/
theorem outcomes_append_pair_iff (isStep : isStepSign sign = true)
    (pair : Symbol.ofPair? sign sign = some mark) (even : endsOdd sign false text.toList = false)
    (clean : ∀ outcome ∈ outcomes text, outcome.isOk = true) :
    outcomes (text ++ String.ofList [sign, sign]) =
        (outcomes text).dropLast ++ [.ok (.symbol mark), .ok .endOfInput] ↔
      ¬EndsInComment text.toList := by
  obtain ⟨found, lexed⟩ := exists_lexes_of_clean clean
  have spelled : (text ++ String.ofList [sign, sign]).toList = text.toList ++ [sign, sign] := by
    simp
  rw [outcomes_of_lexes lexed, List.dropLast_concat]
  constructor
  · intro same ends
    have whole := ends.lexes_append isStep lexed
    rw [← spelled] at whole
    rw [outcomes_of_lexes whole] at same
    simpa using congrArg List.length same
  · intro noComment
    have whole := (lexed.append_pair isStep pair even).resolve_right noComment
    rw [← spelled] at whole
    rw [outcomes_of_lexes whole]
    simp

/-- An operator at the text of its operand is read as that operator and the
operand exactly if nothing in the text runs on with it. -/
theorem outcomes_attach_iff (op : UnaryOp) {begins : Char → Bool}
    (front : ∀ mark ∈ ['-', '='], (text.toList.head? = some mark ↔ begins mark = true))
    (settled : Settled text) (clean : ∀ outcome ∈ outcomes text, outcome.isOk = true) :
    outcomes (op.attach text) = op.around (outcomes text) ↔ op.Clear begins text := by
  have absent {mark : Char} (isMark : mark ∈ ['-', '=']) :
      begins mark = false ↔ ∀ second ∈ text.toList.head?, second ≠ mark := by
    rw [← Bool.not_eq_true, ← front mark isMark]
    constructor
    · rintro notFirst second isFirst rfl
      exact notFirst isFirst
    · exact fun noMark isFirst => noMark mark isFirst rfl
  cases op with
  | not =>
    have read := outcomes_sign_iff (by rfl : Symbol.ofChar? '!' = some .not) (by decide) clean
    simp only [ofPair?_not_eq_none_iff] at read
    exact read.trans (absent (by decide)).symm
  | negate =>
    have read := outcomes_sign_iff (by rfl : Symbol.ofChar? '-' = some .minus) (by decide) clean
    simp only [ofPair?_minus_eq_none_iff] at read
    rw [UnaryOp.Clear, absent (by decide), absent (by decide)]
    exact read.trans ⟨fun apart => ⟨fun second isFirst => (apart second isFirst).1,
      fun second isFirst => (apart second isFirst).2⟩,
      fun apart second isFirst => ⟨apart.1 second isFirst, apart.2 second isFirst⟩⟩
  | preIncrement =>
    exact iff_of_true (outcomes_pair (by rfl : Symbol.ofPair? '+' '+' = some .increment) clean)
      trivial
  | preDecrement =>
    exact iff_of_true (outcomes_pair (by rfl : Symbol.ofPair? '-' '-' = some .decrement) clean)
      trivial
  | postIncrement =>
    exact outcomes_append_pair_iff (by rfl : isStepSign '+' = true) rfl
      (settled '+' (by decide) false) clean
  | postDecrement =>
    exact outcomes_append_pair_iff (by rfl : isStepSign '-' = true) rfl
      (settled '-' (by decide) false) clean

end Operators

end EventScript
