import EventScript.Proofs.Code.Operands

/-!
# Tests of a collection in generated code

Code tests whether a value is in a collection by `.find(...) !== null`, without
parentheses.  Among other tokens that test is read as it is meant exactly if the
collection is one chain and neither the token in front of the test nor the one
behind it binds more tightly.  The text of such a test is read as its tokens.
-/

namespace EventScript

variable {token : CodeToken} {before after tokens : List CodeToken} {depth : Nat} {character : Char}
  {rest : List Char}

/-! ## Tokens -/

/-- A call of the method `find` of a collection. -/
def findCall (collection value : List CodeToken) : List CodeToken :=
  collection ++ [.shared (.symbol .dot), .shared (.name "find")] ++
    .shared (.symbol .openParen) :: (value ++ [.shared (.symbol .closeParen)])

/-- The constant that `find` is compared with. -/
def nullToken : CodeToken :=
  .shared (.name "null")

/-- Among the tokens around it, the test of a collection is read as it is meant:
`find` is called of the whole collection and with the whole value, and the
comparison has nothing but the call on its left and nothing but `null` on its
right. -/
structure TestsWhole (before collection value after : List CodeToken) : Prop where
  member : memberOperand (before ++ collection) = some collection
  argument : spans anywhere value = true
  left : leftOperand (before ++ findCall collection value) = some (findCall collection value)
  right : rightOperand (nullToken :: after) = some [nullToken]

/-- Whether the test of a collection can stand behind a token. -/
def CodeToken.precedesTest (token : CodeToken) : Bool :=
  token.opens || token.isLoose

/-- Whether the test of a collection can stand in front of a token. -/
def CodeToken.followsTest (token : CodeToken) : Bool :=
  token.closes || token.isLoose || token.isEquality

theorem isChain_findCall {collection value : List CodeToken}
    (chain : isChain collection = true) (balanced : spans anywhere value = true) :
    isChain (findCall collection value) = true :=
  isChain_group (isChain_member chain rfl) rfl rfl balanced

theorem closes_of_isLoose (loose : token.isLoose = true) :
    token.opens = false ∧ token.closes = false := by
  unfold CodeToken.isLoose at loose
  split at loose
  all_goals first | exact ⟨rfl, rfl⟩ | cases loose

theorem closes_of_isEquality (equates : token.isEquality = true) :
    token.opens = false ∧ token.closes = false := by
  unfold CodeToken.isEquality at equates
  split at equates
  all_goals first | exact ⟨rfl, rfl⟩ | cases equates

/-- No operand of a comparison goes on behind a token that can precede a test. -/
theorem spans_eq_false_of_precedesTest {operand front : List CodeToken}
    (precedes : ∀ token ∈ before.getLast?, token.precedesTest = true)
    (spanned : spans CodeToken.isLoose operand = true) (inside : front <:+ before)
    (nonempty : front ≠ []) : spans CodeToken.isLoose (front ++ operand) = false := by
  rw [spans_append spanned, Bool.eq_false_iff]
  intro spannedFront
  obtain ⟨others, rfl⟩ := inside
  obtain ⟨front, last, rfl⟩ := (List.eq_nil_or_concat front).resolve_left nonempty
  rw [List.concat_eq_append] at spannedFront precedes
  obtain ⟨depth, -, nestedLast⟩ := nest_append_eq_some.mp (spans_iff.mp spannedFront)
  obtain ⟨behind, stepped, same⟩ := nest_cons_eq_some.mp nestedLast
  cases same
  have allowed := precedes last (by simp)
  rw [CodeToken.precedesTest, Bool.or_eq_true] at allowed
  rcases nestStep_cases stepped with ⟨-, impossible⟩ | ⟨isClosing, -⟩ | ⟨notOpen, -, rfl, strict⟩
  · cases impossible
  · rcases allowed with isOpen | loose
    · rw [CodeToken.not_closes_of_opens isOpen] at isClosing
      cases isClosing
    · rw [(closes_of_isLoose loose).2] at isClosing
      cases isClosing
  · rcases allowed with isOpen | loose
    · rw [isOpen] at notOpen
      cases notOpen
    · rw [strict rfl] at loose
      cases loose

/-- A token that cannot precede a test belongs to its left operand, with the
brackets that it closes. -/
theorem exists_spans_of_not_precedesTest {operand : List CodeToken}
    (nested : nest anywhere 0 before = some depth)
    (spanned : spans CodeToken.isLoose operand = true) {last : CodeToken}
    (isLast : before.getLast? = some last) (tighter : last.precedesTest = false) :
    ∃ front, front <:+ before ∧ front ≠ [] ∧
      spans CodeToken.isLoose (front ++ operand) = true := by
  obtain ⟨others, rfl⟩ := List.getLast?_eq_some_iff.mp isLast
  obtain ⟨inner, nestedOthers, nestedLast⟩ := nest_append_eq_some.mp nested
  obtain ⟨behind, stepped, -⟩ := nest_cons_eq_some.mp nestedLast
  rw [CodeToken.precedesTest, Bool.or_eq_false_iff] at tighter
  rcases nestStep_cases stepped with ⟨isOpen, -⟩ | ⟨isClosing, rfl⟩ | ⟨notOpen, notClosing, -, -⟩
  · rw [isOpen] at tighter
    cases tighter.1
  · obtain ⟨outer, opening, inside, rfl, isOpen, -, balanced⟩ := exists_opening nestedOthers
    refine ⟨opening :: (inside ++ [last]), ⟨outer, by simp⟩, List.cons_ne_nil _ _, ?_⟩
    rw [spans_append spanned, spans_group isOpen isClosing balanced]
  · refine ⟨[last], ⟨others, rfl⟩, List.cons_ne_nil _ _, ?_⟩
    rw [spans_append spanned]
    exact spans_iff.mpr (nest_cons_eq_some.mpr
      ⟨0, nestStep_of_plain notOpen notClosing fun _ => tighter.2, rfl⟩)

/-- The right operand of a test ends in front of a token that can follow it. -/
theorem rightOperand_of_followsTest (follows : ∀ token ∈ after.head?, token.followsTest = true) :
    rightOperand (nullToken :: after) = some [nullToken] := by
  refine (@longestFront_append_iff _ _ [nullToken] after).mpr ⟨rfl, fun back inside nonempty => ?_⟩
  obtain ⟨first, rest, rfl⟩ := List.exists_cons_of_ne_nil nonempty
  obtain ⟨others, rfl⟩ := inside
  have allowed := follows first rfl
  rw [Bool.eq_false_iff]
  intro spanned
  obtain ⟨inner, ofNull, nestedFirst⟩ := nest_cons_eq_some.mp (spans_iff.mp spanned)
  cases ofNull
  obtain ⟨behind, stepped, -⟩ := nest_cons_eq_some.mp nestedFirst
  rw [CodeToken.followsTest, Bool.or_eq_true, Bool.or_eq_true] at allowed
  rcases nestStep_cases stepped with ⟨isOpen, -⟩ | ⟨-, impossible⟩ | ⟨-, notClosing, -, strict⟩
  · rcases allowed with (isClosing | loose) | equates
    · rw [CodeToken.not_closes_of_opens isOpen] at isClosing
      cases isClosing
    · rw [(closes_of_isLoose loose).1] at isOpen
      cases isOpen
    · rw [(closes_of_isEquality equates).1] at isOpen
      cases isOpen
  · cases impossible
  · have allowedHere := strict rfl
    rw [Bool.or_eq_false_iff] at allowedHere
    rcases allowed with (isClosing | loose) | equates
    · rw [notClosing] at isClosing
      cases isClosing
    · rw [allowedHere.1] at loose
      cases loose
    · rw [allowedHere.2] at equates
      cases equates

/-- A token that cannot follow a test belongs to its right operand, with the
brackets that it opens. -/
theorem followsTest_of_rightOperand (nested : nest anywhere depth after = some 0)
    (right : rightOperand (nullToken :: after) = some [nullToken]) :
    ∀ token ∈ after.head?, token.followsTest = true := by
  intro first isFirst
  obtain ⟨rest, rfl⟩ := List.head?_eq_some_iff.mp isFirst
  obtain ⟨-, longer⟩ := (@longestFront_append_iff _ _ [nullToken] (first :: rest)).mp right
  rw [← Bool.not_eq_false]
  intro tighter
  rw [CodeToken.followsTest, Bool.or_eq_false_iff, Bool.or_eq_false_iff] at tighter
  obtain ⟨⟨notClosing, notLoose⟩, notEquality⟩ := tighter
  obtain ⟨inner, stepped, nestedRest⟩ := nest_cons_eq_some.mp nested
  have refuted (back : List CodeToken) (inside : back <+: first :: rest) (nonempty : back ≠ [])
      (spanned : spans (fun token => token.isLoose || token.isEquality) back = true) : False := by
    have refused := longer back inside nonempty
    rw [spans_append spanned] at refused
    cases refused
  rcases nestStep_cases stepped with ⟨isOpen, rfl⟩ | ⟨isClosing, -⟩ | ⟨notOpen, -, -, -⟩
  · obtain ⟨inside, closing, others, rfl, isClosing, -, balanced⟩ :=
      exists_closing nestedRest (Nat.zero_le _)
    exact refuted (first :: (inside ++ [closing])) ⟨others, by simp⟩ (List.cons_ne_nil _ _)
      (spans_group isOpen isClosing balanced)
  · rw [notClosing] at isClosing
    cases isClosing
  · refine refuted [first] ⟨rest, rfl⟩ (List.cons_ne_nil _ _) ?_
    exact spans_iff.mpr (nest_cons_eq_some.mpr
      ⟨0, nestStep_of_plain notOpen notClosing fun _ => by rw [notLoose, notEquality]; rfl, rfl⟩)

/-- A test is read as it is meant exactly if the collection is one chain and
neither the token in front of the test nor the one behind it binds more
tightly. -/
theorem testsWhole_iff {collection value : List CodeToken}
    (nestedBefore : nest anywhere 0 before = some depth) (balanced : spans anywhere value = true)
    (nestedAfter : nest anywhere depth after = some 0) :
    TestsWhole before collection value after ↔
      isChain collection = true ∧ (∀ token ∈ before.getLast?, token.precedesTest = true) ∧
        ∀ token ∈ after.head?, token.followsTest = true := by
  constructor
  · rintro ⟨member, -, left, right⟩
    have chain : isChain collection = true := (longestEnd_append_iff.mp member).1
    refine ⟨chain, fun last isLast => ?_, followsTest_of_rightOperand nestedAfter right⟩
    have spanned := spans_isLoose_of_isChain (isChain_findCall chain balanced)
    rw [← Bool.not_eq_false]
    intro tighter
    obtain ⟨front, inside, nonempty, longer⟩ :=
      exists_spans_of_not_precedesTest nestedBefore spanned isLast tighter
    rw [(longestEnd_append_iff.mp left).2 front inside nonempty] at longer
    cases longer
  · rintro ⟨chain, precedes, follows⟩
    have chainCall := isChain_findCall chain balanced
    refine ⟨?_, balanced, ?_, rightOperand_of_followsTest follows⟩
    · refine longestEnd_append_iff.mpr ⟨chain, fun front inside nonempty => ?_⟩
      rw [Bool.eq_false_iff]
      intro longer
      have refused := spans_eq_false_of_precedesTest precedes (spans_isLoose_of_isChain chain)
        inside nonempty
      rw [spans_isLoose_of_isChain longer] at refused
      cases refused
    · exact longestEnd_append_iff.mpr ⟨spans_isLoose_of_isChain chainCall, fun front inside nonempty =>
        spans_eq_false_of_precedesTest precedes (spans_isLoose_of_isChain chainCall) inside nonempty⟩

/-! ## Texts -/

/-- The characters that a gap can begin with. -/
theorem isBlank_or_slash_of_isGap (isGap : IsGap (character :: rest)) :
    Text.isBlank character = true ∨ character = '/' := by
  by_contra neither
  rw [not_or] at neither
  have skipped := isGap _ .blanks []
  rw [List.cons_append, skipGap_cons_self (Bool.eq_false_iff.mpr neither.1)
    (not_startsComment neither.2 _)] at skipped
  cases skipped

/-- What code begins with is a gap or its first token. -/
theorem ReadsAs.forall_head {text : List Char} (reads : ReadsAs text tokens)
    {property : Char → Prop}
    (ofBlank : ∀ character, Text.isBlank character = true → property character)
    (ofSlash : property '/') (ofToken : ∀ token ∈ tokens.head?, ∀ character word rest,
      CodeToken.Begins (character :: word) token rest → property character) :
    ∀ character ∈ text.head?, property character := by
  have ofGap {gap behind : List Char} (isGap : IsGap gap) (nonempty : gap ≠ []) :
      ∀ character ∈ (gap ++ behind).head?, property character := by
    obtain ⟨first, others, rfl⟩ := List.exists_cons_of_ne_nil nonempty
    rintro _ ⟨rfl⟩
    rcases isBlank_or_slash_of_isGap isGap with isBlank | rfl
    · exact ofBlank _ isBlank
    · exact ofSlash
  cases reads with
  | done isGap =>
    cases text with
    | nil => rintro _ ⟨⟩
    | cons first others =>
      rw [← List.append_nil (first :: others)]
      exact ofGap isGap (List.cons_ne_nil _ _)
  | @token gap word rest token tokens isGap begun others =>
    cases gap with
    | cons first others => exact ofGap isGap (List.cons_ne_nil _ _)
    | nil =>
      cases word with
      | nil => exact absurd rfl begun.nonempty
      | cons character word =>
        rintro _ ⟨rfl⟩
        exact ofToken token rfl _ word rest begun

theorem continuesSymbol_eq_false_of_isNameChar (named : isNameChar character = true) :
    continuesSymbol character = false :=
  contains_eq_false (by decide) named

/-- An operand does not begin like the rest of a symbol. -/
theorem continuesSymbol_eq_false_of_begins {word : List Char}
    (begun : CodeToken.Begins (character :: word) token rest)
    (operand : token.isAtom = true ∨ token.opensGroup = true) :
    continuesSymbol character = false := by
  cases begun.kind with
  | differs | other => rcases operand with isAtom | isOpen <;> contradiction
  | shared inScripts =>
    generalize spelling : character :: word = text at inScripts
    cases inScripts.spelled with
    | number numeral =>
      subst spelling
      have start := numeral.1
      rw [startsNumber, Bool.or_eq_true, Bool.and_eq_true, beq_iff_eq] at start
      rcases start with digit | ⟨rfl, -⟩
      · exact continuesSymbol_eq_false_of_isNameChar ((isNameChar_iff character).mpr (.inr digit))
      · rfl
    | word spelled =>
      subst spelling
      exact continuesSymbol_eq_false_of_isNameChar (isNameChar_of_mem_word spelled (.head _))
    | quoted =>
      cases spelling
      rfl
    | single single =>
      cases spelling
      unfold Symbol.ofChar? at single
      split at single
      all_goals first | rfl | cases single
      all_goals rcases operand with isAtom | isOpen <;> contradiction
    | pair pair =>
      unfold Symbol.ofPair? at pair
      split at pair
      all_goals cases pair
      all_goals rcases operand with isAtom | isOpen <;> contradiction

/-- The first token of a chain. -/
theorem operand_of_isChain (chain : isChain tokens = true) :
    ∀ token ∈ tokens.head?, token.isAtom = true ∨ token.opensGroup = true := by
  intro first isFirst
  obtain ⟨rest, rfl⟩ := List.head?_eq_some_iff.mp isFirst
  obtain ⟨next, stepped, -⟩ := Option.bind_eq_some_iff.mp (isChain_iff.mp chain)
  rw [ChainState.step] at stepped
  split at stepped
  · next isAtom => exact .inl isAtom
  · split at stepped
    · next isOpen => exact .inr isOpen
    · cases stepped

/-- The last token of a chain. -/
theorem endsOperand_of_isChain (chain : isChain tokens = true) :
    ∀ last ∈ tokens.getLast?, ∃ token, last = .shared token ∧ token.endsOperand = true := by
  intro last isLast
  have ofClosing (isClosing : last.closes = true) :
      ∃ token, last = .shared token ∧ token.endsOperand = true := by
    unfold CodeToken.closes at isClosing
    split at isClosing
    all_goals first | exact ⟨_, rfl, rfl⟩ | cases isClosing
  have ofAtom (isAtom : last.isAtom = true) :
      ∃ token, last = .shared token ∧ token.endsOperand = true := by
    unfold CodeToken.isAtom at isAtom
    split at isAtom
    all_goals first | exact ⟨_, rfl, rfl⟩ | cases isAtom
  obtain ⟨others, rfl⟩ := List.getLast?_eq_some_iff.mp isLast
  rw [isChain_iff, ChainState.run_append, Option.bind_eq_some_iff] at chain
  obtain ⟨state, -, reached⟩ := chain
  obtain ⟨next, stepped, same⟩ := Option.bind_eq_some_iff.mp reached
  cases same
  cases state with
  | start =>
    rw [ChainState.step] at stepped
    split at stepped
    · next isAtom => exact ofAtom isAtom
    · split at stepped <;> cases stepped
  | behind =>
    rw [ChainState.step] at stepped
    split at stepped
    · cases stepped
    · split at stepped <;> cases stepped
  | point =>
    rw [ChainState.step] at stepped
    split at stepped
    · next isWord =>
      unfold CodeToken.isWord at isWord
      split at isWord
      all_goals first | exact ⟨_, rfl, rfl⟩ | cases isWord
    · cases stepped
  | inside depth =>
    rw [ChainState.step] at stepped
    split at stepped
    · cases stepped
    · split at stepped
      · next isClosing => exact ofClosing isClosing
      · cases stepped

theorem exists_symbol_of_precedesTest (precedes : token.precedesTest = true) :
    ∃ mark, token = .shared (.symbol mark) ∧ mark ≠ .dot ∧ mark ≠ .slash := by
  rw [CodeToken.precedesTest, Bool.or_eq_true] at precedes
  rcases precedes with isOpen | loose
  · unfold CodeToken.opens at isOpen
    split at isOpen
    all_goals first | exact ⟨_, rfl, by decide, by decide⟩ | cases isOpen
  · unfold CodeToken.isLoose at loose
    split at loose
    all_goals first | exact ⟨_, rfl, by decide, by decide⟩ | cases loose

theorem isNameChar_eq_false_of_ofChar? (isMark : (Symbol.ofChar? character).isSome = true) :
    isNameChar character = false := by
  obtain ⟨notDigit, notName, -⟩ := not_other_of_ofChar? isMark
  rw [Bool.eq_false_iff, ne_eq, isNameChar_iff, notDigit, notName]
  simp

/-- A token that can follow a test does not go on with a name. -/
theorem isNameChar_eq_false_of_followsTest {word : List Char}
    (begun : CodeToken.Begins (character :: word) token rest) (follows : token.followsTest = true) :
    isNameChar character = false := by
  cases begun.kind with
  | differs spelled =>
    cases spelled
    rfl
  | other => cases follows
  | shared inScripts =>
    generalize spelling : character :: word = text at inScripts
    cases inScripts.spelled with
    | number => cases follows
    | word =>
      unfold Token.ofWord at follows
      split at follows <;> cases follows
    | quoted => cases follows
    | single single =>
      cases spelling
      exact isNameChar_eq_false_of_ofChar? (by rw [single]; rfl)
    | pair pair =>
      cases spelling
      unfold Symbol.ofPair? at pair
      split at pair
      all_goals first | rfl | cases pair

/-- A bracket is a token whatever follows it. -/
theorem begins_bracket {character : Char} {mark : Symbol}
    (separates : isSeparator character = true) (single : Symbol.ofChar? character = some mark)
    (rest : List Char) : CodeToken.Begins [character] (.shared (.symbol mark)) rest := by
  have isMark := eq_of_isSeparator separates
  refine CodeToken.begins_shared (begins_symbol single ?_ ?_ ?_) (by simp)
  · intro second _
    rcases isMark with rfl | rfl | rfl | rfl | rfl | rfl | rfl | rfl <;> rfl
  · rintro rfl
    cases separates
  · refine not_startsComment ?_ _
    rintro rfl
    cases separates

theorem begins_point {others : List Char} (noDigit : startsWithDigit others = false) :
    CodeToken.Begins ['.'] (.shared (.symbol .dot)) others := by
  refine CodeToken.begins_shared (begins_symbol rfl ?_ ?_ (not_startsComment (by decide) _))
    (by simp)
  · intro second _
    rfl
  · exact fun _ => noDigit

theorem isGap_blank : IsGap [' '] :=
  isGap_singleton (by decide)

/-- Tokens in front of a separator are not continued. -/
theorem ReadsAs.append_separator {first others : List Char} {behind : List CodeToken}
    (reads : ReadsAs first tokens) (separates : isSeparator character = true)
    (readsBehind : ReadsAs (character :: others) behind) :
    ReadsAs (first ++ character :: others) (tokens ++ behind) := by
  refine reads.append readsBehind ?_ ?_
  · intro token _ word begun
    exact begun.of_separator separates others
  · intro _
    rw [startsWithLetter, Bool.eq_false_iff]
    intro letter
    rw [isAlpha_iff] at letter
    rcases eq_of_isSeparator separates with rfl | rfl | rfl | rfl | rfl | rfl | rfl | rfl <;>
      simp at letter

/-- The text of a test is read as its tokens, if the collection is one chain and
the tokens around the test allow it. -/
theorem readsAs_test {before collection value after : List Char}
    {tokensBefore tokensCollection tokensValue tokensAfter : List CodeToken}
    (readsBefore : ReadsAs before tokensBefore)
    (readsCollection : ReadsAs collection tokensCollection)
    (readsValue : ReadsAs value tokensValue) (readsAfter : ReadsAs after tokensAfter)
    (chain : isChain tokensCollection = true)
    (precedes : ∀ token ∈ tokensBefore.getLast?, token.precedesTest = true)
    (follows : ∀ token ∈ tokensAfter.head?, token.followsTest = true) :
    ReadsAs (before ++ (collection ++ (".find(".toList ++ (value ++ (") !== null".toList ++ after)))))
      (tokensBefore ++ findCall tokensCollection tokensValue ++ .differs :: nullToken :: tokensAfter) := by
  have ended : Stops isNameChar after := by
    refine readsAfter.forall_head (fun _ => isNameChar_eq_false_of_isBlank) rfl ?_
    intro token isFirst character word rest begun
    exact isNameChar_eq_false_of_followsTest begun (follows token isFirst)
  have readsNull : ReadsAs ("null".toList ++ after) (nullToken :: tokensAfter) :=
    (CodeToken.begins_shared (begins_name (by decide) ended)
      (fun isPair => absurd isPair (by decide))).readsAs readsAfter
  have readsComparison : ReadsAs (") !== null".toList ++ after)
      (.shared (.symbol .closeParen) :: .differs :: nullToken :: tokensAfter) := by
    refine (begins_bracket rfl rfl _).readsAs ?_
    exact ((CodeToken.begins_differs _).readsAs (readsNull.gap isGap_blank)).gap isGap_blank
  have readsArguments := readsValue.append_separator rfl readsComparison
  have readsCall : ReadsAs (".find(".toList ++ (value ++ (") !== null".toList ++ after)))
      (.shared (.symbol .dot) :: .shared (.name "find") :: .shared (.symbol .openParen) ::
        (tokensValue ++
          .shared (.symbol .closeParen) :: .differs :: nullToken :: tokensAfter)) := by
    refine (begins_point rfl).readsAs ?_
    refine (CodeToken.begins_shared (@begins_name "find" ('(' :: _) (by decide) ?_)
      (fun isPair => absurd isPair (by decide))).readsAs ?_
    · rw [stops_cons]
      decide
    · exact (begins_bracket rfl rfl _).readsAs readsArguments
  have readsTest := readsCollection.append readsCall
    (fun last isLast word begun => by
      obtain ⟨token, rfl, ends⟩ := endsOperand_of_isChain chain last isLast
      exact begun.of_member ends rfl)
    (fun _ => rfl)
  have startsOperand : Stops continuesSymbol
      (collection ++ (".find(".toList ++ (value ++ (") !== null".toList ++ after)))) := by
    refine readsTest.forall_head ?_ rfl ?_
    · exact fun character isBlank => contains_eq_false (by decide) isBlank
    · intro token isFirst character word rest begun
      refine continuesSymbol_eq_false_of_begins begun (operand_of_isChain chain token ?_)
      cases tokensCollection with
      | nil => cases chain
      | cons first others => exact isFirst
  have readsAll := readsBefore.append readsTest
    (fun last isLast word begun => by
      obtain ⟨mark, rfl, notPoint, notSlash⟩ :=
        exists_symbol_of_precedesTest (precedes last isLast)
      exact begun.of_symbol notPoint notSlash startsOperand)
    (fun isLast => by cases precedes _ isLast)
  simpa [findCall] using readsAll

end EventScript
