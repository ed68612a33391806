import EventScript.Proofs.Grammar.Parenthesized
import EventScript.Proofs.Text.Fillings

/-!
# Coordinates in pixels

A coordinate is multiplied by the size of a tile.  Its code is put in
parentheses first, unless it is one word of letters, digits, underscores and
points.  Such a word is an operand that binds more tightly than a product, with
one exception: `5in.5` is one word, and it is read as a membership test.
-/

namespace EventScript

variable {text : String} {tokens found : List Token} {expr : Expr}

theorem lexes_of_outcomes (reported : outcomes text = tokens.map .ok ++ [.ok .endOfInput]) :
    Lexes text.toList tokens := by
  have clean : ∀ outcome ∈ outcomes text, outcome.isOk = true := by
    rw [reported]
    simp only [List.mem_append, List.mem_map, List.mem_singleton]
    rintro _ (⟨token, -, rfl⟩ | rfl) <;> rfl
  obtain ⟨found, lexed⟩ := exists_lexes_of_clean clean
  rw [outcomes_of_lexes lexed] at reported
  have same := (List.map_inj_right fun _ _ => Except.ok.inj).mp (List.append_cancel_right reported)
  exact same ▸ lexed

/-- The origin of a level on an axis, as it is read. -/
def Axis.originChain (axis : Axis) : Expr :=
  .dotted [.name "this", .name "level", .name (match axis with | .x => "x" | .y => "y")]

namespace CoordinateMode

variable (mode : CoordinateMode) (axis : Axis)

/-- The expression for the pixel position of a coordinate: its product with the
size of a tile, in a level on top of the origin of the level. -/
def position (mode : CoordinateMode) (axis : Axis) (coordinate : Expr) : Expr :=
  match mode with
  | .inWorld => .binary .mul coordinate (.number "16")
  | .inLevel => .binary .add (.binary .mul coordinate (.number "16")) axis.originChain

/-- The text behind the code for a coordinate that is scaled. -/
def scaling : CoordinateMode → Axis → String
  | .inWorld, _ => "*16"
  | .inLevel, .x => "*16 + this.level.x"
  | .inLevel, .y => "*16 + this.level.y"

/-- The tokens behind a coordinate that is scaled. -/
def scalingTokens (mode : CoordinateMode) (axis : Axis) : List Token :=
  .symbol .star :: .number "16" ::
    match mode with
    | .inWorld => []
    | .inLevel => .symbol .plus :: axis.originChain.tokens

theorem lexes_scaling : Lexes (mode.scaling axis).toList (mode.scalingTokens axis) := by
  cases mode <;> cases axis <;> exact lexes_of_outcomes (by decide)

theorem scaled_eq (noNumber : Decimal.read? (Text.trim text) = none) :
    scaled text = (if isAtom text then text else "(" ++ text ++ ")") ++ "*16" := by
  have size : toString tileSize = "16" := by decide
  have times : "*" ++ "16" = "*16" := by decide
  have closing : ")*" ++ "16" = ")" ++ "*16" := by decide
  rw [scaled, noNumber]
  dsimp only
  rw [size]
  split
  · rw [String.append_assoc, times]
  · rw [String.append_assoc, closing, ← String.append_assoc]

theorem toPixels_eq (noNumber : Decimal.read? (Text.trim text) = none) :
    mode.toPixels text axis =
      (if isAtom text then text else "(" ++ text ++ ")") ++ mode.scaling axis := by
  cases mode with
  | inWorld => rw [toPixels, scaled_eq noNumber, scaling]
  | inLevel =>
    have origin : "*16" ++ (" + " ++ axis.origin) = inLevel.scaling axis := by
      cases axis <;> decide
    rw [toPixels, scaled_eq noNumber, String.append_assoc, String.append_assoc, origin]

/-! ## Trees for positions -/

theorem tokens_position (coordinate : Expr) :
    (mode.position axis coordinate).tokens = coordinate.tokens ++ mode.scalingTokens axis := by
  cases mode <;> simp [position, scalingTokens, Expr.tokens, BinaryOp.token]

theorem level_position (coordinate : Expr) : 6 ≤ (mode.position axis coordinate).level := by
  cases mode <;> simp [position, Expr.level, BinaryOp.strength]

end CoordinateMode

theorem shaped_sixteen : (Expr.number "16").Shaped :=
  .number (by decide)

theorem Axis.shaped_originChain (axis : Axis) : axis.originChain.Shaped := by
  refine .dotted (.name (by decide)) (by decide) rfl (by simp) ?_ (by simp [Expr.isMember])
  rw [List.forall_mem_cons, List.forall_mem_singleton]
  refine ⟨.name (by decide), .name ?_⟩
  cases axis <;> decide

namespace CoordinateMode

theorem shaped_position (mode : CoordinateMode) (axis : Axis) {coordinate : Expr}
    (shaped : coordinate.Shaped) (tight : 7 ≤ coordinate.level) :
    (mode.position axis coordinate).Shaped := by
  have product : (Expr.binary .mul coordinate (.number "16")).Shaped :=
    .operation (by decide) shaped tight shaped_sixteen (by decide)
  cases mode with
  | inWorld => exact product
  | inLevel =>
    refine .operation (by decide) product ?_ axis.shaped_originChain ?_
    · simp [Expr.level, BinaryOp.strength]
    · simp [Expr.level, BinaryOp.strength, Axis.originChain]

end CoordinateMode

/-! ## Words -/

theorem forall_of_isAtom (isWord : isAtom text = true) :
    ∀ character ∈ text.toList, isNameChar character = true ∨ character = '.' := by
  rw [isAtom, Bool.and_eq_true, List.all_eq_true] at isWord
  intro character member
  simpa [isNameChar] using isWord.2 character member

/-- The tokens that are spelled with letters, digits, underscores and points. -/
def Token.inWord : Token → Bool
  | .number _ => true
  | .name _ => true
  | .keyword _ => true
  | .symbol .dot => true
  | _ => false

theorem Spelled.inWord {word : List Char} {token : Token} (spelled : Spelled word token)
    (plain : ∀ character ∈ word, isNameChar character = true ∨ character = '.') :
    token.inWord = true := by
  cases spelled with
  | number => rfl
  | word =>
    unfold Token.ofWord
    split <;> rfl
  | quoted =>
    rcases plain '"' (by simp) with named | isPoint
    · cases named
    · cases isPoint
  | @single character mark single =>
    obtain ⟨noDigit, noStart, -⟩ := not_other_of_ofChar? (by rw [single]; rfl : _ = true)
    rcases plain character List.mem_cons_self with named | rfl
    · rw [isNameChar_iff, noDigit, noStart] at named
      rcases named with isStart | isDigit
      · cases isStart
      · cases isDigit
    · cases single
      rfl
  | @pair first second mark pair =>
    have plainFirst := plain first List.mem_cons_self
    unfold Symbol.ofPair? at pair
    split at pair
    all_goals first | exact absurd plainFirst (by decide) | cases pair

theorem BinaryOp.eq_isIn_of_inWord {op : BinaryOp} (inWord : op.token.inWord = true) :
    op = .isIn := by
  cases op <;> first | rfl | cases inWord

namespace Expr

/-- An expression of such tokens is an operand, or a membership test with an operand
on its right. -/
theorem Shaped.cases_of_inWord (shaped : Shaped expr)
    (inWord : ∀ token ∈ expr.tokens, token.inWord = true) :
    10 ≤ expr.level ∨ ∃ left right, expr = .binary .isIn left right ∧ Shaped left ∧
      5 ≤ left.level ∧ Shaped right ∧ 10 ≤ right.level := by
  induction shaped with
  | number _ | name _ | dotted => exact .inl (by simp [level])
  | text value => cases inWord (.text value) (by simp [tokens])
  | list _ => cases inWord (.symbol .openBrace) (by simp [tokens])
  | grouped _ | call => cases inWord (.symbol .openParen) (by simp [tokens])
  | @prefixed op operand inFront _ _ _ =>
    have isWord := inWord op.token (by simp [tokens, inFront])
    cases op <;> cases isWord
  | @postfixed op operand behind _ _ _ =>
    have isWord := inWord op.token (by simp [tokens, behind])
    cases op <;> cases isWord
  | @assignment op target value loose _ _ _ _ _ =>
    cases BinaryOp.eq_isIn_of_inWord (inWord op.token (by simp [tokens]))
    cases loose
  | @operation op left right tighter shapedLeft tightLeft shapedRight tightRight _ ihRight =>
    obtain rfl := BinaryOp.eq_isIn_of_inWord (inWord op.token (by simp [tokens]))
    refine .inr ⟨left, right, rfl, shapedLeft, tightLeft, shapedRight, ?_⟩
    rcases ihRight fun token member => inWord token (by simp [tokens, member]) with
      tight | ⟨_, _, rfl, -⟩
    · exact tight
    · exact absurd tightRight (Nat.lt_irrefl _)
  | within => cases inWord (.symbol .less) (by simp [tokens])
  | conditional => cases inWord (.symbol .question) (by simp [tokens])
  | index => cases inWord (.symbol .openBracket) (by simp [tokens])

end Expr

/-- Nothing in a word is an unquoted argument. -/
theorem Expr.Spells.eq_map_of_inWord {taken : List Taken} (spells : Spells taken tokens)
    (inWord : ∀ token, .token token ∈ taken → token = .endOfInput ∨ token.inWord = true) :
    taken = tokens.map .token := by
  induction spells with
  | nil => rfl
  | token token _ ih =>
    rw [ih fun token member => inWord token (List.mem_cons_of_mem _ member), List.map_cons]
  | @raw _ _ mark _ _ _ isMark _ _ =>
    rcases inWord (.symbol mark) (by simp) with isEnd | isWord
    · cases isEnd
    · rcases isMark with rfl | rfl <;> cases isWord

/-- A stream that gives tokens up to the end stands at these tokens. -/
theorem Stream.At.eq_of_gives {stream after : Stream} (standsAt : stream.At found)
    (standing : stream.Standing) (inside : ∀ token ∈ tokens, token ≠ .endOfInput)
    (gives : stream.Gives (tokens.map .token) after) (atEnd : after.current = .endOfInput) :
    found = tokens := by
  induction tokens generalizing stream found with
  | nil =>
    cases gives
    cases found with
    | nil => rfl
    | cons token others =>
      have shorter := standsAt.2.2.1
      rw [Stream.remaining, Stream.remaining, standing.eq_nil_of_endOfInput atEnd] at shorter
      cases shorter
  | cons token tokens ih =>
    obtain ⟨isCurrent, gives⟩ := gives
    rw [List.forall_mem_cons] at inside
    cases found with
    | nil => exact absurd (isCurrent.symm.trans standsAt) inside.1
    | cons first others =>
      rw [← standsAt.1, isCurrent,
        ih standsAt.advance (Stream.standing_advance stream) inside.2 gives]

/-- A word that is read as an expression reads as the tokens of the expression. -/
theorem lexes_tokens_of_isAtom (isWord : isAtom text = true) (lexed : Lexes text.toList found)
    (parsed : Expr.parse text = .ok expr) :
    Lexes text.toList expr.tokens ∧ ∀ token ∈ expr.tokens, token.inWord = true := by
  obtain ⟨-, after, run, atEnd⟩ := Expr.parse_eq_ok_iff.mp parsed
  have standing := Stream.standing_ofText text.toList
  obtain ⟨taken, gives, isOperand, -⟩ := Parser.ensures_expression standing run
  have lasting := Parser.lasting_suffix text.toList
  -- Each token the parser meets is spelled in the word, also behind unquoted arguments.
  have steady : Parser.Steady (fun stream => stream.Standing ∧ stream.start.rest <:+ text.toList)
      (fun token => token = .endOfInput ∨ token.inWord = true) fun _ => True := by
    refine ⟨fun stream holds => ?_, lasting.advance, fun stream holds =>
      ⟨lasting.takeRaw stream holds, trivial⟩⟩
    rcases holds.1.cases with ⟨-, isEnd, -⟩ | ⟨word, place, begun⟩
    · exact .inl isEnd
    · refine .inr (begun.spelled.inWord fun character member => ?_)
      apply forall_of_isAtom isWord
      exact holds.2.subset (place ▸ List.mem_append_left _ member)
  have inWord := (gives.kept steady ⟨standing, Stream.isSuffix_seek _ _ _⟩).2.1
  have taken_eq := isOperand.spells.eq_map_of_inWord inWord
  have inside : ∀ token ∈ expr.tokens, token ≠ .endOfInput := fun _ member =>
    (Expr.ne_of_mem_tokens member).2
  rw [taken_eq] at gives inWord
  have found_eq := (Stream.at_ofText lexed).1.eq_of_gives standing inside gives atEnd
  refine ⟨found_eq ▸ lexed, fun token member => ?_⟩
  exact (inWord token (List.mem_map_of_mem member)).resolve_left (inside token member)

/-! ## Scaling -/

namespace CoordinateMode

open EventScript.Parser

variable (mode : CoordinateMode) (axis : Axis)

/-- A word is scaled as a whole, or as the collection of a membership test. -/
theorem parse_word_scaling (isWord : isAtom text = true) (lexed : Lexes text.toList found)
    (uncommented : Uncommented text.toList) (parsed : Expr.parse text = .ok expr) :
    (10 ≤ expr.level ∧
        Expr.parse (text ++ mode.scaling axis) = .ok (mode.position axis expr)) ∨
      ∃ left right, expr = .binary .isIn left right ∧
        Expr.parse (text ++ mode.scaling axis) =
          .ok (.binary .isIn left (mode.position axis right)) := by
  obtain ⟨lexedTokens, inWord⟩ := lexes_tokens_of_isAtom isWord lexed parsed
  obtain ⟨gap, rest, split, blank, worded⟩ := lexedTokens.exists_worded uncommented
  have noSlash : '/' ∉ rest := by
    intro member
    have plain := forall_of_isAtom isWord '/' (by rw [split]; exact List.mem_append_right _ member)
    exact absurd plain (by decide)
  have apart : SetApart rest (mode.scaling axis).toList := by
    cases mode <;> cases axis <;> exact .star noSlash (by rintro _ ⟨rfl⟩; rfl)
  have whole : Lexes (text ++ mode.scaling axis).toList
      (expr.tokens ++ mode.scalingTokens axis) := by
    rw [String.toList_append, split, List.append_assoc]
    exact (worded.lexes_append apart (mode.lexes_scaling axis)).blanks blank
  have shaped := Expr.shaped_of_parse parsed
  rcases shaped.cases_of_inWord inWord with tight | ⟨left, right, rfl, shapedLeft, tightLeft,
    shapedRight, tightRight⟩
  · refine .inl ⟨tight, Expr.parse_of_lexes ?_ (mode.shaped_position axis shaped (by omega))⟩
    rwa [mode.tokens_position]
  · refine .inr ⟨left, right, rfl, Expr.parse_of_lexes ?_ ?_⟩
    · rw [Expr.tokens, mode.tokens_position, ← List.cons_append, ← List.append_assoc]
      exact whole
    · exact .operation (by decide) shapedLeft tightLeft
        (mode.shaped_position axis shapedRight (by omega)) (mode.level_position axis right)

/-- An operand in front of the scaling is scaled as a whole. -/
theorem comes_position {stream : Stream} {operand : Expr} {depth : Nat}
    (room : (mode.scaling axis).toList.length < depth)
    (noPrefix : UnaryOp.ofToken? stream.current = none)
    (comes : Comes (rule (nested depth) 11) stream operand (mode.scalingTokens axis)) :
    Comes (rule (nested depth) 0) stream (mode.position axis operand) [] := by
  have done (level : Nat) : Ends level [] := by rintro _ ⟨⟩
  have product {rest : List Token} (ended : Ends 7 rest)
      (comes : Comes (rule (nested depth) 11) stream operand
        (BinaryOp.mul.token :: ((Expr.number "16").tokens ++ rest))) :
      Comes (rule (nested depth) 7) stream (.binary .mul operand (.number "16")) rest := by
    have factor := comes.rule_of_le (by decide : 8 ≤ 11) (Nat.le_refl _)
      (ends_operator (by decide)) noPrefix
    exact factor.operation .mul (by decide) shaped_sixteen (by decide) (Nat.zero_lt_of_lt room)
      (by decide) ended
  cases mode with
  | inWorld => exact (product (done 7) comes).rule_of_le (by decide) (by decide) (done 0) noPrefix
  | inLevel =>
    have ended : Ends 7 (BinaryOp.add.token :: axis.originChain.tokens) :=
      ends_operator (by decide)
    have scaled := product ended comes
    rw [← List.append_nil axis.originChain.tokens] at scaled
    have enough : axis.originChain.tokens.length ≤ depth :=
      Nat.le_of_lt (Nat.lt_of_le_of_lt (by cases axis <;> decide) room)
    have sum := scaled.operation .add (by decide) axis.shaped_originChain (by decide : 6 < 10)
      enough (by decide) (done 6)
    exact sum.rule_of_le (by decide) (by decide) (done 0) noPrefix

/-- What stands in parentheses is scaled as a whole. -/
theorem parse_group_scaling (lexed : Lexes text.toList found)
    (uncommented : Uncommented text.toList) (parsed : Expr.parse text = .ok expr) :
    Expr.parse ("(" ++ text ++ ")" ++ mode.scaling axis) =
      .ok (mode.position axis (.grouped expr)) := by
  refine Expr.parse_parenthesized parsed lexed uncommented (mode.lexes_scaling axis) ?_
  intro depth stream room isOpen comes
  exact mode.comes_position axis room (by rw [isOpen]; rfl) comes

/-- The position of a coordinate is a product or a sum. -/
theorem position_ne_isIn (coordinate left right : Expr) :
    mode.position axis coordinate ≠ .binary .isIn left right := by
  cases mode <;> rintro ⟨⟩

/-- Code that reads without errors, holds no comment and is no number is scaled as a
whole, itself or in parentheses, unless it is one word that is read as a membership
test.  Then the test is made in the scaled collection. -/
theorem parse_toPixels_iff (mode : CoordinateMode) (axis : Axis) {text : String} {expr : Expr}
    (clean : ∀ outcome ∈ outcomes text, outcome.isOk = true)
    (noLine : Text.contains text "//" = false) (noMarks : Text.contains text "/*" = false)
    (parsed : Expr.parse text = .ok expr) (noNumber : Decimal.read? (Text.trim text) = none) :
    ((∃ factor, (factor = expr ∨ factor = .grouped expr) ∧
        Expr.parse (mode.toPixels text axis) = .ok (mode.position axis factor)) ↔
      ¬(isAtom text = true ∧ ∃ left right, expr = .binary .isIn left right)) ∧
    ∀ left right, isAtom text = true → expr = .binary .isIn left right →
      Expr.parse (mode.toPixels text axis) =
        .ok (.binary .isIn left (mode.position axis right)) := by
  obtain ⟨found, lexed⟩ := exists_lexes_of_clean clean
  have uncommented : Uncommented text.toList :=
    ⟨fun inside => by simp [Text.contains, Text.occursIn_iff_isInfix.mpr inside] at noLine,
      fun inside => by simp [Text.contains, Text.occursIn_iff_isInfix.mpr inside] at noMarks⟩
  rw [mode.toPixels_eq axis noNumber]
  by_cases isWord : isAtom text = true
  · rw [if_pos isWord]
    rcases mode.parse_word_scaling axis isWord lexed uncommented parsed with
      ⟨tight, scaled⟩ | ⟨left, right, rfl, scaled⟩
    · have noTest (left right : Expr) : expr ≠ .binary .isIn left right := by
        rintro rfl
        exact absurd tight (by simp [Expr.level, BinaryOp.strength])
      refine ⟨⟨?_, fun _ => ⟨expr, .inl rfl, scaled⟩⟩, fun left right _ isTest => ?_⟩
      · rintro - ⟨-, left, right, isTest⟩
        exact noTest left right isTest
      · exact absurd isTest (noTest left right)
    · refine ⟨⟨?_, fun other => absurd ⟨isWord, left, right, rfl⟩ other⟩, ?_⟩
      · rintro ⟨factor, -, whole⟩ -
        exact mode.position_ne_isIn axis factor left _ (Except.ok.inj (whole.symm.trans scaled))
      · rintro _ _ - ⟨⟩
        exact scaled
  · rw [if_neg isWord]
    have scaled := mode.parse_group_scaling axis lexed uncommented parsed
    refine ⟨⟨fun _ other => isWord other.1, fun _ => ⟨_, .inr rfl, scaled⟩⟩, ?_⟩
    exact fun _ _ other => absurd other isWord

/-- A coordinate with an unquoted argument. -/
theorem parse_toPixels_unquoted :
    let expr := Expr.call "hasweapon" [.text "big sword"]
    (∀ outcome ∈ outcomes "hasweapon(big sword)", outcome.isOk = true) ∧
      Text.contains "hasweapon(big sword)" "//" = false ∧
      Text.contains "hasweapon(big sword)" "/*" = false ∧
      Expr.parse "hasweapon(big sword)" = .ok expr ∧
      Decimal.read? (Text.trim "hasweapon(big sword)") = none ∧
      ∃ factor, (factor = expr ∨ factor = .grouped expr) ∧
        Expr.parse (inLevel.toPixels "hasweapon(big sword)" .y) =
          .ok (inLevel.position .y factor) := by
  have clean : ∀ outcome ∈ outcomes "hasweapon(big sword)", outcome.isOk = true := by decide
  have parsed : Expr.parse "hasweapon(big sword)" =
      .ok (.call "hasweapon" [.text "big sword"]) := by rfl
  have noNumber : Decimal.read? (Text.trim "hasweapon(big sword)") = none := rfl
  refine ⟨clean, by decide, by decide, parsed, noNumber, ?_⟩
  refine (parse_toPixels_iff inLevel .y clean (by decide) (by decide) parsed noNumber).1.mpr ?_
  rintro ⟨isWord, -⟩
  exact absurd isWord (by decide)

/-- A membership test that is written as one word: its collection alone is scaled. -/
theorem membership_scaled_in_part :
    let expr := Expr.binary .isIn (.number "5") (.number ".5")
    (∀ outcome ∈ outcomes "5in.5", outcome.isOk = true) ∧ Text.contains "5in.5" "//" = false ∧
      Text.contains "5in.5" "/*" = false ∧ Expr.parse "5in.5" = .ok expr ∧
      Decimal.read? (Text.trim "5in.5") = none ∧
      ¬∃ factor, (factor = expr ∨ factor = .grouped expr) ∧
        Expr.parse (inWorld.toPixels "5in.5" .x) = .ok (inWorld.position .x factor) := by
  intro expr
  have scaled : Expr.parse (inWorld.toPixels "5in.5" .x) =
      .ok (.binary .isIn (.number "5") (inWorld.position .x (.number ".5"))) := rfl
  refine ⟨by decide, by decide, by decide, rfl, rfl, ?_⟩
  rintro ⟨factor, -, whole⟩
  exact position_ne_isIn _ _ _ _ _ (Except.ok.inj (whole.symm.trans scaled))

end CoordinateMode

end EventScript
