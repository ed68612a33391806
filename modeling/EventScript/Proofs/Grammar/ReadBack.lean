import EventScript.Proofs.Grammar.Reading

/-!
# Reading back, construction by construction

One lemma for each construction of the grammar says that it is readable if its
parts are; together they give that every tree of the grammar is read back from
its tokens.
-/

namespace EventScript.Parser

open Expr

variable {depth : Nat} {rest : List Token}
variable {op : BinaryOp} {expr left right : Expr}

/-! ## Suffixes -/

theorem reads_suffix_member {segment : Expr} {spelling : String} {others : List Token}
    (first : segment.tokens = .name spelling :: others)
    (read : Reads (nameOrCall (nested depth).expression spelling) segment.tokens rest segment)
    (target : Expr) :
    Reads (round (nested depth) 10 target) (.symbol .dot :: segment.tokens) rest
      (some (target.withMember segment)) := by
  refine Reads.current_bind (Reads.advance_bind (Reads.current_bind ?_))
  rw [first] at read ⊢
  exact Reads.map read _

theorem reads_suffix_index {indices : List Expr} (readable : ∀ item ∈ indices, Readable item)
    (shaped : ∀ item ∈ indices, Shaped item) (deep : (separated .comma indices).length < depth)
    (rest : List Token) (target : Expr) :
    Reads (round (nested depth) 10 target)
      (.symbol .openBracket :: (separated .comma indices ++ [.symbol .closeBracket])) rest
      (some (target.indexedBy indices)) := by
  refine Reads.current_bind (Reads.advance_bind ?_)
  refine Reads.bind (reads_expressions readable shaped deep ?_ ?_ rfl rfl)
    (Reads.expect_bind (Reads.pure _ rest))
  · rintro _ ⟨⟩
  · simp

theorem reads_suffix_operator {op : UnaryOp} (behind : op.isPostfix = true) (target : Expr) :
    Reads (round (nested depth) 10 target) [op.token] rest (some (.unary op target)) := by
  cases op with
  | postIncrement
  | postDecrement => exact Reads.current_bind (Reads.advance_bind (Reads.pure _ rest))
  | _ => cases behind

/-! ## Constructions without a loop -/

theorem Readable.of_whole (noLoop : isLoop expr.level = false) (noMember : expr.isMember = false)
    (whole : ∀ depth rest, expr.tokens.length ≤ depth → Ends expr.level rest →
      Reads (rule (nested depth) expr.level) expr.tokens rest expr) : Readable expr where
  spine _ _ _ loops := by simp [noLoop] at loops
  whole depth rest deep _ := whole depth rest deep
  member _ _ _ isMember := by simp [noMember] at isMember

theorem readable_number (spelling : String) : Readable (.number spelling) :=
  .of_whole rfl rfl fun _ rest _ _ =>
    Reads.current_bind (Reads.advance_bind (Reads.pure _ rest))

theorem readable_text (value : String) : Readable (.text value) :=
  .of_whole rfl rfl fun _ rest _ _ =>
    Reads.current_bind (Reads.advance_bind (Reads.pure _ rest))

theorem readable_name (spelling : String) : Readable (.name spelling) where
  spine _ _ _ loops := by cases loops
  whole _ _ _ _ ended := Reads.current_bind (reads_nameOrCall_name _ spelling ended)
  member _ _ _ _ ended target :=
    .single (reads_suffix_member rfl (reads_nameOrCall_name _ spelling ended) target) (by simp)

theorem readable_call {function : String} {arguments : List Expr}
    (readable : ∀ argument ∈ arguments, Readable argument)
    (shaped : ∀ argument ∈ arguments, Shaped argument) (quoted : QuotesRaw function arguments) :
    Readable (.call function arguments) where
  spine _ _ _ loops := by cases loops
  whole depth rest deep _ _ := by
    refine Reads.current_bind (reads_nameOrCall_call readable shaped quoted ?_)
    simp only [Expr.tokens, List.length_cons, List.length_append] at deep
    omega
  member depth rest deep _ _ target := by
    refine .single (reads_suffix_member rfl (reads_nameOrCall_call readable shaped quoted ?_) target)
      (by simp)
    simp only [Expr.tokens, List.length_cons, List.length_append] at deep
    omega

theorem readable_grouped {inner : Expr} (readable : Readable inner) (shaped : Shaped inner) :
    Readable (.grouped inner) := by
  refine .of_whole rfl rfl ?_
  intro depth rest deep _
  simp only [Expr.tokens, List.length_cons, List.length_append] at deep
  refine Reads.current_bind (Reads.advance_bind ?_)
  refine Reads.bind (readable.reads_expression shaped (by omega) ?_)
    (Reads.expect_bind (Reads.pure _ rest))
  rintro _ ⟨⟩

theorem readable_list {items : List Expr} (readable : ∀ item ∈ items, Readable item)
    (shaped : ∀ item ∈ items, Shaped item) : Readable (.list items) := by
  refine .of_whole rfl rfl ?_
  intro depth rest deep _
  simp only [Expr.tokens, List.length_cons, List.length_append] at deep
  refine Reads.current_bind (Reads.advance_bind ?_)
  refine Reads.bind (reads_expressions readable shaped (by omega) ?_ ?_ rfl rfl)
    (Reads.expect_bind (Reads.pure _ rest))
  · rintro _ ⟨⟩
  · simp

theorem readable_prefixed {op : UnaryOp} {operand : Expr} (inFront : op.isPostfix = false)
    (readable : Readable operand) (shaped : Shaped operand) (tight : 9 ≤ operand.level) :
    Readable (.unary op operand) := by
  have isLevel : (Expr.unary op operand).level = 9 := by simp [level, inFront]
  have spelled : (Expr.unary op operand).tokens = op.token :: operand.tokens := by
    simp [Expr.tokens, inFront]
  refine .of_whole (by rw [isLevel]; rfl) rfl ?_
  intro depth rest deep ended
  rw [isLevel] at ended ⊢
  rw [spelled] at deep ⊢
  refine Reads.current_bind ?_
  rw [List.cons_append, List.headD_cons, UnaryOp.ofToken?_token inFront]
  exact Reads.advance_bind (Reads.map (readable.reads_unary shaped tight deep ended) _)

theorem readable_conditional {condition whenTrue whenFalse : Expr}
    (readableCondition : Readable condition) (shapedCondition : Shaped condition)
    (tightCondition : 2 ≤ condition.level) (readableTrue : Readable whenTrue)
    (shapedTrue : Shaped whenTrue) (readableFalse : Readable whenFalse)
    (shapedFalse : Shaped whenFalse) (tightFalse : 1 ≤ whenFalse.level) :
    Readable (.conditional condition whenTrue whenFalse) := by
  refine .of_whole rfl rfl ?_
  intro depth rest deep ended
  simp only [Expr.tokens, List.length_cons, List.length_append] at deep
  refine Reads.bind (readableCondition.reads shapedCondition tightCondition (by omega) ?_)
    (Reads.accept_bind (Reads.bind (readableTrue.reads_expression shapedTrue (by omega) ?_)
      (Reads.expect_bind (Reads.map
        (readableFalse.reads_conditional shapedFalse tightFalse (by omega) ended) _))))
  · rintro _ ⟨rfl⟩
    decide
  · rintro _ ⟨⟩

theorem readable_assignment {target value : Expr} (loose : op.strength = 0)
    (readableTarget : Readable target) (shapedTarget : Shaped target) (tight : 1 ≤ target.level)
    (readableValue : Readable value) (shapedValue : Shaped value) :
    Readable (.binary op target value) := by
  have isLevel : (Expr.binary op target value).level = 0 := loose
  refine .of_whole (by rw [isLevel]; rfl) rfl ?_
  intro depth rest deep ended
  rw [isLevel] at ended ⊢
  simp only [Expr.tokens, List.length_cons, List.length_append] at deep
  refine Reads.bind (readableTarget.reads shapedTarget tight (by omega) ?_)
    (Reads.current_bind ?_)
  · exact ends_operator (by omega)
  · rw [List.cons_append, List.headD_cons, operatorOf?, op.ofToken?_token, Option.filter_some,
      if_pos (by rw [loose]; rfl)]
    exact Reads.advance_bind (Reads.map (readableValue.reads_expression shapedValue (by omega) ended) _)

/-! ## Constructions along a spine -/

theorem Readable.of_spine (loops : isLoop expr.level = true) (noMember : expr.isMember = false)
    (spine : ∀ depth rest, expr.tokens.length ≤ depth → Ends (expr.level + 1) rest →
      Spine (nested depth) expr.level expr.tokens rest expr) : Readable expr where
  spine depth rest deep _ := spine depth rest deep
  whole _ _ _ noLoop := by simp [loops] at noLoop
  member _ _ _ isMember := by simp [noMember] at isMember

theorem isLoop_strength (tighter : 0 < op.strength) : isLoop op.strength = true := by
  cases op <;> first | rfl | cases tighter

/-- One round with an operator, whatever its right operand is. -/
theorem reads_round_operator (tighter : 0 < op.strength) {tokens : List Token}
    (read : Reads (rightOperand (nested depth) op.strength op) tokens rest right) :
    Reads (round (nested depth) op.strength left) (op.token :: tokens) rest
      (some (.binary op left right)) := by
  have noSuffix : op.strength ≠ 10 := by
    have := op.strength_le
    omega
  rw [round, if_neg noSuffix]
  refine Reads.current_bind ?_
  rw [List.cons_append, List.headD_cons, operatorOf?, op.ofToken?_token, Option.filter_some,
    if_pos (beq_self_eq_true _)]
  exact Reads.advance_bind (Reads.map read _)

/-- A tree with an operator is readable if its left side and what the operator
takes on its right are. -/
theorem readable_binary (tighter : 0 < op.strength) (readableLeft : Readable left)
    (shapedLeft : Shaped left) (tightLeft : op.strength ≤ left.level)
    (readsRight : ∀ depth rest, right.tokens.length ≤ depth → Ends (op.strength + 1) rest →
      Reads (rightOperand (nested depth) op.strength op) right.tokens rest right) :
    Readable (.binary op left right) := by
  refine .of_spine (isLoop_strength tighter) rfl ?_
  intro depth rest deep ended
  simp only [Expr.tokens, List.length_cons, List.length_append] at deep
  have behindLeft : Ends (op.strength + 1) (op.token :: (right.tokens ++ rest)) :=
    ends_operator (Nat.lt_succ_self _)
  have shallow : left.tokens.length ≤ depth := by omega
  have spine := readableLeft.spine_of_le shapedLeft tightLeft shallow (isLoop_strength tighter)
    behindLeft
  have read := readsRight depth rest (by omega) ended
  exact spine.steps (.single (reads_round_operator tighter read) (by simp))

theorem rightOperand_of_ne (inner : Nested) (tighter : 0 < op.strength) (notMembership : op ≠ .isIn) :
    rightOperand inner op.strength op = rule inner (op.strength + 1) := by
  cases op <;> first | rfl | exact absurd rfl notMembership

theorem readable_operation (tighter : 0 < op.strength) (readableLeft : Readable left)
    (shapedLeft : Shaped left) (tightLeft : op.strength ≤ left.level)
    (readableRight : Readable right) (shapedRight : Shaped right)
    (tightRight : op.strength < right.level) : Readable (.binary op left right) := by
  refine readable_binary tighter readableLeft shapedLeft tightLeft ?_
  intro depth rest deep ended
  have read := readableRight.reads shapedRight tightRight deep ended
  by_cases isMembership : op = .isIn
  · subst isMembership
    -- a collection that is no range does not begin like one
    refine Reads.accept_bind_of_ne ?_ read
    exact shapedRight.headD_ne rest rfl rfl
  · rwa [rightOperand_of_ne _ tighter isMembership]

theorem readable_within {low high : Expr} (readableLeft : Readable left) (shapedLeft : Shaped left)
    (tightLeft : 5 ≤ left.level) (readableLow : Readable low) (shapedLow : Shaped low)
    (tightLow : 6 ≤ low.level) (readableHigh : Readable high) (shapedHigh : Shaped high)
    (tightHigh : 6 ≤ high.level) : Readable (.binary .isIn left (.range low high)) := by
  refine readable_binary (by decide) readableLeft shapedLeft tightLeft ?_
  intro depth rest deep _
  simp only [Expr.tokens, List.length_cons, List.length_append] at deep
  refine Reads.accept_bind (Reads.bind (readableLow.reads shapedLow tightLow (by omega) ?_)
    (Reads.expect_bind (Reads.bind (readableHigh.reads shapedHigh tightHigh (by omega) ?_)
      (Reads.expect_bind (Reads.pure _ rest)))))
  · rintro _ ⟨⟩
  · rintro _ ⟨rfl⟩
    decide

theorem readable_postfixed {op : UnaryOp} {operand : Expr} (behind : op.isPostfix = true)
    (readable : Readable operand) (shaped : Shaped operand) (tight : 10 ≤ operand.level) :
    Readable (.unary op operand) := by
  have isLevel : (Expr.unary op operand).level = 10 := by simp [level, behind]
  have spelled : (Expr.unary op operand).tokens = operand.tokens ++ [op.token] := by
    simp [Expr.tokens, behind]
  refine .of_spine (by rw [isLevel]; rfl) rfl ?_
  intro depth rest deep _
  rw [spelled, List.length_append] at deep
  rw [isLevel, spelled]
  have behindOperand : Ends 11 (op.token :: rest) := by
    cases op <;> first | (rintro _ ⟨rfl⟩; decide) | cases behind
  have shallow : operand.tokens.length ≤ depth := by omega
  have spine := readable.spine_of_le shaped tight shallow rfl behindOperand
  exact spine.steps (.single (reads_suffix_operator behind operand) (by simp))

theorem ends_openBracket (others : List Token) : Ends 11 (.symbol .openBracket :: others) := by
  rintro _ ⟨rfl⟩
  decide

theorem ends_dot (others : List Token) : Ends 11 (.symbol .dot :: others) := by
  rintro _ ⟨rfl⟩
  decide

/-- An index behind a member belongs to the member. -/
theorem indexedBy_withMember (target member : Expr) (indices : List Expr) :
    (target.withMember member).indexedBy indices = target.withMember (.index member indices) := by
  cases target with
  | dotted segments => exact indexedBy_dotted segments member indices
  | _ => rfl

theorem readable_index {target : Expr} {indices : List Expr} (readable : Readable target)
    (shaped : Shaped target) (tight : 10 ≤ target.level) (noChain : target.isChain = false)
    (readableInside : ∀ item ∈ indices, Readable item)
    (shapedInside : ∀ item ∈ indices, Shaped item) : Readable (.index target indices) where
  spine depth rest deep _ _ := by
    simp only [Expr.tokens, List.length_cons, List.length_append] at deep
    have shallow : target.tokens.length ≤ depth := by omega
    have inside : (separated .comma indices).length < depth := by omega
    have read := reads_suffix_index readableInside shapedInside inside rest target
    rw [indexedBy_of_not_isChain noChain] at read
    rw [Expr.tokens]
    exact (readable.spine_of_le shaped tight shallow rfl (ends_openBracket _)).steps
      (.single read (by simp))
  whole _ _ _ noLoop := by cases noLoop
  member depth rest deep isMember _ chain := by
    simp only [Expr.tokens, List.length_cons, List.length_append] at deep
    have inside : (separated .comma indices).length < depth := by omega
    have read := reads_suffix_index readableInside shapedInside inside rest (chain.withMember target)
    rw [indexedBy_withMember] at read
    rw [Expr.tokens, ← List.cons_append]
    exact (readable.member depth _ (by omega) isMember (ends_openBracket _) chain).trans
      (.single read (by simp))

/-- Members behind an expression make it a chain one by one. -/
theorem steps_members {members : List Expr} (readable : ∀ member ∈ members, Readable member)
    (areMembers : ∀ member ∈ members, member.isMember = true)
    (deep : (trailing .dot members).length ≤ depth) (ended : Ends 11 rest) (target : Expr) :
    Steps (round (nested depth) 10) target (trailing .dot members) rest
      (members.foldl Expr.withMember target) := by
  induction members generalizing target with
  | nil => exact .refl target rest
  | cons first others ih =>
    rw [List.forall_mem_cons] at readable areMembers
    simp only [trailing, List.length_cons, List.length_append] at deep
    have steps := readable.1.member depth _ (by omega) areMembers.1
      (ends_trailing ends_dot ended others) target
    exact steps.trans (ih readable.2 areMembers.2 (by omega) _)

theorem foldl_withMember_dotted (segments members : List Expr) :
    members.foldl Expr.withMember (.dotted segments) = .dotted (segments ++ members) := by
  induction members generalizing segments with
  | nil => rw [List.append_nil]; rfl
  | cons first others ih =>
    rw [List.foldl_cons, ← List.singleton_append, ← List.append_assoc]
    exact ih _

theorem readable_dotted {head : Expr} {members : List Expr} (readable : Readable head)
    (shaped : Shaped head) (tight : 10 ≤ head.level) (noChain : head.isChain = false)
    (nonempty : members ≠ []) (readableMembers : ∀ member ∈ members, Readable member)
    (areMembers : ∀ member ∈ members, member.isMember = true) :
    Readable (.dotted (head :: members)) := by
  refine .of_spine rfl rfl ?_
  intro depth rest deep ended
  simp only [Expr.tokens, separated, List.length_append] at deep
  obtain ⟨first, others, rfl⟩ := List.exists_cons_of_ne_nil nonempty
  have shallow : head.tokens.length ≤ depth := by omega
  have inside : (trailing .dot (first :: others)).length ≤ depth := by omega
  have steps := steps_members readableMembers areMembers inside ended head
  rw [List.foldl_cons, withMember_of_not_isChain noChain, foldl_withMember_dotted] at steps
  rw [Expr.tokens, separated]
  exact (readable.spine_of_le shaped tight shallow rfl (ends_dot _)).steps steps

/-! ## All trees of the grammar -/

/-- Every tree of the grammar is read back from its tokens. -/
theorem readable_of_shaped (shaped : Shaped expr) : Readable expr := by
  induction shaped with
  | number _ => exact readable_number _
  | text value => exact readable_text value
  | name _ => exact readable_name _
  | list inside ih => exact readable_list ih inside
  | grouped inside ih => exact readable_grouped ih inside
  | prefixed inFront inside tight ih =>
    exact readable_prefixed inFront ih inside tight
  | postfixed behind inside tight ih =>
    exact readable_postfixed behind ih inside tight
  | assignment loose left tight right readableLeft readableRight =>
    exact readable_assignment loose readableLeft left tight readableRight right
  | operation tighter left tightLeft right tightRight readableLeft readableRight =>
    exact readable_operation tighter readableLeft left tightLeft readableRight right tightRight
  | within left tightLeft low tightLow high tightHigh readableLeft readableLow readableHigh =>
    exact readable_within readableLeft left tightLeft readableLow low tightLow readableHigh high
      tightHigh
  | conditional test tightTest first second tightSecond readableTest readableFirst readableSecond =>
    exact readable_conditional readableTest test tightTest readableFirst first readableSecond
      second tightSecond
  | call _ inside quoted ih =>
    exact readable_call ih inside quoted
  | index target tight noChain inside readableTarget readableInside =>
    exact readable_index readableTarget target tight noChain readableInside inside
  | dotted head tight noChain nonempty _ areMembers readableHead readableMembers =>
    exact readable_dotted readableHead head tight noChain nonempty readableMembers areMembers

/-- The tokens of a tree of the grammar are read as that tree. -/
theorem reads_expression_of_shaped (shaped : Shaped expr) (ended : Ends 0 rest) :
    Reads expression expr.tokens rest expr := by
  refine Reads.get_bind ?_
  intro stream standing
  have bounded := standing.length_le_remaining
  rw [List.length_append] at bounded
  exact (readable_of_shaped shaped).reads_expression shaped (by omega) ended

end EventScript.Parser

namespace EventScript

/-- A text with the tokens of a tree of the grammar is read as that tree. -/
theorem Expr.parse_of_lexes {source : String} {expr : Expr}
    (lexed : Lexes source.toList expr.tokens) (shaped : expr.Shaped) :
    Expr.parse source = .ok expr := by
  obtain ⟨standing, noFindings⟩ := Stream.at_ofText lexed
  rw [← List.append_nil expr.tokens] at standing
  have ended : Ends 0 [] := by rintro _ ⟨⟩
  rw [Expr.parse, noFindings]
  refine congrArg Prod.fst ((?_ : Parser.Reads _ expr.tokens [] expr) _ standing)
  refine Parser.Reads.bind_nil (Parser.reads_expression_of_shaped shaped ended) ?_
  exact Parser.Reads.current_bind (Parser.Reads.pure expr [])

end EventScript
