import EventScript.Expr.Parse
import EventScript.Proofs.Grammar.Subterms
import EventScript.Proofs.Lexing.Readers

/-!
# The grammar of expressions

The tokens of an expression and the stratified grammar, as a predicate on
trees.  A tree is shaped if every operand binds tightly enough for the place
where it stands, so that its tokens need no further parentheses.
-/

namespace EventScript

/-! ## Tokens of operators -/

/-- The token of an operator with one operand. -/
def UnaryOp.token : UnaryOp → Token
  | not => .symbol .not
  | negate => .symbol .minus
  | preIncrement => .symbol .increment
  | preDecrement => .symbol .decrement
  | postIncrement => .symbol .increment
  | postDecrement => .symbol .decrement

/-- The token of an operator with two operands. -/
def BinaryOp.token : BinaryOp → Token
  | add => .symbol .plus
  | sub => .symbol .minus
  | mul => .symbol .star
  | div => .symbol .slash
  | mod => .symbol .percent
  | pow => .symbol .caret
  | equal => .symbol .equal
  | notEqual => .symbol .notEqual
  | less => .symbol .less
  | greater => .symbol .greater
  | lessEqual => .symbol .lessEqual
  | greaterEqual => .symbol .greaterEqual
  | isIn => .keyword .inWord
  | and => .symbol .and
  | or => .symbol .or
  | assign => .symbol .assign
  | addAssign => .symbol .plusEqual
  | subAssign => .symbol .minusEqual
  | mulAssign => .symbol .starEqual
  | divAssign => .symbol .slashEqual

theorem BinaryOp.strength_le (op : BinaryOp) : op.strength ≤ 8 := by
  cases op <;> decide

theorem UnaryOp.ofToken?_token {op : UnaryOp} (notPostfix : op.isPostfix = false) :
    UnaryOp.ofToken? op.token = some op := by
  cases op <;> first | rfl | cases notPostfix

theorem UnaryOp.token_of_ofToken? {token : Token} {op : UnaryOp}
    (found : UnaryOp.ofToken? token = some op) : op.token = token ∧ op.isPostfix = false := by
  unfold UnaryOp.ofToken? at found
  split at found
  all_goals
    cases found
  all_goals exact ⟨rfl, rfl⟩

theorem BinaryOp.ofToken?_token (op : BinaryOp) : BinaryOp.ofToken? op.token = some op := by
  cases op <;> rfl

theorem BinaryOp.token_of_ofToken? {token : Token} {op : BinaryOp}
    (found : BinaryOp.ofToken? token = some op) : op.token = token := by
  unfold BinaryOp.ofToken? at found
  split at found
  all_goals
    cases found
  all_goals rfl

namespace Expr

variable {items : List Expr} {expr : Expr}

/-! ## Tokens of expressions -/

mutual

/-- The tokens of an expression, in order. -/
def tokens : Expr → List Token
  | number spelling => [.number spelling]
  | text value => [.text value]
  | name spelling => [.name spelling]
  | list items => .symbol .openBrace :: (separated .comma items ++ [.symbol .closeBrace])
  | range low high =>
    .symbol .less ::
      (low.tokens ++ .symbol .comma :: (high.tokens ++ [.symbol .greater]))
  | grouped inner => .symbol .openParen :: (inner.tokens ++ [.symbol .closeParen])
  | unary op operand =>
    if op.isPostfix then operand.tokens ++ [op.token] else op.token :: operand.tokens
  | binary op left right => left.tokens ++ op.token :: right.tokens
  | conditional condition whenTrue whenFalse =>
    condition.tokens ++
      .symbol .question :: (whenTrue.tokens ++ .symbol .colon :: whenFalse.tokens)
  | call function arguments =>
    .name function :: .symbol .openParen ::
      (separated .comma arguments ++ [.symbol .closeParen])
  | index target indices =>
    target.tokens ++
      .symbol .openBracket :: (separated .comma indices ++ [.symbol .closeBracket])
  | dotted segments => separated .dot segments

/-- The tokens of expressions with a mark between each two. -/
def separated (mark : Symbol) : List Expr → List Token
  | [] => []
  | first :: others => first.tokens ++ trailing mark others

/-- The tokens of expressions with a mark in front of each. -/
def trailing (mark : Symbol) : List Expr → List Token
  | [] => []
  | first :: others => .symbol mark :: (first.tokens ++ trailing mark others)

end

theorem trailing_append (mark : Symbol) (items : List Expr) (last : Expr) :
    trailing mark (items ++ [last]) = trailing mark items ++ .symbol mark :: last.tokens := by
  induction items with
  | nil => simp [trailing]
  | cons first others ih => simp [trailing, ih]

theorem separated_append (mark : Symbol) (nonempty : items ≠ []) (last : Expr) :
    separated mark (items ++ [last]) = separated mark items ++ .symbol mark :: last.tokens := by
  cases items with
  | nil => exact absurd rfl nonempty
  | cons first others => simp [separated, trailing_append]

theorem mem_trailing {mark : Symbol} {token : Token} :
    token ∈ trailing mark items ↔
      items ≠ [] ∧ token = .symbol mark ∨ ∃ item ∈ items, token ∈ item.tokens := by
  induction items with
  | nil => simp [trailing]
  | cons first others ih =>
    simp only [trailing, List.mem_cons, List.mem_append, ih]
    grind

theorem mem_separated {mark : Symbol} {token : Token} :
    token ∈ separated mark items ↔
      1 < items.length ∧ token = .symbol mark ∨ ∃ item ∈ items, token ∈ item.tokens := by
  cases items with
  | nil => simp [separated]
  | cons first others =>
    simp only [separated, List.mem_append, mem_trailing]
    grind [List.length_pos_iff]

/-- The tokens of a part are tokens of the expression. -/
theorem mem_tokens_of_mem_children {child : Expr} (isChild : child ∈ expr.children) {token : Token}
    (member : token ∈ child.tokens) : token ∈ expr.tokens := by
  cases expr <;> simp only [children, List.mem_cons, List.not_mem_nil] at isChild
  all_goals
    simp only [tokens]
    grind [mem_separated]

/-- A text inside an expression is one of its tokens. -/
theorem text_mem_tokens {value : String} (inside : text value ∈ expr.subterms) :
    .text value ∈ expr.tokens := by
  induction expr using childInduction with
  | step expr ih =>
    rcases mem_subterms_iff.mp inside with rfl | ⟨child, isChild, inChild⟩
    · exact List.mem_singleton_self _
    · exact mem_tokens_of_mem_children isChild (ih child isChild inChild)

/-- No expression goes over the end of a statement. -/
theorem ne_of_mem_tokens {token : Token} (member : token ∈ expr.tokens) :
    token ≠ .symbol .semicolon ∧ token ≠ .endOfInput := by
  have unaryToken (op : UnaryOp) : op.token ≠ .symbol .semicolon ∧ op.token ≠ .endOfInput := by
    cases op <;> decide
  have binaryToken (op : BinaryOp) :
      op.token ≠ .symbol .semicolon ∧ op.token ≠ .endOfInput := by
    cases op <;> decide
  induction expr using childInduction with
  | step expr ih =>
    cases expr <;> simp only [tokens] at member <;> simp only [children] at ih
    all_goals grind [mem_separated]

/-! ## Levels -/

/-- How tightly the outermost construction of an expression binds: operators
with two operands by their strength, and above them prefix operators, suffixes,
and what needs no operand. -/
def level : Expr → Nat
  | range _ _ => 0
  | conditional _ _ _ => 1
  | binary op _ _ => op.strength
  | unary op _ => if op.isPostfix then 10 else 9
  | index _ _ => 10
  | dotted _ => 10
  | _ => 11

theorem level_le (expr : Expr) : expr.level ≤ 11 := by
  cases expr with
  | binary op _ _ => exact Nat.le_trans op.strength_le (by decide)
  | unary op _ => cases op <;> simp [level, UnaryOp.isPostfix]
  | _ => simp [level]

/-- Whether an expression is a chain of members. -/
def isChain : Expr → Bool
  | dotted _ => true
  | _ => false

/-- Whether an expression may stand behind a point: a name, a call, or one of
these with indices. -/
def isMember : Expr → Bool
  | name _ => true
  | call _ _ => true
  | index target _ => target.isMember
  | _ => false

/-- Whether every argument that would be read as unquoted text begins with a
quoted text, so that it is read as an expression. -/
def QuotesRaw (function : String) (arguments : List Expr) : Prop :=
  ∀ position argument, arguments[position]? = some argument →
    Signature.readsRaw function position = true →
      ∃ value, argument.tokens.head? = some (.text value)

/-- The trees of the grammar. -/
inductive Shaped : Expr → Prop
  | number {spelling : String} (numeral : IsNumeral spelling.toList) : Shaped (number spelling)
  | text (value : String) : Shaped (text value)
  | name {spelling : String} (named : IsName spelling) : Shaped (name spelling)
  | list {items : List Expr} (inside : ∀ item ∈ items, Shaped item) : Shaped (list items)
  | grouped {inner : Expr} (inside : Shaped inner) : Shaped (grouped inner)
  | prefixed {op : UnaryOp} {operand : Expr} (inFront : op.isPostfix = false)
      (inside : Shaped operand) (tight : 9 ≤ operand.level) : Shaped (unary op operand)
  | postfixed {op : UnaryOp} {operand : Expr} (behind : op.isPostfix = true)
      (inside : Shaped operand) (tight : 10 ≤ operand.level) : Shaped (unary op operand)
  | assignment {op : BinaryOp} {target value : Expr} (loose : op.strength = 0)
      (left : Shaped target) (tight : 1 ≤ target.level) (right : Shaped value) :
      Shaped (binary op target value)
  | operation {op : BinaryOp} {left right : Expr} (tighter : 0 < op.strength)
      (shapedLeft : Shaped left) (tightLeft : op.strength ≤ left.level)
      (shapedRight : Shaped right) (tightRight : op.strength < right.level) :
      Shaped (binary op left right)
  | within {left low high : Expr} (shapedLeft : Shaped left) (tightLeft : 5 ≤ left.level)
      (shapedLow : Shaped low) (tightLow : 6 ≤ low.level)
      (shapedHigh : Shaped high) (tightHigh : 6 ≤ high.level) :
      Shaped (binary .isIn left (range low high))
  | conditional {condition whenTrue whenFalse : Expr} (shapedCondition : Shaped condition)
      (tightCondition : 2 ≤ condition.level) (shapedTrue : Shaped whenTrue)
      (shapedFalse : Shaped whenFalse) (tightFalse : 1 ≤ whenFalse.level) :
      Shaped (conditional condition whenTrue whenFalse)
  | call {function : String} {arguments : List Expr} (named : IsName function)
      (inside : ∀ argument ∈ arguments, Shaped argument) (quoted : QuotesRaw function arguments) :
      Shaped (call function arguments)
  | index {target : Expr} {indices : List Expr} (shapedTarget : Shaped target)
      (tight : 10 ≤ target.level) (noChain : target.isChain = false)
      (inside : ∀ item ∈ indices, Shaped item) : Shaped (index target indices)
  | dotted {head : Expr} {members : List Expr} (shapedHead : Shaped head)
      (tight : 10 ≤ head.level) (noChain : head.isChain = false) (nonempty : members ≠ [])
      (inside : ∀ member ∈ members, Shaped member)
      (areMembers : ∀ member ∈ members, member.isMember = true) :
      Shaped (dotted (head :: members))

theorem level_of_isMember (member : expr.isMember = true) : 10 ≤ expr.level := by
  cases expr with
  | name _ => simp [level]
  | call _ _ => simp [level]
  | index _ _ => simp [level]
  | _ => cases member

theorem isChain_of_isMember (member : expr.isMember = true) : expr.isChain = false := by
  cases expr with
  | dotted _ => cases member
  | _ => rfl

theorem indexedBy_of_not_isChain {target : Expr} (noChain : target.isChain = false)
    (indices : List Expr) : target.indexedBy indices = .index target indices := by
  cases target with
  | dotted _ => cases noChain
  | _ => rfl

theorem withMember_of_not_isChain {target : Expr} (noChain : target.isChain = false)
    (segment : Expr) : target.withMember segment = .dotted [target, segment] := by
  cases target with
  | dotted _ => cases noChain
  | _ => rfl

/-- The index at the end of a chain belongs to its last segment. -/
theorem indexedBy_dotted (segments : List Expr) (last : Expr) (indices : List Expr) :
    (dotted (segments ++ [last])).indexedBy indices =
      .dotted (segments ++ [.index last indices]) := by
  simp [indexedBy]

/-- Whether a token begins an operand that has no operator in front. -/
def opensOperand : Token → Bool
  | .number _ => true
  | .text _ => true
  | .name _ => true
  | .symbol .openParen => true
  | .symbol .openBrace => true
  | _ => false

/-- Tokens that begin with an operand, or with a prefix operator if the level is
no tighter than that of prefix operators. -/
def Opens (level : Nat) (tokens : List Token) : Prop :=
  ∃ token others, tokens = token :: others ∧
    (opensOperand token = true ∨ level ≤ 9 ∧ (UnaryOp.ofToken? token).isSome = true)

theorem Opens.append {level outer : Nat} {tokens : List Token} (opens : Opens level tokens)
    (looser : outer ≤ 9 ∨ 10 ≤ level) (rest : List Token) : Opens outer (tokens ++ rest) := by
  obtain ⟨token, others, rfl, isOperand | ⟨loose, isOp⟩⟩ := opens
  · exact ⟨token, others ++ rest, rfl, .inl isOperand⟩
  · exact ⟨token, others ++ rest, rfl, .inr ⟨by omega, isOp⟩⟩

/-- An expression begins with an operand, or with a prefix operator if it binds
no more tightly than one. -/
theorem Shaped.opens (shaped : Shaped expr) : Opens expr.level expr.tokens := by
  induction shaped with
  | @prefixed op operand inFront _ _ _ =>
    refine ⟨op.token, operand.tokens, by simp [tokens, inFront], .inr ⟨?_, ?_⟩⟩
    · simp [level, inFront]
    · rw [UnaryOp.ofToken?_token inFront]
      rfl
  | postfixed behind _ tight ih =>
    rw [tokens, if_pos behind]
    exact ih.append (.inr tight) _
  | @assignment op _ _ _ _ _ _ ih _ | @operation op _ _ _ _ _ _ _ ih _ =>
    exact ih.append (.inl (Nat.le_succ_of_le op.strength_le)) _
  | within _ _ _ _ _ _ ih _ _ =>
    exact ih.append (.inl (by simp [level, BinaryOp.strength])) _
  | conditional _ _ _ _ _ ih _ _ =>
    exact ih.append (.inl (by simp [level])) _
  | index _ tight _ _ ih _ => exact ih.append (.inr tight) _
  | dotted _ tight _ _ _ _ ih _ =>
    exact ih.append (.inr tight) _
  | _ => exact ⟨_, _, rfl, .inl rfl⟩

/-- An expression does not begin with a token that begins neither an operand
nor a prefix operator. -/
theorem Shaped.headD_ne (shaped : Shaped expr) (rest : List Token) {token : Token}
    (noOperand : opensOperand token = false) (noPrefix : UnaryOp.ofToken? token = none) :
    (expr.tokens ++ rest).headD .endOfInput ≠ token := by
  obtain ⟨first, others, spelled, opens | ⟨_, isOp⟩⟩ := shaped.opens
  · rw [spelled]
    rintro rfl
    cases opens.symm.trans noOperand
  · rw [spelled]
    rintro rfl
    change (UnaryOp.ofToken? first) = none at noPrefix
    rw [noPrefix] at isOp
    cases isOp

/-- A tight expression does not begin with a prefix operator. -/
theorem Shaped.noPrefix (shaped : Shaped expr) (tight : 10 ≤ expr.level) (rest : List Token) :
    UnaryOp.ofToken? ((expr.tokens ++ rest).headD .endOfInput) = none := by
  obtain ⟨first, others, spelled, opens | ⟨loose, _⟩⟩ := shaped.opens
  · rw [spelled]
    change UnaryOp.ofToken? first = none
    unfold opensOperand at opens
    split at opens
    all_goals first | rfl | cases opens
  · omega

end Expr

end EventScript
