import EventScript.Proofs.Grammar.Shape
import EventScript.Proofs.Parser.Reads

/-!
# Expressions of the grammar are read back

The tokens of a tree of the grammar are read as that tree, by the rule of each
level that the tree reaches, as long as the token behind them binds less
tightly than the level.  Left-associative operators and suffixes are loops;
for them the tree is built along its left spine.
-/

namespace EventScript

variable {level : Nat} {rest : List Token} {expr : Expr}

/-! ## What follows an expression -/

/-- How tightly a token binds to an operand in front of it. -/
def Token.grip : Token → Option Nat
  | .symbol .question => some 1
  | .symbol .openBracket => some 10
  | .symbol .dot => some 10
  | .symbol .increment => some 10
  | .symbol .decrement => some 10
  | .symbol .openParen => some 11
  | token => (BinaryOp.ofToken? token).map BinaryOp.strength

/-- Tokens behind an expression that bind less tightly than a level. -/
def Ends (level : Nat) (rest : List Token) : Prop :=
  ∀ strength ∈ (rest.headD .endOfInput).grip, strength < level

theorem ends_cons_iff {token : Token} :
    Ends level (token :: rest) ↔ ∀ strength ∈ token.grip, strength < level :=
  Iff.rfl

theorem Ends.mono {tighter : Nat} (ended : Ends level rest) (tight : level ≤ tighter) :
    Ends tighter rest :=
  fun strength grips => Nat.lt_of_lt_of_le (ended strength grips) tight

theorem BinaryOp.grip_token (op : BinaryOp) : op.token.grip = some op.strength := by
  cases op <;> rfl

theorem ends_operator {op : BinaryOp} (loose : op.strength < level) :
    Ends level (op.token :: rest) := by
  rw [ends_cons_iff, op.grip_token]
  rintro _ ⟨rfl⟩
  exact loose

namespace Parser

open Expr

variable {inner : Nested} {tokens : List Token} {function : String}

/-- A token that ends an expression is no operator of its level. -/
theorem operatorOf?_eq_none (ended : Ends level rest) :
    operatorOf? level (rest.headD .endOfInput) = none := by
  cases found : operatorOf? level (rest.headD .endOfInput) with
  | none => rfl
  | some op =>
    rw [operatorOf?, Option.filter_eq_some_iff, beq_iff_eq] at found
    have isToken := BinaryOp.token_of_ofToken? found.1
    have grips := ended op.strength (by rw [← isToken, op.grip_token]; rfl)
    omega

/-! ## The rules by level -/

/-- The rule of a level. -/
def rule (inner : Nested) : Nat → Parser Expr
  | 0 => assignment inner
  | 1 => conditional inner
  | 2 => disjunction inner
  | 3 => conjunction inner
  | 4 => equality inner
  | 5 => comparison inner
  | 6 => sum inner
  | 7 => product inner
  | 8 => power inner
  | 9 => unary inner
  | 10 => suffixed inner
  | _ => primary inner

/-- The right operand of an operator of a level. -/
def rightOperand (inner : Nested) : Nat → BinaryOp → Parser Expr
  | 5, op => if op = .isIn then collection inner else sum inner
  | level, _ => rule inner (level + 1)

/-- Whether the rule of a level is a loop. -/
def isLoop (level : Nat) : Bool :=
  (2 ≤ level && level ≤ 8) || level == 10

/-- One round of the loop of a level. -/
def round (inner : Nested) (level : Nat) (left : Expr) : Parser (Option Expr) :=
  if level = 10 then suffix inner left
  else do
    match operatorOf? level (← current) with
    | some op =>
      advance
      return some (.binary op left (← rightOperand inner level op))
    | none => return none

theorem isLoop_iff (level : Nat) : isLoop level = true ↔ 2 ≤ level ∧ level ≤ 8 ∨ level = 10 := by
  simp [isLoop]

theorem rule_eq_loop (inner : Nested) (loops : isLoop level = true) :
    rule inner level = rule inner (level + 1) >>= loop (round inner level) := by
  rw [isLoop_iff] at loops
  obtain rfl | rfl | rfl | rfl | rfl | rfl | rfl | rfl :
      level = 2 ∨ level = 3 ∨ level = 4 ∨ level = 5 ∨ level = 6 ∨ level = 7 ∨ level = 8 ∨
        level = 10 := by omega
  all_goals rfl

/-- A tree that is built by the loop of a level along its left spine. -/
def Spine (inner : Nested) (level : Nat) (tokens rest : List Token) (expr : Expr) : Prop :=
  ∃ first front back, tokens = front ++ back ∧
    Reads (rule inner (level + 1)) front (back ++ rest) first ∧
      Steps (round inner level) first back rest expr

/-- A tree that the next rule reads is a spine without rounds. -/
theorem Reads.spine (read : Reads (rule inner (level + 1)) tokens rest expr) :
    Spine inner level tokens rest expr :=
  ⟨expr, tokens, [], (List.append_nil _).symm, read, .refl expr rest⟩

/-- Further rounds at the end of a spine. -/
theorem Spine.steps {front back : List Token} {left : Expr}
    (spine : Spine inner level front (back ++ rest) left)
    (later : Steps (round inner level) left back rest expr) :
    Spine inner level (front ++ back) rest expr := by
  obtain ⟨first, firstTokens, others, rfl, readFirst, steps⟩ := spine
  refine ⟨first, firstTokens, others ++ back, List.append_assoc _ _ _, ?_, ?_⟩
  · rwa [List.append_assoc]
  · exact steps.trans later

/-- The loop of a level stops in front of a token that binds less tightly. -/
theorem reads_round_none (inner : Nested) (expr : Expr) (ended : Ends level rest) :
    Reads (round inner level expr) [] rest none := by
  rw [round]
  split
  · rename_i isSuffix
    subst isSuffix
    refine Reads.current_bind ?_
    rw [List.nil_append]
    cases token : rest.headD .endOfInput with
    | symbol mark =>
      rw [Ends, token] at ended
      cases mark with
      | openBracket | dot | increment | decrement => exact absurd (ended 10 rfl) (by decide)
      | _ => exact Reads.pure none rest
    | _ => exact Reads.pure none rest
  · refine Reads.current_bind ?_
    rw [List.nil_append, operatorOf?_eq_none ended]
    exact Reads.pure none rest

theorem Spine.reads (spine : Spine inner level tokens rest expr) (loops : isLoop level = true)
    (ended : Ends level rest) : Reads (rule inner level) tokens rest expr := by
  obtain ⟨first, front, back, rfl, readFirst, steps⟩ := spine
  rw [rule_eq_loop inner loops]
  exact Reads.bind readFirst (steps.reads_loop (reads_round_none inner expr ended))

/-- What the next rule reads is read by the rule itself, if no operator of its
level follows. -/
theorem runOn_rule_of_succ {stream after : Stream}
    (run : (rule inner (level + 1)).runOn stream = (.ok expr, after)) (standing : after.At rest)
    (bounded : level < 11) (ended : Ends level rest)
    (noPrefix : level = 9 → UnaryOp.ofToken? stream.current = none) :
    (rule inner level).runOn stream = (.ok expr, after) := by
  have goesOn {second : Expr → Parser Expr} (read : Reads (second expr) [] rest expr) :
      (rule inner (level + 1) >>= second).runOn stream = (.ok expr, after) := by
    rw [runOn_bind, run]
    exact read after standing
  by_cases loops : isLoop level = true
  · rw [rule_eq_loop inner loops]
    exact goesOn ((Steps.refl expr rest).reads_loop (reads_round_none inner expr ended))
  · rw [isLoop_iff] at loops
    obtain rfl | rfl | rfl : level = 0 ∨ level = 1 ∨ level = 9 := by omega
    · refine goesOn (Reads.current_bind ?_)
      rw [List.nil_append, operatorOf?_eq_none ended]
      exact Reads.pure expr rest
    · refine goesOn (Reads.accept_bind_of_ne ?_ (Reads.pure expr rest))
      intro isQuestion
      rw [Ends, ← List.nil_append rest, isQuestion] at ended
      exact absurd (ended 1 rfl) (by decide)
    · rw [rule, unary, runOn_bind, runOn_current]
      dsimp only
      rw [noPrefix rfl]
      exact run

/-- A tree that is read by the rule of its own level, and as a member of a chain
if it can be one. -/
structure Readable (expr : Expr) : Prop where
  /-- Where the rule is a loop, the tree is built along its spine. -/
  spine : ∀ depth rest, expr.tokens.length ≤ depth → isLoop expr.level = true →
    Ends (expr.level + 1) rest → Spine (nested depth) expr.level expr.tokens rest expr
  whole : ∀ depth rest, expr.tokens.length ≤ depth → isLoop expr.level = false →
    Ends expr.level rest → Reads (rule (nested depth) expr.level) expr.tokens rest expr
  member : ∀ depth rest, expr.tokens.length ≤ depth → expr.isMember = true → Ends 11 rest →
    ∀ target, Steps (round (nested depth) 10) target (.symbol .dot :: expr.tokens) rest
      (target.withMember expr)

namespace Readable

variable {expr : Expr} {depth : Nat} {rest : List Token}

/-- A readable tree is read by the rule of every level that it reaches. -/
theorem reads (readable : Readable expr) (shaped : Shaped expr) {level : Nat}
    (reached : level ≤ expr.level) (deep : expr.tokens.length ≤ depth) (ended : Ends level rest) :
    Reads (rule (nested depth) level) expr.tokens rest expr := by
  -- from the level of the tree down to the given one
  generalize gap : expr.level - level = distance
  induction distance generalizing level with
  | zero =>
    obtain rfl : level = expr.level := by omega
    cases loops : isLoop expr.level with
    | true =>
      exact (readable.spine depth rest deep loops (ended.mono (Nat.le_succ _))).reads loops ended
    | false => exact readable.whole depth rest deep loops ended
  | succ distance ih =>
    have tighter := @ih (level + 1) (by omega) (ended.mono (Nat.le_succ _))
      (by omega)
    have bounded : expr.level ≤ 11 := expr.level_le
    refine fun stream standing =>
      runOn_rule_of_succ (tighter stream standing) standing.skip (by omega) ended ?_
    rintro rfl
    rw [standing.current_eq]
    exact shaped.noPrefix (by omega) rest

/-- A readable tree is a spine of every looping level that it reaches. -/
theorem spine_of_le (readable : Readable expr) (shaped : Shaped expr) (reached : level ≤ expr.level)
    (deep : expr.tokens.length ≤ depth) (loops : isLoop level = true)
    (ended : Ends (level + 1) rest) : Spine (nested depth) level expr.tokens rest expr := by
  rcases Nat.lt_or_eq_of_le reached with tighter | rfl
  · exact (readable.reads shaped tighter deep ended).spine
  · exact readable.spine depth rest deep loops ended

/-! ### Inner parts -/

theorem reads_expression (readable : Readable expr) (shaped : Shaped expr)
    (deep : expr.tokens.length < depth) (ended : Ends 0 rest) :
    Reads (nested depth).expression expr.tokens rest expr := by
  cases depth with
  | zero => cases deep
  | succ depth => exact readable.reads shaped (Nat.zero_le _) (Nat.le_of_lt_succ deep) ended

theorem reads_conditional (readable : Readable expr) (shaped : Shaped expr)
    (tight : 1 ≤ expr.level) (deep : expr.tokens.length < depth) (ended : Ends 1 rest) :
    Reads (nested depth).conditional expr.tokens rest expr := by
  cases depth with
  | zero => cases deep
  | succ depth => exact readable.reads shaped tight (Nat.le_of_lt_succ deep) ended

theorem reads_unary (readable : Readable expr) (shaped : Shaped expr)
    (tight : 9 ≤ expr.level) (deep : expr.tokens.length < depth) (ended : Ends 9 rest) :
    Reads (nested depth).unary expr.tokens rest expr := by
  cases depth with
  | zero => cases deep
  | succ depth => exact readable.reads shaped tight (Nat.le_of_lt_succ deep) ended

end Readable

/-! ## Arguments and lists -/

/-- One more expression behind a comma, if there is a comma. -/
def another (item : Nat → Parser Expr) (read : List Expr) : Parser (Option (List Expr)) := do
  if ← accept (.symbol .comma) then
    return some (read ++ [← item read.length])
  else
    return none

theorem ends_comma (rest : List Token) : Ends 0 (.symbol .comma :: rest) := by
  rintro _ ⟨⟩

theorem ends_trailing {mark : Symbol} (endsMark : ∀ others, Ends level (.symbol mark :: others))
    (ended : Ends level rest) (items : List Expr) : Ends level (trailing mark items ++ rest) := by
  cases items with
  | nil => exact ended
  | cons first others => exact endsMark _

/-- Expressions that each stand behind a comma are read one by one. -/
theorem steps_another {item : Nat → Parser Expr} {others : List Expr} (ended : Ends 0 rest)
    (read : List Expr)
    (reads : ∀ position expr, others[position]? = some expr → ∀ behind, Ends 0 behind →
      Reads (item (read.length + position)) expr.tokens behind expr) :
    Steps (another item) read (trailing .comma others) rest (read ++ others) := by
  induction others generalizing read with
  | nil =>
    rw [List.append_nil]
    exact .refl read rest
  | cons first others ih =>
    have behindFirst := ends_trailing ends_comma ended others
    have readFirst : Reads (another item read) (.symbol .comma :: first.tokens)
        (trailing .comma others ++ rest) (some (read ++ [first])) :=
      Reads.accept_bind (Reads.map (reads 0 first rfl _ behindFirst) _)
    rw [← List.singleton_append, ← List.append_assoc]
    refine .next readFirst (by simp) (ih _ ?_)
    intro position expr found behind endedBehind
    rw [List.length_append, List.length_singleton, Nat.add_assoc, Nat.add_comm 1]
    exact reads (position + 1) expr found behind endedBehind

theorem reads_another_none {item : Nat → Parser Expr}
    (noComma : rest.headD .endOfInput ≠ .symbol .comma) (read : List Expr) :
    Reads (another item read) [] rest none :=
  Reads.accept_bind_of_ne noComma (Reads.pure none rest)

/-- Expressions with commas between them are read in order. -/
theorem reads_separated (item : Nat → Parser Expr) {first : Expr} {others : List Expr}
    (ended : Ends 0 rest) (noComma : rest.headD .endOfInput ≠ .symbol .comma)
    (reads : ∀ position expr, (first :: others)[position]? = some expr → ∀ behind,
      Ends 0 behind → Reads (item position) expr.tokens behind expr) :
    Reads (item 0 >>= fun value => loop (another item) [value]) (separated .comma (first :: others))
      rest (first :: others) := by
  refine Reads.bind (reads 0 first rfl _ (ends_trailing ends_comma ended others)) ?_
  refine Steps.reads_loop (steps_another ended [first] ?_) (reads_another_none noComma _)
  intro position expr found
  rw [List.length_singleton, Nat.add_comm]
  exact reads (position + 1) expr found

/-- Each expression of a list takes part of its tokens. -/
theorem length_tokens_le_trailing (mark : Symbol) {items : List Expr} (member : expr ∈ items) :
    expr.tokens.length ≤ (trailing mark items).length := by
  induction items with
  | nil => cases member
  | cons first others ih =>
    rw [trailing, List.length_cons, List.length_append]
    rcases List.mem_cons.mp member with rfl | later
    · omega
    · have := ih later
      omega

theorem length_tokens_le_separated (mark : Symbol) {items : List Expr} (member : expr ∈ items) :
    expr.tokens.length ≤ (separated mark items).length := by
  cases items with
  | nil => cases member
  | cons first others =>
    rw [separated, List.length_append]
    rcases List.mem_cons.mp member with rfl | later
    · omega
    · have := length_tokens_le_trailing mark later
      omega

section

variable {items : List Expr} {depth : Nat} {rest : List Token}

theorem reads_expressions (readable : ∀ item ∈ items, Readable item)
    (shaped : ∀ item ∈ items, Shaped item) (deep : (separated .comma items).length < depth)
    {closing : Token} (ended : Ends 0 (closing :: rest)) (noComma : closing ≠ .symbol .comma)
    (noOperand : opensOperand closing = false) (noPrefix : UnaryOp.ofToken? closing = none) :
    Reads (expressions (nested depth).expression closing) (separated .comma items)
      (closing :: rest) items := by
  refine Reads.isAt_bind ?_
  cases items with
  | nil =>
    rw [if_pos (by simp [separated])]
    exact Reads.pure [] _
  | cons first others =>
    have shapedFirst := shaped first List.mem_cons_self
    rw [if_neg]
    · refine reads_separated (fun _ => (nested depth).expression) ended noComma ?_
      intro position expr found behind endedBehind
      have member := List.mem_of_getElem? found
      have bounded := length_tokens_le_separated .comma member
      exact (readable expr member).reads_expression (shaped expr member) (by omega) endedBehind
    · rw [beq_iff_eq, separated, List.append_assoc]
      exact shapedFirst.headD_ne _ noOperand noPrefix

/-- An argument that would be read as unquoted text is read as an expression if
it begins with a quoted text. -/
theorem reads_argument {expression : Parser Expr} {position : Nat}
    (read : Reads expression expr.tokens rest expr)
    (quoted : Signature.readsRaw function position = true →
      ∃ value, expr.tokens.head? = some (.text value)) :
    Reads (argument expression function position) expr.tokens rest expr := by
  refine Reads.current_bind ?_
  rw [if_neg]
  · exact read
  · rw [Bool.and_eq_true]
    rintro ⟨readsRaw, notText⟩
    obtain ⟨value, first⟩ := quoted readsRaw
    cases spelled : expr.tokens with
    | nil =>
      rw [spelled] at first
      cases first
    | cons token others =>
      rw [spelled] at first notText
      cases first
      cases notText

theorem reads_callArguments (readable : ∀ item ∈ items, Readable item)
    (shaped : ∀ item ∈ items, Shaped item) (quoted : QuotesRaw function items)
    (deep : (separated .comma items).length < depth) :
    Reads (callArguments (nested depth).expression function)
      (.symbol .openParen :: (separated .comma items ++ [.symbol .closeParen])) rest items := by
  refine Reads.advance_bind (Reads.isAt_bind ?_)
  cases items with
  | nil => exact Reads.expect_bind (Reads.pure [] rest)
  | cons first others =>
    have shapedFirst := shaped first List.mem_cons_self
    rw [if_neg]
    · refine Reads.bind (reads_separated (argument (nested depth).expression function) ?_ ?_ ?_)
        (Reads.expect_bind (Reads.pure _ rest))
      · rintro _ ⟨⟩
      · simp
      · intro position expr found behind endedBehind
        have member := List.mem_of_getElem? found
        have bounded := length_tokens_le_separated .comma member
        refine reads_argument ?_ (quoted position expr found)
        exact (readable expr member).reads_expression (shaped expr member) (by omega) endedBehind
    · rw [beq_iff_eq, separated, List.append_assoc, List.append_assoc]
      exact shapedFirst.headD_ne _ rfl rfl

theorem reads_nameOrCall_name (expression : Parser Expr) (spelling : String)
    (ended : Ends 11 rest) :
    Reads (nameOrCall expression spelling) [.name spelling] rest (.name spelling) := by
  refine Reads.advance_bind (Reads.isAt_bind ?_)
  rw [if_neg]
  · exact Reads.pure _ rest
  · rw [beq_iff_eq]
    intro isParen
    rw [Ends, ← List.nil_append rest, isParen] at ended
    exact absurd (ended 11 rfl) (by decide)

theorem reads_nameOrCall_call (readable : ∀ item ∈ items, Readable item)
    (shaped : ∀ item ∈ items, Shaped item) (quoted : QuotesRaw function items)
    (deep : (separated .comma items).length < depth) :
    Reads (nameOrCall (nested depth).expression function) (Expr.tokens (.call function items)) rest
      (.call function items) := by
  refine Reads.advance_bind (Reads.isAt_bind ?_)
  exact Reads.map (reads_callArguments readable shaped quoted deep) _

end

end Parser

end EventScript
