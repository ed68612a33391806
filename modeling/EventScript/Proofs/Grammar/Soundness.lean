import EventScript.Proofs.Grammar.Depth
import EventScript.Proofs.Grammar.Shape
import EventScript.Proofs.Parser.Ensures

/-!
# Expressions that are read belong to the grammar

Every rule of the expression grammar returns a tree of its own level or a
tighter one, and the tokens of the tree are what was taken for it.  This holds
for every text, whether or not something was found wrong with it, and every
other text that gives the same is read as the same tree.
-/

namespace EventScript

variable {others : List Taken} {expr : Expr} {raws : Prop}

namespace Expr

variable {least : Nat} {taken : List Taken}

/-! ## What is taken for expressions -/

/-- What is taken spells tokens: each token stands for itself, and an unquoted
argument in front of a comma or of a closing parenthesis stands for a text. -/
inductive Spells : List Taken → List Token → Prop
  | nil : Spells [] []
  | token (token : Token) {taken : List Taken} {tokens : List Token} (others : Spells taken tokens) :
      Spells (.token token :: taken) (token :: tokens)
  | raw {seen : Token} (argument : String) {mark : Symbol} {taken : List Taken}
      {tokens : List Token} (noText : seen.isText = false)
      (isMark : mark = .comma ∨ mark = .closeParen)
      (others : Spells (.token (.symbol mark) :: taken) tokens) :
      Spells (.raw seen argument :: .token (.symbol mark) :: taken) (.text argument :: tokens)

namespace Spells

variable {taken : List Taken} {tokens : List Token}

theorem append (spells : Spells taken tokens) {otherTokens : List Token}
    (spellsOthers : Spells others otherTokens) :
    Spells (taken ++ others) (tokens ++ otherTokens) := by
  induction spells with
  | nil => exact spellsOthers
  | token token _ ih => exact .token token ih
  | raw argument noText isMark _ ih => exact .raw argument noText isMark ih

end Spells

/-- A tree of the grammar that binds at least as tightly as a level, with what
was taken for it. -/
structure Operand (least : Nat) (taken : List Taken) (expr : Expr) : Prop where
  shaped : expr.Shaped
  tight : least ≤ expr.level
  spells : Spells taken expr.tokens

theorem Operand.loosen {tighter : Nat} (operand : Operand tighter taken expr)
    (looser : least ≤ tighter) : Operand least taken expr :=
  { operand with tight := Nat.le_trans looser operand.tight }

/-- Expressions in front of a closing token, with what was taken for all. -/
structure Enclosed (closing : Symbol) (taken : List Taken) (values : List Expr) : Prop where
  shaped : ∀ value ∈ values, Shaped value
  spells : Spells taken (separated .comma values ++ [.symbol closing])

/-- Expressions with commas between them and what was taken for all.  If there are
unquoted arguments, only some marks may close the list. -/
structure Listed (raws : Prop) (taken : List Taken) (values : List Expr) : Prop where
  nonempty : values ≠ []
  closes : ∀ closing, (raws → closing = .comma ∨ closing = .closeParen) →
    Enclosed closing (taken ++ [.token (.symbol closing)]) values

theorem Operand.listed {value : Expr} (operand : Operand least taken value) (raws : Prop) :
    Listed raws taken [value] where
  nonempty := List.cons_ne_nil _ _
  closes closing _ := by
    refine ⟨by simpa using operand.shaped, ?_⟩
    simpa [separated, trailing] using operand.spells.append (.token _ .nil)

theorem listed_raw {seen : Token} (noText : seen.isText = false) (argument : String) :
    Listed True [.raw seen argument] [.text argument] where
  nonempty := List.cons_ne_nil _ _
  closes closing isMark :=
    ⟨by simpa using Shaped.text argument, .raw _ noText (isMark trivial) (.token _ .nil)⟩

theorem Listed.append {values : List Expr} {value : Expr} (listed : Listed raws taken values)
    (item : Listed raws others [value]) :
    Listed raws (taken ++ .token (.symbol .comma) :: others) (values ++ [value]) where
  nonempty := by simp
  closes closing isMark := by
    have earlier := listed.closes .comma fun _ => .inl rfl
    have last := item.closes closing isMark
    refine ⟨List.forall_mem_append.mpr ⟨earlier.shaped, last.shaped⟩, ?_⟩
    simpa [separated_append _ listed.nonempty, separated, trailing] using
      earlier.spells.append last.spells

/-- A property of every expression at its position. -/
theorem forall_getElem?_append {quoted : Nat → Expr → Prop} {read : List Expr}
    (holds : ∀ position value, read[position]? = some value → quoted position value) {last : Expr}
    (holdsLast : quoted read.length last) (position : Nat) (value : Expr)
    (found : (read ++ [last])[position]? = some value) : quoted position value := by
  by_cases earlier : position < read.length
  · rw [List.getElem?_append_left earlier] at found
    exact holds position value found
  · rw [List.getElem?_append_right (Nat.le_of_not_lt earlier), List.getElem?_singleton] at found
    split at found
    · cases found
      rwa [show position = read.length by omega]
    · cases found

/-! ## Suffixes -/

theorem Operand.indexedBy {target : Expr} {indices : List Expr} (operand : Operand 10 taken target)
    (enclosed : Enclosed .closeBracket others indices) :
    Operand 10 (taken ++ .token (.symbol .openBracket) :: others) (target.indexedBy indices) := by
  obtain ⟨shaped, tight, spells⟩ := operand
  have spells := spells.append (.token (.symbol .openBracket) enclosed.spells)
  cases chained : target.isChain with
  | false =>
    rw [indexedBy_of_not_isChain chained]
    exact ⟨.index shaped tight chained enclosed.shaped, by simp [level], spells⟩
  | true =>
    cases shaped with
    | @dotted head members shapedHead tightHead noChain nonempty shapedMembers areMembers =>
      -- the index goes to the last member, which stays a member
      obtain ⟨earlier, last, rfl⟩ : ∃ earlier last, members = earlier ++ [last] :=
        ⟨_, _, (List.dropLast_concat_getLast nonempty).symm⟩
      rw [List.forall_mem_append, List.forall_mem_singleton] at shapedMembers areMembers
      have tightLast := level_of_isMember areMembers.2
      have lastNoChain := isChain_of_isMember areMembers.2
      rw [← List.cons_append, indexedBy_dotted, List.cons_append]
      refine ⟨.dotted shapedHead tightHead noChain (by simp) ?_ ?_, by simp [level], ?_⟩
      · rw [List.forall_mem_append, List.forall_mem_singleton]
        exact ⟨shapedMembers.1, .index shapedMembers.2 tightLast lastNoChain enclosed.shaped⟩
      · rw [List.forall_mem_append, List.forall_mem_singleton]
        exact areMembers
      · simpa [tokens, separated, trailing_append] using spells
    | _ => cases chained

theorem Operand.withMember {target segment : Expr} (operand : Operand 10 taken target)
    (isSegment : Operand least others segment) (member : segment.isMember = true) :
    Operand 10 (taken ++ .token (.symbol .dot) :: others) (target.withMember segment) := by
  obtain ⟨shaped, tight, spells⟩ := operand
  have spells := spells.append (.token (.symbol .dot) isSegment.spells)
  cases chained : target.isChain with
  | false =>
    rw [withMember_of_not_isChain chained]
    refine ⟨.dotted shaped tight chained (by simp) ?_ ?_, by simp [level], ?_⟩
    · rw [List.forall_mem_singleton]
      exact isSegment.shaped
    · rw [List.forall_mem_singleton]
      exact member
    · simpa [tokens, separated, trailing] using spells
  | true =>
    cases shaped with
    | @dotted head members shapedHead tightHead noChain nonempty shapedMembers areMembers =>
      change Operand 10 _ (.dotted (head :: (members ++ [segment])))
      refine ⟨.dotted shapedHead tightHead noChain (by simp) ?_ ?_, by simp [level], ?_⟩
      · rw [List.forall_mem_append, List.forall_mem_singleton]
        exact ⟨shapedMembers, isSegment.shaped⟩
      · rw [List.forall_mem_append, List.forall_mem_singleton]
        exact ⟨areMembers, member⟩
      · simpa [tokens, separated, trailing_append] using spells
    | _ => cases chained

theorem Operand.postfixed {operand : Expr} (inside : Operand 10 taken operand) (op : UnaryOp)
    (behind : op.isPostfix = true) :
    Operand 10 (taken ++ [.token op.token]) (.unary op operand) where
  shaped := .postfixed behind inside.shaped inside.tight
  tight := by simp [level, behind]
  spells := by simpa [tokens, behind] using inside.spells.append (.token op.token .nil)

end Expr

namespace Parser

open Expr

variable {count : Nat}
variable {strength : Nat}

theorem operatorOf?_eq_some_iff {token : Token} {op : BinaryOp} :
    operatorOf? strength token = some op ↔
      BinaryOp.ofToken? token = some op ∧ op.strength = strength := by
  rw [operatorOf?, Option.filter_eq_some_iff, beq_iff_eq]

/-! ## Operators with two operands -/

theorem advances_chainStep (strength : Nat) {right : BinaryOp → Parser Expr}
    (tame : ∀ op, Tame (right op)) : Advances (chainStep strength right) := by
  intro left
  apply Consumes.current_bind
  intro token
  split
  · rename_i op isOperator
    have inside : token ≠ .endOfInput := by
      rintro rfl
      cases isOperator
    exact .advance_bind inside ((tame op).bind fun _ => .pure _)
  · exact .pure (by rintro ⟨⟩)

/-- A parser of trees of the grammar that bind at least as tightly as a level. -/
structure Sound (count least : Nat) (parser : Parser Expr) : Prop where
  tame : Tame parser
  ensures : Ensures count Anything parser (Operand least)

/-- A chain returns trees of its level, if its operands fit. -/
theorem sound_chain {operand : Parser Expr} {right : BinaryOp → Parser Expr}
    (sound : Sound count (strength + 1) operand) (tame : ∀ op, Tame (right op))
    (ensures : ∀ op : BinaryOp, op.strength = strength →
      Ensures count Anything (right op) fun taken value =>
        Spells taken value.tokens ∧
          ∀ left, Shaped left → strength ≤ left.level → Shaped (.binary op left value)) :
    Sound count strength (chain strength operand right) where
  tame := by
    have agree : Agree (Stream.Below 0) operand operand := .refl sound.tame
    exact (agree_chain (lasting_below 0) agree strength fun op => .refl (tame op)).tame
  ensures := by
    rw [chain_eq]
    refine Ensures.bind sound.ensures fun taken first isOperand => ?_
    refine Ensures.loop ?_ (advances_chainStep strength tame)
      (isOperand.loosen (Nat.le_succ strength))
    intro taken left isLeft
    refine Ensures.current_bind (fun token _ => ?_) fun _ _ => by rintro (_ | _ | _) <;> rfl
    split
    · rename_i op found
      obtain ⟨isToken, sameStrength⟩ := operatorOf?_eq_some_iff.mp found
      have inside : token ≠ .endOfInput := by
        rintro rfl
        cases found
      refine (Ensures.advance_bind inside (Ensures.bind_return (ensures op sameStrength) ?_)).fewer
      rintro others value ⟨spells, joins⟩
      refine ⟨joins left isLeft.shaped isLeft.tight, Nat.le_of_eq sameStrength.symm, ?_⟩
      rw [Expr.tokens, BinaryOp.token_of_ofToken? isToken]
      exact isLeft.spells.append (.token token spells)
    · exact Ensures.pure rfl

/-- A chain whose right operands are those of the next level. -/
theorem sound_chain_same {operand : Parser Expr} (positive : 0 < strength)
    (sound : Sound count (strength + 1) operand) :
    Sound count strength (chain strength operand fun _ => operand) := by
  refine sound_chain sound (fun _ => sound.tame) ?_
  rintro op rfl
  refine sound.ensures.weaken fun _ _ isOperand => ⟨isOperand.spells, ?_⟩
  intro left shaped tight
  exact .operation positive shaped tight isOperand.shaped isOperand.tight

/-! ## Arguments and lists -/

theorem advances_itemStep {item : List Expr → Parser Expr} (tame : ∀ read, Tame (item read)) :
    Advances (itemStep item) := by
  intro read
  refine Consumes.accept_bind (by rintro ⟨⟩) ?_ (.pure (by rintro ⟨⟩))
  exact (tame read).bind fun _ => .pure _

/-- Items with commas between them, each with a property at its position. -/
theorem ensures_items (item : List Expr → Parser Expr) (quoted : Nat → Expr → Prop)
    (tame : ∀ read, Tame (item read))
    (ensures : ∀ read, Ensures count Anything (item read) fun taken value =>
      Listed raws taken [value] ∧ quoted read.length value) :
    Ensures count Anything (item [] >>= fun first => loop (itemStep item) [first])
      fun taken values => Listed raws taken values ∧
        ∀ position value, values[position]? = some value → quoted position value := by
  have keeps (taken : List Taken) (read : List Expr) (kept : Listed raws taken read ∧
      ∀ position value, read[position]? = some value → quoted position value) :
      Ensures count Anything (itemStep item read) (Ensures.Keeps (fun taken values =>
        Listed raws taken values ∧
          ∀ position value, values[position]? = some value → quoted position value) taken) := by
    apply Ensures.fewer
    refine Ensures.accept_bind rfl (Ensures.bind_return (ensures read) ?_) (Ensures.pure rfl)
    rintro others next ⟨isNext, holdsNext⟩
    exact ⟨kept.1.append isNext, forall_getElem?_append kept.2 holdsNext⟩
  refine Ensures.bind (ensures []) fun taken first isFirst => ?_
  have noneYet : ∀ position value, ([] : List Expr)[position]? = some value →
      quoted position value := by simp
  exact Ensures.loop keeps (advances_itemStep tame)
    ⟨isFirst.1, forall_getElem?_append noneYet isFirst.2⟩

/-- Items in front of a closing token, or none. -/
theorem ensures_enclosed {α : Type} {items : Parser (List Expr)} {property : List Expr → Prop}
    {closing : Symbol} {expectation : Expectation} {result : List Expr → α}
    (isMark : raws → closing = .comma ∨ closing = .closeParen) (holdsNone : property [])
    (ensures : Ensures count Anything items fun taken values =>
      Listed raws taken values ∧ property values) :
    Ensures count Anything
      (isAt (.symbol closing) >>= fun found =>
        (if found = true then pure [] else items) >>= fun read =>
          expect (.symbol closing) expectation >>= fun _ => pure (result read))
      fun taken value => ∃ values, value = result values ∧ Enclosed closing taken values ∧
        property values := by
  have close {taken : List Taken} {values : List Expr} (holds : property values)
      (enclosed : Enclosed closing (taken ++ [.token (.symbol closing)]) values) :
      Ensures count Anything
        (expect (.symbol closing) expectation >>= fun _ => pure (result values))
        fun others value => ∃ values, value = result values ∧
          Enclosed closing (taken ++ others) values ∧ property values :=
    Ensures.expect_bind (by rintro ⟨⟩) (Ensures.pure ⟨values, rfl, enclosed, holds⟩)
  rw [isAt_bind_eq]
  refine Ensures.current_bind (fun token _ => ?_) ?_
  · cases token == .symbol closing with
    | true =>
      refine Ensures.bind (Ensures.pure ⟨rfl, rfl⟩ : Ensures _ _ _ fun taken values =>
        taken = [] ∧ values = []) ?_
      rintro _ _ ⟨rfl, rfl⟩
      exact close holdsNone ⟨by simp, .token _ .nil⟩
    | false =>
      exact Ensures.bind ensures.anywhere fun taken values listed =>
        close listed.2 (listed.1.closes closing isMark)
  · rintro _ ⟨values, -, ⟨-, spells⟩, -⟩
    generalize isEmpty : separated .comma values ++ [.symbol closing] = tokens at spells
    cases spells
    simp at isEmpty

section Arguments

variable (ensures : Ensures count Anything expression (Operand 0))

include ensures

theorem ensures_arguments (function : String) :
    Ensures count Anything (arguments expression function) fun taken values =>
      Listed True taken values ∧ QuotesRaw function values := by
  have tame (read : List Expr) : Tame (argument expression function read.length) := by
    have agree : Agree (Stream.Below 0) expression expression := .refl tame_expression
    exact (agree_argument agree function read.length).tame
  rw [arguments_eq]
  refine ensures_items (fun read => argument expression function read.length) _ tame fun read => ?_
  refine Ensures.current_bind (fun token _ => ?_) fun _ _ => by rintro (_ | _ | _) <;> rfl
  split
  · rename_i isRaw
    refine Ensures.takeRaw_bind fun seen raw atToken => Ensures.pure ⟨?_, fun _ => ⟨raw, rfl⟩⟩
    subst atToken
    exact listed_raw (by simpa using (Bool.and_eq_true_iff.mp isRaw).2) raw
  · rename_i notRaw
    refine ensures.anywhere.at_token.weaken ?_
    rintro taken value ⟨isOperand, atToken⟩
    refine ⟨isOperand.listed True, fun readsRaw => ?_⟩
    have isText : token.isText = true := by simpa [readsRaw] using notRaw
    obtain ⟨first, others, opens, -⟩ := isOperand.shaped.opens
    have spells := isOperand.spells
    rw [opens] at spells ⊢
    cases spells with
    | raw argument => exact ⟨argument, rfl⟩
    | token =>
      rw [← atToken _ rfl] at isText
      cases first with
      | text content => exact ⟨content, rfl⟩
      | _ => cases isText

theorem ensures_expressions {α : Type} {closing : Symbol} {expectation : Expectation}
    {result : List Expr → α} :
    Ensures count Anything
      (expressions expression (.symbol closing) >>= fun read =>
        expect (.symbol closing) expectation >>= fun _ => pure (result read))
      fun taken value => ∃ values, value = result values ∧ Enclosed closing taken values ∧
        True := by
  have items : Ensures count Anything
      (expression >>= fun first => loop (itemStep fun _ => expression) [first])
      fun taken values => Listed False taken values ∧ True :=
    (ensures_items (fun _ => expression) (fun _ _ => True) (fun _ => tame_expression) fun _ =>
      ensures.weaken fun _ _ isOperand => ⟨isOperand.listed False, trivial⟩).weaken
        fun _ _ listed => ⟨listed.1, trivial⟩
  rw [expressions_eq, bind_assoc]
  exact ensures_enclosed False.elim trivial items

/-- A name or a call is a member. -/
theorem ensures_nameOrCall {spelling : String} (named : IsName spelling) :
    Ensures (count + 1) (· = .name spelling) (nameOrCall expression spelling) fun taken value =>
      Operand 11 taken value ∧ value.isMember = true := by
  refine Ensures.advance_bind (by rintro ⟨⟩) ?_
  rw [isAt_bind_eq]
  refine Ensures.current_bind (fun token _ => ?_) fun _ _ => by rintro (_ | _ | _) <;> rfl
  cases isOpen : token == .symbol .openParen with
  | false => exact Ensures.pure ⟨⟨.name named, Nat.le_refl _, .token _ .nil⟩, rfl⟩
  | true =>
    cases eq_of_beq isOpen
    have arguments : Ensures (count + 1) (· = .symbol .openParen)
        (callArguments expression spelling) fun taken values =>
          ∃ others, taken = .token (.symbol .openParen) :: others ∧
            Enclosed .closeParen others values ∧ QuotesRaw spelling values := by
      rw [callArguments_eq]
      refine Ensures.advance_bind (by rintro ⟨⟩) ((ensures_enclosed (fun _ => .inr rfl)
        (by rintro _ _ ⟨⟩) (ensures_arguments ensures spelling)).weaken ?_)
      rintro others _ ⟨values, rfl, enclosed⟩
      exact ⟨others, rfl, enclosed⟩
    refine Ensures.bind_return arguments.fewer ?_
    rintro _ values ⟨others, rfl, enclosed, quoted⟩
    exact ⟨⟨.call named enclosed.shaped quoted, Nat.le_refl _,
      .token _ (.token _ enclosed.spells)⟩, rfl⟩

end Arguments

/-! ## The rules -/

/-- The inner parts of expressions are trees of the grammar. -/
structure Nested.Sound (count : Nat) : Prop where
  expression : Ensures count Anything Parser.expression (Operand 0)
  conditional : Ensures count Anything unbounded.conditional (Operand 1)
  unary : Ensures count Anything unbounded.unary (Operand 9)

/-- Everything behind an operand begins with a token of its own. -/
theorem advances_suffix {inner twin : Nested} (agree : inner.Agree (Stream.Below 0) twin) :
    Advances (suffix inner) := by
  intro target
  apply Consumes.current_bind
  intro token
  split
  · exact .advance_bind (by rintro ⟨⟩)
      ((agree_expressions (lasting_below 0) agree.expression _).tame.bind fun _ =>
        (Tame.expect _ _).bind fun _ => .pure _)
  · apply Consumes.advance_bind (by rintro ⟨⟩)
    apply Tame.current_bind
    intro next
    split
    · rename_i spelling
      have name : Token.name spelling ≠ .endOfInput := by rintro ⟨⟩
      exact (agree_nameOrCall agree.expression name spelling).tame.bind fun _ => .pure _
    · exact .fail _
  · exact .advance_bind (by rintro ⟨⟩) (.pure _)
  · exact .advance_bind (by rintro ⟨⟩) (.pure _)
  · exact .pure (by rintro ⟨⟩)

section Rules

variable (sound : Nested.Sound count)

include sound

theorem ensures_primary : Ensures (count + 1) Anything (primary unbounded) (Operand 11) := by
  refine Ensures.current_bind (fun token valid => ?_) fun _ _ => by rintro (_ | _ | _) <;> rfl
  split
  · exact Ensures.advance_bind (by rintro ⟨⟩)
      (Ensures.pure ⟨.number valid, Nat.le_refl _, .token _ .nil⟩)
  · exact Ensures.advance_bind (by rintro ⟨⟩)
      (Ensures.pure ⟨.text _, Nat.le_refl _, .token _ .nil⟩)
  · exact (ensures_nameOrCall sound.expression valid).weaken fun _ _ => And.left
  · refine Ensures.advance_bind (by rintro ⟨⟩) (Ensures.bind sound.expression ?_)
    intro taken content isOperand
    exact Ensures.expect_bind (by rintro ⟨⟩) (Ensures.pure ⟨.grouped isOperand.shaped,
      Nat.le_refl _, .token _ (isOperand.spells.append (.token _ .nil))⟩)
  · refine Ensures.advance_bind (by rintro ⟨⟩) ((ensures_expressions sound.expression).weaken ?_)
    rintro taken _ ⟨items, rfl, enclosed, -⟩
    exact ⟨.list enclosed.shaped, Nat.le_refl _, .token _ enclosed.spells⟩
  · exact Ensures.refuse _

theorem ensures_suffix {taken : List Taken} {target : Expr} (isTarget : Operand 10 taken target) :
    Ensures (count + 1) Anything (suffix unbounded target)
      (Ensures.Keeps (Operand 10) taken) := by
  refine Ensures.current_bind (fun token _ => ?_) fun _ _ => by rintro (_ | _ | _) <;> rfl
  split
  · refine Ensures.advance_bind (by rintro ⟨⟩) ((ensures_expressions sound.expression).weaken ?_)
    rintro others _ ⟨indices, rfl, enclosed, -⟩
    exact isTarget.indexedBy enclosed
  · refine Ensures.advance_bind (by rintro ⟨⟩) ?_
    refine Ensures.current_bind (fun next valid => ?_) fun _ _ => by rintro (_ | _ | _) <;> rfl
    split
    · refine (Ensures.bind_return (ensures_nameOrCall sound.expression valid) ?_).fewer
      rintro others segment ⟨isSegment, member⟩
      exact isTarget.withMember isSegment member
    · exact Ensures.fail _ _
  · exact Ensures.advance_bind (by rintro ⟨⟩)
      (Ensures.pure (isTarget.postfixed .postIncrement rfl))
  · exact Ensures.advance_bind (by rintro ⟨⟩)
      (Ensures.pure (isTarget.postfixed .postDecrement rfl))
  · exact Ensures.pure rfl

theorem sound_unary : Sound (count + 1) 9 (unary unbounded) where
  tame := (agree_unary (agree_unbounded_self (Stream.Below 0))).tame
  ensures := by
    refine Ensures.current_bind (fun token _ => ?_) fun _ _ => by rintro (_ | _ | _) <;> rfl
    split
    · rename_i op found
      obtain ⟨sameToken, inFront⟩ := UnaryOp.token_of_ofToken? found
      have inside : token ≠ .endOfInput := by
        rintro rfl
        cases found
      refine Ensures.advance_bind inside (Ensures.bind_return sound.unary ?_)
      intro taken operand isOperand
      refine ⟨.prefixed inFront isOperand.shaped isOperand.tight, by simp [level, inFront], ?_⟩
      simpa [Expr.tokens, inFront, sameToken] using Spells.token token isOperand.spells
    · refine (Ensures.bind (ensures_primary sound) fun taken first isOperand => ?_).anywhere
      refine Ensures.weaken (Ensures.loop (fun _ _ => ensures_suffix sound)
        (advances_suffix (agree_unbounded_self _)) (isOperand.loosen (by decide))) fun _ _ isOperand => isOperand.loosen (by decide)

theorem sound_sum : Sound (count + 1) 6 (sum unbounded) :=
  sound_chain_same (by decide) (sound_chain_same (by decide)
    (sound_chain_same (by decide) (sound_unary sound)))

/-- The right side of a membership test. -/
theorem ensures_collection :
    Ensures (count + 1) Anything (collection unbounded) fun taken value =>
      Spells taken value.tokens ∧
        ∀ left, Shaped left → 5 ≤ left.level → Shaped (.binary .isIn left value) := by
  have operand := (sound_sum sound).ensures
  refine Ensures.accept_bind rfl ?_ (operand.weaken ?_)
  · refine Ensures.bind operand.fewer fun taken low isLow => ?_
    refine Ensures.expect_bind (by rintro ⟨⟩) (Ensures.bind operand.fewer ?_)
    intro others high isHigh
    refine Ensures.expect_bind (by rintro ⟨⟩) (Ensures.pure ⟨?_, fun left shaped tight => ?_⟩)
    · simpa [Expr.tokens] using Spells.token (.symbol .less)
        (isLow.spells.append (.token (.symbol .comma) (isHigh.spells.append (.token _ .nil))))
    · exact .within shaped tight isLow.shaped isLow.tight isHigh.shaped isHigh.tight
  · intro taken value isOperand
    refine ⟨isOperand.spells, fun left shaped tight => ?_⟩
    exact .operation (by decide) shaped tight isOperand.shaped isOperand.tight

theorem sound_disjunction : Sound (count + 1) 2 (disjunction unbounded) := by
  have operand := sound_sum sound
  have comparison : Sound (count + 1) 5 (comparison unbounded) := by
    refine sound_chain operand (fun op => ?_) fun op strength => ?_
    · split
      · exact (agree_collection (agree_unbounded_self (Stream.Below 0))).tame
      · exact operand.tame
    · split
      · rename_i isMembership
        subst isMembership
        exact ensures_collection sound
      · refine operand.ensures.weaken fun _ _ isOperand =>
          ⟨isOperand.spells, fun left shaped tight => ?_⟩
        exact .operation (by omega) shaped (by omega) isOperand.shaped
          (strength ▸ isOperand.tight)
  exact sound_chain_same (by decide) (sound_chain_same (by decide)
    (sound_chain_same (by decide) comparison))

theorem ensures_conditional : Ensures (count + 1) Anything (conditional unbounded) (Operand 1) := by
  refine Ensures.bind (sound_disjunction sound).ensures fun taken condition isCondition => ?_
  refine Ensures.accept_bind rfl ?_ (Ensures.pure ?_)
  · refine Ensures.bind sound.expression fun others whenTrue isTrue => ?_
    refine Ensures.expect_bind (by rintro ⟨⟩) (Ensures.bind_return sound.conditional ?_)
    intro last whenFalse isFalse
    refine ⟨?_, Nat.le_refl _, ?_⟩
    · exact .conditional isCondition.shaped isCondition.tight isTrue.shaped isFalse.shaped
        isFalse.tight
    · simpa [Expr.tokens] using isCondition.spells.append (.token (.symbol .question)
        (isTrue.spells.append (.token (.symbol .colon) isFalse.spells)))
  · rw [List.append_nil]
    exact isCondition.loosen (by decide)

theorem ensures_assignment : Ensures (count + 1) Anything (assignment unbounded) (Operand 0) := by
  refine Ensures.bind (ensures_conditional sound) fun taken target isTarget => ?_
  refine Ensures.current_bind (fun token _ => ?_) fun _ _ => by rintro (_ | _ | _) <;> rfl
  split
  · rename_i op found
    obtain ⟨isToken, loose⟩ := operatorOf?_eq_some_iff.mp found
    have inside : token ≠ .endOfInput := by
      rintro rfl
      cases found
    refine Ensures.advance_bind inside (Ensures.bind_return sound.expression ?_)
    intro others value isValue
    refine ⟨.assignment loose isTarget.shaped isTarget.tight isValue.shaped, Nat.zero_le _, ?_⟩
    rw [Expr.tokens, BinaryOp.token_of_ofToken? isToken]
    exact isTarget.spells.append (.token token isValue.spells)
  · refine Ensures.pure ?_
    rw [List.append_nil]
    exact isTarget.loosen (by decide)

end Rules

/-! ## Nesting -/

theorem Ensures.of_agree {α : Type} {parser twin : Parser α} {property : List Taken → α → Prop}
    (ensures : Ensures count Anything twin property) (agree : Agree Stream.Standing parser twin) :
    Ensures count Anything parser property := by
  intro stream after value below started run
  rw [agree.agrees stream below.standing] at run
  obtain ⟨taken, gives, holds, again⟩ := ensures stream after value below started run
  refine ⟨taken, gives, holds, fun other otherAfter standing otherGives alike => ?_⟩
  rw [agree.agrees other standing]
  exact again other otherAfter standing otherGives alike

theorem sound_unbounded (count : Nat) : Nested.Sound count := by
  induction count with
  | zero => constructor <;> exact fun _ _ _ below => absurd below.fits (Nat.not_lt_zero _)
  | succ count ih =>
    exact ⟨(ensures_assignment ih).of_agree agree_around_unbounded.expression,
      (ensures_conditional ih).of_agree agree_around_unbounded.conditional,
      (sound_unary ih).ensures.of_agree agree_around_unbounded.unary⟩

/-- Every expression that is read is a tree of the grammar, and it is read from
every stream that gives the same. -/
theorem ensures_expression {stream after : Stream} (standing : stream.Standing)
    (run : expression.runOn stream = (.ok expr, after)) :
    ∃ taken, stream.Gives taken after ∧ Operand 0 taken expr ∧
      ∀ other otherAfter : Stream, other.Standing → other.Gives taken otherAfter →
        after.current.Alike otherAfter.current →
          expression.runOn other = (.ok expr, otherAfter) :=
  (sound_unbounded _).expression stream after expr ⟨standing, Nat.lt_succ_self _⟩ trivial run

end Parser

namespace Expr

/-- Reading a text as one expression is to read an expression that ends with the
text. -/
theorem parse_eq_ok_iff {source : String} :
    parse source = .ok expr ↔
      (Stream.ofText source.toList).findings = [] ∧
        ∃ after : Stream, Parser.expression.runOn (Stream.ofText source.toList) = (.ok expr, after) ∧
          after.current = .endOfInput := by
  rw [parse]
  cases (Stream.ofText source.toList).findings with
  | cons finding others => simp
  | nil =>
    dsimp only
    rw [Parser.runOn_bind]
    cases Parser.expression.runOn (Stream.ofText source.toList) with
    | mk outcome after =>
      cases outcome with
      | error error => simp
      | ok value =>
        dsimp only
        rw [Parser.runOn_bind, Parser.runOn_current]
        dsimp only
        split
        · rename_i atEnd
          simp [atEnd]
        · rename_i notAtEnd
          simpa using fun _ => notAtEnd

/-- A text that is read as one expression gives a tree of the grammar. -/
theorem shaped_of_parse {source : String} {expr : Expr} (parsed : parse source = .ok expr) :
    expr.Shaped := by
  obtain ⟨-, after, run, -⟩ := parse_eq_ok_iff.mp parsed
  obtain ⟨taken, gives, isOperand, -⟩ := Parser.ensures_expression (Stream.standing_ofText _) run
  exact isOperand.shaped

end Expr

end EventScript
