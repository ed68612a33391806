import EventScript.Proofs.Code.Tokens

/-!
# Operands in generated code

How tightly operators bind is a matter of how far their operands reach.  A
member access takes the longest chain in front of it: an atom or a group, with
members, calls and indices behind it.  A comparison for equality takes, on its
left, everything up to an opening bracket or a looser operator, since such
comparisons associate to the left; on its right it stops at another comparison
for equality too.
-/

namespace EventScript

variable {token : CodeToken} {stops : CodeToken → Bool} {tokens : List CodeToken}

/-! ## Brackets -/

namespace CodeToken

/-- Whether a token opens a bracket. -/
def opens : CodeToken → Bool
  | shared (.symbol .openParen) => true
  | shared (.symbol .openBracket) => true
  | shared (.symbol .openBrace) => true
  | _ => false

/-- Whether a token closes a bracket. -/
def closes : CodeToken → Bool
  | shared (.symbol .closeParen) => true
  | shared (.symbol .closeBracket) => true
  | shared (.symbol .closeBrace) => true
  | _ => false

theorem not_closes_of_opens (isOpen : token.opens = true) : token.closes = false := by
  unfold opens at isOpen
  split at isOpen
  all_goals first | rfl | cases isOpen

end CodeToken

/-- The number of open brackets behind a token, if it may stand where `depth`
brackets are open.  Outside of brackets some tokens may be forbidden. -/
def nestStep (stops : CodeToken → Bool) (depth : Nat) (token : CodeToken) : Option Nat :=
  if token.opens then some (depth + 1)
  else if token.closes then if depth = 0 then none else some (depth - 1)
  else if depth = 0 && stops token then none
  else some depth

/-- The number of open brackets behind tokens, if none is closed that was not
open and no forbidden token stands outside of brackets. -/
def nest (stops : CodeToken → Bool) : Nat → List CodeToken → Option Nat
  | depth, [] => some depth
  | depth, token :: rest => (nestStep stops depth token).bind fun inner => nest stops inner rest

/-- Brackets alone, with no token forbidden. -/
def anywhere (_ : CodeToken) : Bool :=
  false

/-- Tokens with balanced brackets and no forbidden token outside of them. -/
def spans (stops : CodeToken → Bool) (tokens : List CodeToken) : Bool :=
  nest stops 0 tokens == some 0

theorem spans_iff : spans stops tokens = true ↔ nest stops 0 tokens = some 0 :=
  beq_iff_eq

section Nesting

variable {stops : CodeToken → Bool}

@[simp]
theorem nest_nil (depth : Nat) : nest stops depth [] = some depth :=
  rfl

theorem nest_append (depth : Nat) (first second : List CodeToken) :
    nest stops depth (first ++ second) =
      (nest stops depth first).bind fun inner => nest stops inner second := by
  induction first generalizing depth with
  | nil => rfl
  | cons token rest ih =>
    rw [List.cons_append, nest, nest, Option.bind_assoc]
    exact Option.bind_congr fun inner _ => ih inner

theorem nest_append_eq_some {depth behind : Nat} {first second : List CodeToken} :
    nest stops depth (first ++ second) = some behind ↔
      ∃ inner, nest stops depth first = some inner ∧ nest stops inner second = some behind := by
  rw [nest_append, Option.bind_eq_some_iff]

theorem nest_cons_eq_some {depth behind : Nat} {rest : List CodeToken} :
    nest stops depth (token :: rest) = some behind ↔
      ∃ inner, nestStep stops depth token = some inner ∧ nest stops inner rest = some behind := by
  rw [nest, Option.bind_eq_some_iff]

theorem nestStep_of_opens (isOpen : token.opens = true) (depth : Nat) :
    nestStep stops depth token = some (depth + 1) := by
  rw [nestStep, if_pos isOpen]

theorem nestStep_of_closes (isClosing : token.closes = true) (depth : Nat) :
    nestStep stops (depth + 1) token = some depth := by
  have notOpen : ¬token.opens = true := fun isOpen => by
    rw [CodeToken.not_closes_of_opens isOpen] at isClosing
    cases isClosing
  rw [nestStep, if_neg notOpen, if_pos isClosing, if_neg (Nat.succ_ne_zero depth),
    Nat.add_sub_cancel]

theorem nestStep_of_plain (notOpen : token.opens = false) (notClosing : token.closes = false)
    {depth : Nat} (allowed : depth = 0 → stops token = false) :
    nestStep stops depth token = some depth := by
  rw [nestStep, notOpen, notClosing]
  by_cases outside : depth = 0
  · simp [allowed outside]
  · simp [outside]

/-- What one token can do. -/
theorem nestStep_cases {depth behind : Nat} (stepped : nestStep stops depth token = some behind) :
    (token.opens = true ∧ behind = depth + 1) ∨
      (token.closes = true ∧ depth = behind + 1) ∨
      (token.opens = false ∧ token.closes = false ∧ behind = depth ∧
        (depth = 0 → stops token = false)) := by
  unfold nestStep at stepped
  cases isOpen : token.opens with
  | true =>
    rw [if_pos isOpen] at stepped
    exact .inl ⟨rfl, (Option.some.inj stepped).symm⟩
  | false =>
    rw [isOpen, if_neg Bool.false_ne_true] at stepped
    cases isClosing : token.closes with
    | true =>
      rw [if_pos isClosing] at stepped
      split at stepped
      · cases stepped
      · have := Option.some.inj stepped
        exact .inr (.inl ⟨rfl, by omega⟩)
    | false =>
      rw [isClosing, if_neg Bool.false_ne_true] at stepped
      split at stepped
      · cases stepped
      · next allowed =>
        refine .inr (.inr ⟨rfl, rfl, (Option.some.inj stepped).symm, fun outside => ?_⟩)
        simpa [outside] using allowed

/-- Further in, the same tokens nest alike; outside of brackets nothing more is
allowed than inside. -/
theorem nestStep_add {depth behind : Nat} (more : Nat)
    (stepped : nestStep stops depth token = some behind) :
    nestStep stops (depth + more) token = some (behind + more) := by
  rcases nestStep_cases stepped with ⟨isOpen, rfl⟩ | ⟨isClosing, rfl⟩ |
    ⟨notOpen, notClosing, rfl, allowed⟩
  · rw [nestStep_of_opens isOpen, Nat.add_right_comm]
  · rw [Nat.add_right_comm, nestStep_of_closes isClosing]
  · exact nestStep_of_plain notOpen notClosing fun outside => allowed (by omega)

theorem nest_add {depth behind : Nat} (more : Nat) (nested : nest stops depth tokens = some behind) :
    nest stops (depth + more) tokens = some (behind + more) := by
  induction tokens generalizing depth with
  | nil =>
    cases nested
    rfl
  | cons token rest ih =>
    obtain ⟨inner, stepped, nestedRest⟩ := nest_cons_eq_some.mp nested
    exact nest_cons_eq_some.mpr
      ⟨inner + more, nestStep_add more stepped, ih nestedRest⟩

/-- Balanced tokens may stand anywhere. -/
theorem nest_of_spans (spanned : spans stops tokens = true) (depth : Nat) :
    nest stops depth tokens = some depth := by
  have shifted := nest_add depth (spans_iff.mp spanned)
  rwa [Nat.zero_add] at shifted

theorem spans_append {first second : List CodeToken} (spanned : spans stops second = true) :
    spans stops (first ++ second) = spans stops first := by
  rw [Bool.eq_iff_iff, spans_iff, spans_iff, nest_append_eq_some]
  simp [nest_of_spans spanned]

/-- Inside of brackets every token is allowed. -/
theorem nest_inside {depth behind : Nat} (nested : nest anywhere depth tokens = some behind) :
    nest stops (depth + 1) tokens = some (behind + 1) := by
  induction tokens generalizing depth with
  | nil =>
    cases nested
    rfl
  | cons token rest ih =>
    obtain ⟨inner, stepped, nestedRest⟩ := nest_cons_eq_some.mp nested
    refine nest_cons_eq_some.mpr ⟨inner + 1, ?_, ih nestedRest⟩
    rcases nestStep_cases stepped with ⟨isOpen, rfl⟩ | ⟨isClosing, rfl⟩ |
      ⟨notOpen, notClosing, rfl, -⟩
    · exact nestStep_of_opens isOpen _
    · exact nestStep_of_closes isClosing _
    · exact nestStep_of_plain notOpen notClosing (by omega)

/-- A group in brackets spans, whatever is forbidden outside of it. -/
theorem spans_group {opening closing : CodeToken} {inside : List CodeToken}
    (isOpen : opening.opens = true) (isClosing : closing.closes = true)
    (balanced : spans anywhere inside = true) :
    spans stops (opening :: (inside ++ [closing])) = true := by
  refine spans_iff.mpr (nest_cons_eq_some.mpr ⟨1, nestStep_of_opens isOpen 0, ?_⟩)
  refine nest_append_eq_some.mpr ⟨1, nest_inside (spans_iff.mp balanced), ?_⟩
  exact nest_cons_eq_some.mpr ⟨0, nestStep_of_closes isClosing 0, rfl⟩

end Nesting

/-- An opening bracket that is still open was followed by balanced tokens
only. -/
theorem exists_opening {depth : Nat} (nested : nest anywhere 0 tokens = some (depth + 1)) :
    ∃ before opening inside, tokens = before ++ opening :: inside ∧ opening.opens = true ∧
      nest anywhere 0 before = some depth ∧ spans anywhere inside = true := by
  induction isLength : tokens.length using Nat.strongRecOn generalizing tokens depth with
  | ind length ih =>
    subst isLength
    rcases List.eq_nil_or_concat tokens with rfl | ⟨front, last, rfl⟩
    · cases nested
    rw [List.concat_eq_append] at nested ih ⊢
    obtain ⟨inner, nestedFront, nestedLast⟩ := nest_append_eq_some.mp nested
    obtain ⟨behind, stepped, same⟩ := nest_cons_eq_some.mp nestedLast
    cases same
    rcases nestStep_cases stepped with ⟨isOpen, same⟩ | ⟨isClosing, rfl⟩ |
      ⟨notOpen, notClosing, rfl, -⟩
    · exact ⟨front, last, [], rfl, isOpen, nestedFront.trans (by rw [Nat.succ.inj same]), rfl⟩
    · -- the last token closes a group; the opening one stands in front of that group
      obtain ⟨outer, opening, inside, rfl, isOpen, nestedOuter, balanced⟩ :=
        ih _ (by simp) nestedFront rfl
      obtain ⟨before, first, within, rfl, isFirst, nestedBefore, balancedWithin⟩ :=
        ih _ (by simp) nestedOuter rfl
      refine ⟨before, first, within ++ opening :: (inside ++ [last]), by simp, isFirst,
        nestedBefore, ?_⟩
      rw [spans_append (spans_group isOpen isClosing balanced), balancedWithin]
    · obtain ⟨before, opening, inside, rfl, isOpen, nestedBefore, balanced⟩ :=
        ih _ (by simp) nestedFront rfl
      refine ⟨before, opening, inside ++ [last], by simp, isOpen, nestedBefore, ?_⟩
      have alone : spans anywhere [last] = true :=
        spans_iff.mpr (nest_cons_eq_some.mpr
          ⟨0, nestStep_of_plain notOpen notClosing fun _ => rfl, rfl⟩)
      rw [spans_append alone, balanced]

/-- Where more brackets are open than in the end, one is closed behind balanced
tokens. -/
theorem exists_closing {depth behind : Nat}
    (nested : nest anywhere (depth + 1) tokens = some behind) (fewer : behind ≤ depth) :
    ∃ inside closing after, tokens = inside ++ closing :: after ∧ closing.closes = true ∧
      nest anywhere depth after = some behind ∧ spans anywhere inside = true := by
  induction isLength : tokens.length using Nat.strongRecOn generalizing tokens depth with
  | ind length ih =>
    subst isLength
    cases tokens with
    | nil =>
      cases nested
      omega
    | cons token rest =>
      obtain ⟨inner, stepped, nestedRest⟩ := nest_cons_eq_some.mp nested
      rcases nestStep_cases stepped with ⟨isOpen, rfl⟩ | ⟨isClosing, same⟩ |
        ⟨notOpen, notClosing, rfl, -⟩
      · -- the first token opens a group; the closing one stands behind that group
        obtain ⟨inside, closing, after, rfl, isClosing, nestedAfter, balanced⟩ :=
          ih _ (by simp) nestedRest (by omega) rfl
        obtain ⟨within, last, outer, rfl, isLast, nestedOuter, balancedWithin⟩ :=
          ih _ (by simp; omega) nestedAfter fewer rfl
        refine ⟨token :: (inside ++ [closing]) ++ within, last, outer, by simp, isLast,
          nestedOuter, ?_⟩
        rw [spans_append balancedWithin, spans_group isOpen isClosing balanced]
      · obtain rfl := Nat.succ.inj same
        exact ⟨[], token, rest, rfl, isClosing, nestedRest, rfl⟩
      · obtain ⟨inside, closing, after, rfl, isClosing, nestedAfter, balanced⟩ :=
          ih _ (by simp) nestedRest fewer rfl
        refine ⟨token :: inside, closing, after, rfl, isClosing, nestedAfter, ?_⟩
        exact spans_iff.mpr (nest_cons_eq_some.mpr
          ⟨0, nestStep_of_plain notOpen notClosing fun _ => rfl, spans_iff.mp balanced⟩)

/-! ## Longest parts -/

section Longest

variable {α : Type}

/-- The longest end of a list that is accepted. -/
def longestEnd (accepts : List α → Bool) : List α → Option (List α)
  | [] => if accepts [] then some [] else none
  | first :: rest => if accepts (first :: rest) then some (first :: rest) else longestEnd accepts rest

/-- The longest beginning of a list that is accepted. -/
def longestFront (accepts : List α → Bool) (items : List α) : Option (List α) :=
  (longestEnd (fun reversed => accepts reversed.reverse) items.reverse).map List.reverse

theorem isSuffix_of_longestEnd {accepts : List α → Bool} {items found : List α}
    (isLongest : longestEnd accepts items = some found) :
    found <:+ items ∧ accepts found = true := by
  induction items with
  | nil =>
    rw [longestEnd] at isLongest
    split at isLongest
    · next accepted =>
      cases isLongest
      exact ⟨List.suffix_refl _, accepted⟩
    · cases isLongest
  | cons first rest ih =>
    rw [longestEnd] at isLongest
    split at isLongest
    · next accepted =>
      cases isLongest
      exact ⟨List.suffix_refl _, accepted⟩
    · obtain ⟨inside, accepted⟩ := ih isLongest
      exact ⟨inside.trans (List.suffix_cons _ _), accepted⟩

/-- An end of a list is the longest that is accepted if it is and no longer one
is. -/
theorem longestEnd_append_iff {accepts : List α → Bool} {before found : List α} :
    longestEnd accepts (before ++ found) = some found ↔
      accepts found = true ∧
        ∀ front, front <:+ before → front ≠ [] → accepts (front ++ found) = false := by
  induction before with
  | nil =>
    constructor
    · intro isLongest
      refine ⟨(isSuffix_of_longestEnd isLongest).2, fun front inside nonempty => ?_⟩
      exact absurd (List.suffix_nil.mp inside) nonempty
    · rintro ⟨accepted, -⟩
      cases found <;> simp [longestEnd, accepted]
  | cons first rest ih =>
    rw [List.cons_append, longestEnd]
    cases accepted : accepts (first :: (rest ++ found)) with
    | true =>
      constructor
      · intro isLongest
        have lengths := congrArg List.length (Option.some.inj isLongest)
        simp only [List.length_cons, List.length_append] at lengths
        omega
      · rintro ⟨-, longer⟩
        have refused := longer (first :: rest) (List.suffix_refl _) (List.cons_ne_nil _ _)
        rw [List.cons_append, accepted] at refused
        cases refused
    | false =>
      rw [if_neg Bool.false_ne_true, ih]
      refine and_congr_right fun _ => ⟨fun longer front inside nonempty => ?_,
        fun longer front inside => longer front (inside.trans (List.suffix_cons _ _))⟩
      rcases List.suffix_cons_iff.mp inside with rfl | inRest
      · exact accepted
      · exact longer front inRest nonempty

theorem longestFront_append_iff {accepts : List α → Bool} {found after : List α} :
    longestFront accepts (found ++ after) = some found ↔
      accepts found = true ∧
        ∀ back, back <+: after → back ≠ [] → accepts (found ++ back) = false := by
  have reversed : longestFront accepts (found ++ after) = some found ↔
      longestEnd (fun reversed => accepts reversed.reverse) (after.reverse ++ found.reverse) =
        some found.reverse := by
    rw [longestFront, List.reverse_append, Option.map_eq_some_iff]
    constructor
    · rintro ⟨items, isLongest, rfl⟩
      rw [List.reverse_reverse] at isLongest ⊢
      exact isLongest
    · exact fun isLongest => ⟨_, isLongest, List.reverse_reverse _⟩
  rw [reversed, longestEnd_append_iff, List.reverse_reverse]
  refine and_congr_right fun _ => ⟨fun longer back inside nonempty => ?_,
    fun longer front inside nonempty => ?_⟩
  · have refused := longer back.reverse (List.reverse_suffix.mpr inside) (by simpa using nonempty)
    simpa using refused
  · have refused := longer front.reverse
      (List.reverse_suffix.mp (by rwa [List.reverse_reverse])) (by simpa using nonempty)
    simpa using refused

end Longest

/-! ## Operands -/

namespace CodeToken

/-- Whether a token is an operand by itself. -/
def isAtom : CodeToken → Bool
  | shared (.number _) => true
  | shared (.text _) => true
  | shared (.name _) => true
  | shared (.keyword _) => true
  | _ => false

/-- Whether a token can name a member. -/
def isWord : CodeToken → Bool
  | shared (.name _) => true
  | shared (.keyword _) => true
  | _ => false

/-- Whether a token opens a call, an index or a group. -/
def opensGroup : CodeToken → Bool
  | shared (.symbol .openParen) => true
  | shared (.symbol .openBracket) => true
  | _ => false

/-- Whether a token separates or binds less tightly than a comparison for
equality. -/
def isLoose : CodeToken → Bool
  | shared (.symbol .and) => true
  | shared (.symbol .or) => true
  | shared (.symbol .question) => true
  | shared (.symbol .colon) => true
  | shared (.symbol .comma) => true
  | shared (.symbol .semicolon) => true
  | shared (.symbol .assign) => true
  | shared (.symbol .plusEqual) => true
  | shared (.symbol .minusEqual) => true
  | shared (.symbol .starEqual) => true
  | shared (.symbol .slashEqual) => true
  | _ => false

/-- Whether a token compares for equality. -/
def isEquality : CodeToken → Bool
  | shared (.symbol .equal) => true
  | shared (.symbol .notEqual) => true
  | differs => true
  | _ => false

end CodeToken

/-- How far a chain has been read. -/
inductive ChainState where
  | start
  /-- Behind an operand. -/
  | behind
  /-- Behind the point of a member access. -/
  | point
  /-- Inside the brackets of a group, a call or an index, at a depth. -/
  | inside (depth : Nat)
  deriving DecidableEq

namespace ChainState

/-- Read one token of a chain. -/
def step : ChainState → CodeToken → Option ChainState
  | start, token =>
    if token.isAtom then some behind else if token.opensGroup then some (inside 0) else none
  | behind, token =>
    if token = .shared (.symbol .dot) then some point
    else if token.opensGroup then some (inside 0) else none
  | point, token => if token.isWord then some behind else none
  | inside depth, token =>
    if token.opens then some (inside (depth + 1))
    else if token.closes then some (if depth = 0 then behind else inside (depth - 1))
    else some (inside depth)

/-- Read several tokens of a chain. -/
def run : ChainState → List CodeToken → Option ChainState
  | state, [] => some state
  | state, token :: rest => (state.step token).bind fun next => next.run rest

/-- The brackets that are open. -/
def depth : ChainState → Nat
  | inside depth => depth + 1
  | _ => 0

end ChainState

/-- Whether tokens are one operand of a member access: an atom or a group, with
members, calls and indices behind it. -/
def isChain (tokens : List CodeToken) : Bool :=
  ChainState.start.run tokens == some .behind

/-- The operand of a member access behind tokens. -/
def memberOperand (tokens : List CodeToken) : Option (List CodeToken) :=
  longestEnd isChain tokens

/-- The left operand of a comparison for equality behind tokens. -/
def leftOperand (tokens : List CodeToken) : Option (List CodeToken) :=
  longestEnd (spans CodeToken.isLoose) tokens

/-- The right operand of a comparison for equality in front of tokens. -/
def rightOperand (tokens : List CodeToken) : Option (List CodeToken) :=
  longestFront (spans fun token => token.isLoose || token.isEquality) tokens

/-! ## Chains -/

namespace ChainState

theorem run_append (state : ChainState) (first second : List CodeToken) :
    state.run (first ++ second) = (state.run first).bind fun next => next.run second := by
  induction first generalizing state with
  | nil => rfl
  | cons token rest ih =>
    rw [List.cons_append, run, run, Option.bind_assoc]
    exact Option.bind_congr fun next _ => ih next

/-- Outside of its brackets a chain has only atoms and points. -/
theorem nestStep_of_step (atoms : ∀ token, token.isAtom → !stops token)
    (point : !stops (.shared (.symbol .dot))) {state next : ChainState}
    (stepped : state.step token = some next) :
    nestStep stops state.depth token = some next.depth := by
  have ofAtom (isAtom : token.isAtom = true) : nestStep stops 0 token = some 0 := by
    have allowed := atoms token isAtom
    rw [Bool.not_eq_true'] at allowed
    unfold CodeToken.isAtom at isAtom
    split at isAtom
    all_goals first | exact nestStep_of_plain rfl rfl fun _ => allowed | cases isAtom
  have ofGroup (isOpen : token.opensGroup = true) : nestStep stops 0 token = some 1 := by
    unfold CodeToken.opensGroup at isOpen
    split at isOpen
    all_goals first | exact nestStep_of_opens rfl 0 | cases isOpen
  cases state with
  | start =>
    rw [step] at stepped
    split at stepped
    · next isAtom =>
      cases stepped
      exact ofAtom isAtom
    · split at stepped
      · next isOpen =>
        cases stepped
        exact ofGroup isOpen
      · cases stepped
  | behind =>
    rw [step] at stepped
    split at stepped
    · next isPoint =>
      cases stepped
      subst isPoint
      rw [Bool.not_eq_true'] at point
      exact nestStep_of_plain rfl rfl fun _ => point
    · split at stepped
      · next isOpen =>
        cases stepped
        exact ofGroup isOpen
      · cases stepped
  | point =>
    rw [step] at stepped
    split at stepped
    · next isWord =>
      cases stepped
      refine ofAtom ?_
      unfold CodeToken.isWord at isWord
      split at isWord
      all_goals first | rfl | cases isWord
    · cases stepped
  | inside depth =>
    rw [step] at stepped
    split at stepped
    · next isOpen =>
      cases stepped
      exact nestStep_of_opens isOpen _
    · next notOpen =>
      split at stepped
      · next isClosing =>
        cases stepped
        refine (nestStep_of_closes isClosing depth).trans ?_
        cases depth <;> rfl
      · next notClosing =>
        cases stepped
        exact nestStep_of_plain (Bool.eq_false_iff.mpr notOpen) (Bool.eq_false_iff.mpr notClosing)
          (fun outside => absurd outside (Nat.succ_ne_zero depth))

theorem nest_of_run (atoms : ∀ token, token.isAtom → !stops token)
    (point : !stops (.shared (.symbol .dot))) {state last : ChainState}
    (reached : state.run tokens = some last) : nest stops state.depth tokens = some last.depth := by
  induction tokens generalizing state with
  | nil =>
    cases reached
    rfl
  | cons token rest ih =>
    obtain ⟨next, stepped, reachedRest⟩ := Option.bind_eq_some_iff.mp reached
    exact nest_cons_eq_some.mpr
      ⟨next.depth, nestStep_of_step atoms point stepped, ih reachedRest⟩

/-- Inside its brackets a chain may hold any tokens with balanced brackets. -/
theorem run_inside {depth behind : Nat} (nested : nest anywhere depth tokens = some behind) :
    (inside depth).run tokens = some (inside behind) := by
  induction tokens generalizing depth with
  | nil =>
    cases nested
    rfl
  | cons token rest ih =>
    obtain ⟨inner, stepped, nestedRest⟩ := nest_cons_eq_some.mp nested
    refine Option.bind_eq_some_iff.mpr ⟨inside inner, ?_, ih nestedRest⟩
    rcases nestStep_cases stepped with ⟨isOpen, rfl⟩ | ⟨isClosing, rfl⟩ |
      ⟨notOpen, notClosing, rfl, -⟩
    · rw [step, if_pos isOpen]
    · have notOpen : ¬token.opens = true := fun isOpen => by
        rw [CodeToken.not_closes_of_opens isOpen] at isClosing
        cases isClosing
      rw [step, if_neg notOpen, if_pos isClosing, if_neg (Nat.succ_ne_zero inner),
        Nat.add_sub_cancel]
    · rw [step, notOpen, notClosing, if_neg Bool.false_ne_true, if_neg Bool.false_ne_true]

end ChainState

theorem isChain_iff : isChain tokens = true ↔ ChainState.start.run tokens = some .behind :=
  beq_iff_eq

theorem spans_isLoose_of_isChain (chain : isChain tokens = true) :
    spans CodeToken.isLoose tokens = true := by
  refine spans_iff.mpr (ChainState.nest_of_run (fun token isAtom => ?_) rfl (isChain_iff.mp chain))
  unfold CodeToken.isAtom at isAtom
  split at isAtom
  all_goals first | rfl | cases isAtom

theorem isChain_member {member : CodeToken} (chain : isChain tokens = true)
    (isWord : member.isWord = true) :
    isChain (tokens ++ [.shared (.symbol .dot), member]) = true := by
  rw [isChain_iff, ChainState.run_append, isChain_iff.mp chain]
  simp [ChainState.run, ChainState.step, isWord]

theorem isChain_group {inside : List CodeToken} {opening closing : CodeToken}
    (chain : isChain tokens = true) (isOpen : opening.opensGroup = true)
    (isClosing : closing.closes = true) (balanced : spans anywhere inside = true) :
    isChain (tokens ++ opening :: (inside ++ [closing])) = true := by
  have notOpen : closing.opens = false := by
    unfold CodeToken.closes at isClosing
    split at isClosing
    all_goals first | rfl | cases isClosing
  have notPoint : opening ≠ .shared (.symbol .dot) := by
    rintro rfl
    cases isOpen
  rw [isChain_iff, ChainState.run_append, isChain_iff.mp chain, Option.bind_some, ChainState.run,
    ChainState.step, if_neg notPoint, if_pos isOpen, Option.bind_some, ChainState.run_append,
    ChainState.run_inside (spans_iff.mp balanced)]
  simp [ChainState.run, ChainState.step, notOpen, isClosing]

end EventScript
