import EventScript.Proofs.Grammar.ReadBack
import EventScript.Proofs.Grammar.Soundness
import EventScript.Proofs.Lexing.Tails
import EventScript.Proofs.Lexing.Twins

/-!
# Expressions in parentheses

A text without comments that is read as an expression is read as the same
expression between parentheses, whatever follows them.  The tokens of the text
alone do not tell this, since a call may take a part of the text as an unquoted
argument; but the stream gives the same on both texts.  What follows the
parentheses is known by its tokens, and `Comes` joins the two.
-/

namespace EventScript

variable {tokens found : List Token} {text : List Char} {stream : Stream} {source : String}
  {expr : Expr}

/-- What a stream gives up to the end of a text, another one gives in front of what
follows the text there. -/
theorem Expr.Spells.exists_gives {taken : List Taken} (spells : Spells taken tokens)
    (inside : ∀ token ∈ tokens, token ≠ .endOfInput) {tail : List Char} (worded : Worded text found)
    (apart : SetApart text tail) {after twin : Stream} (inFront : stream.InFrontOf text)
    (gives : stream.Gives taken after) (atEnd : after.current = .endOfInput)
    (twinInFront : twin.InFrontOf (text ++ tail)) :
    ∃ twinAfter : Stream, twin.Gives taken twinAfter ∧ twinAfter.InFrontOf tail := by
  induction spells generalizing text found stream twin with
  | nil =>
    cases gives
    have place := inFront.standing.eq_nil_of_endOfInput atEnd
    rw [inFront.place] at place
    subst place
    exact ⟨twin, rfl, twinInFront⟩
  | token token spells ih =>
    obtain ⟨isCurrent, gives⟩ := gives
    rw [List.forall_mem_cons] at inside
    have nonempty : text ≠ [] := by
      rintro rfl
      exact inside.1 (isCurrent.symm.trans inFront.current_eq_endOfInput)
    obtain ⟨first, rest, others, later, suffix, step⟩ := worded.exists_advance nonempty
    rw [← List.append_nil text] at inFront
    obtain ⟨isFirst, next⟩ := step [] (.nil text) stream inFront
    obtain ⟨twinFirst, twinNext⟩ := step tail apart twin twinInFront
    rw [List.append_nil] at next
    obtain ⟨twinAfter, twinGives, behind⟩ :=
      ih inside.2 later (apart.of_suffix suffix) next gives twinNext
    exact ⟨twinAfter, ⟨twinFirst.trans (isFirst.symm.trans isCurrent), twinGives⟩, behind⟩
  | @raw seen argument mark taken tokens noText isMark spells ih =>
    obtain ⟨isCurrent, isArgument, gives⟩ := gives
    rw [List.forall_mem_cons] at inside
    rcases spanned : spanRaw 0 false text with ⟨read, _ | ⟨character, more⟩⟩
    · -- an argument that runs to the end of the text is never closed
      exfalso
      have atMark := gives.1
      rw [← inFront.place] at spanned
      rw [Stream.takeRaw_eq spanned, Stream.readFrom_of_end rfl] at atMark
      cases atMark
    · have nonempty : text ≠ [] := by
        rintro rfl
        cases spanned
      obtain ⟨_, _, _, -, -, step⟩ := worded.exists_advance nonempty
      obtain ⟨others, later, suffix, takes⟩ := worded.exists_takeRaw spanned
      rw [← List.append_nil text] at inFront
      obtain ⟨isRead, next⟩ := takes [] (.nil text) stream inFront
      obtain ⟨twinRead, twinNext⟩ := takes tail apart twin twinInFront
      have isFirst := (step [] (.nil text) stream inFront).1
      have twinFirst := (step tail apart twin twinInFront).1
      rw [List.append_nil] at next
      obtain ⟨twinAfter, twinGives, behind⟩ :=
        ih inside.2 later (apart.of_suffix suffix) next gives twinNext
      exact ⟨twinAfter, ⟨twinFirst.trans (isFirst.symm.trans isCurrent),
        twinRead.trans (isRead.symm.trans isArgument), twinGives⟩, behind⟩

namespace Parser

/-- A text that is read as one expression is read as that expression in front of a
closing parenthesis. -/
theorem exists_runOn_expression (parsed : Expr.parse source = .ok expr) {gap others : List Char}
    (split : source.toList = gap ++ text) (blank : ∀ character ∈ gap, Text.isBlank character = true)
    (worded : Worded text tokens) {twin : Stream}
    (twinInFront : twin.InFrontOf (text ++ ')' :: others)) :
    ∃ twinAfter : Stream, expression.runOn twin = (.ok expr, twinAfter) ∧
      twinAfter.InFrontOf (')' :: others) := by
  obtain ⟨-, after, run, atEnd⟩ := Expr.parse_eq_ok_iff.mp parsed
  obtain ⟨taken, gives, isOperand, again⟩ := ensures_expression (Stream.standing_ofText _) run
  have inFront : (Stream.ofText source.toList).InFrontOf (text ++ []) := by
    refine (worded.inFrontOf_readFrom (.nil text) blank ?_ []).1
    rw [List.append_nil]
    exact split
  rw [List.append_nil] at inFront
  have noEnd : ∀ token ∈ expr.tokens, token ≠ .endOfInput := fun _ member =>
    (Expr.ne_of_mem_tokens member).2
  obtain ⟨twinAfter, twinGives, behind⟩ := isOperand.spells.exists_gives noEnd worded
    (.closeParen text others) inFront gives atEnd twinInFront
  refine ⟨twinAfter, again twin twinAfter twinInFront.standing twinGives ?_, behind⟩
  have reads := behind.standing.reads
  rw [behind.place] at reads
  have isMark := (ClosingMark.closeParen.begins others).reads.symm.trans reads
  exact .inr ⟨[], [.closeParen], atEnd, (Except.ok.inj (Prod.mk.inj isMark).1).symm⟩

/-! ## Coming to known tokens -/

section Comes

variable {α β : Type}

/-- On a stream a parser returns a value and comes to known tokens. -/
def Comes (parser : Parser α) (stream : Stream) (value : α) (rest : List Token) : Prop :=
  ∃ after : Stream, parser.runOn stream = (.ok value, after) ∧ after.At rest

theorem Comes.bind {first : Parser α} {second : α → Parser β} {value : α} {result : β}
    {rest : List Token} (comes : Comes first stream value (tokens ++ rest))
    (read : Reads (second value) tokens rest result) :
    Comes (first >>= second) stream result rest := by
  obtain ⟨after, run, standing⟩ := comes
  refine ⟨after.skip tokens.length, ?_, standing.skip⟩
  rw [runOn_bind, run]
  exact read after standing

end Comes

variable {inner : Nested} {stream : Stream} {expr : Expr} {rest : List Token}

/-- From a tight rule down to a looser one. -/
theorem Comes.rule_of_le {level tighter : Nat} (comes : Comes (rule inner tighter) stream expr rest)
    (looser : level ≤ tighter) (bounded : tighter ≤ 11) (ended : Ends level rest)
    (noPrefix : UnaryOp.ofToken? stream.current = none) :
    Comes (rule inner level) stream expr rest := by
  obtain ⟨after, run, standing⟩ := comes
  refine ⟨after, ?_, standing⟩
  induction looser with
  | refl => exact run
  | step _ ih =>
    refine ih (by omega) (runOn_rule_of_succ run standing (by omega) (ended.mono ‹_›) ?_)
    exact fun _ => noPrefix

/-- An operator with a tight right operand behind what the next rule reads. -/
theorem Comes.operation {depth : Nat} (op : BinaryOp) {left right : Expr}
    (tighter : 0 < op.strength)
    (comes : Comes (rule (nested depth) (op.strength + 1)) stream left
      (op.token :: (right.tokens ++ rest)))
    (shaped : right.Shaped) (tight : op.strength < right.level)
    (deep : right.tokens.length ≤ depth) (notMembership : op ≠ .isIn)
    (ended : Ends op.strength rest) :
    Comes (rule (nested depth) op.strength) stream (.binary op left right) rest := by
  have read : Reads (rightOperand (nested depth) op.strength op) right.tokens rest right := by
    rw [rightOperand_of_ne _ tighter notMembership]
    exact (readable_of_shaped shaped).reads shaped tight deep (ended.mono (Nat.le_succ _))
  have readRound : Reads (round (nested depth) op.strength left) (op.token :: right.tokens) rest
      (some (.binary op left right)) := reads_round_operator tighter read
  have steps := Steps.single readRound (List.cons_ne_nil _ _)
  rw [rule_eq_loop _ (isLoop_strength tighter)]
  exact comes.bind (steps.reads_loop (reads_round_none _ _ ended))

/-- An expression in parentheses is an operand. -/
theorem comes_grouped (isOpen : stream.current = .symbol .openParen)
    (comes : Comes inner.expression stream.advance expr (.symbol .closeParen :: rest)) :
    Comes (rule inner 11) stream (.grouped expr) rest := by
  obtain ⟨after, run, standing⟩ := comes
  refine ⟨after.advance, ?_, standing.advance⟩
  change (primary inner).runOn stream = _
  rw [primary, runOn_bind, runOn_current, isOpen]
  dsimp only
  rw [runOn_bind, runOn_advance]
  dsimp only
  rw [runOn_bind, run]
  dsimp only
  rw [runOn_bind, runOn_expect, if_pos standing.1]
  rfl

end Parser

/-! ## Parentheses in a text -/

/-- A stream in front of a text that reads as tokens. -/
theorem Stream.InFrontOf.at_of_lexes (inFront : stream.InFrontOf text) (lexed : Lexes text tokens) :
    stream.At tokens := by
  have place := inFront.place
  have visible := inFront.standing.visible
  have reads := inFront.standing.reads
  rw [place] at visible reads
  cases lexed with
  | done gap =>
    have atEnd : text = [] := Except.ok.inj (visible.symm.trans gap)
    subst atEnd
    exact inFront.current_eq_endOfInput
  | step gap nonempty read others =>
    have sameText := Except.ok.inj (visible.symm.trans gap)
    subst sameText
    obtain ⟨isToken, behind⟩ := Prod.mk.inj (reads.symm.trans read)
    rw [← behind] at others
    have inside : stream.current ≠ .endOfInput := fun atEnd =>
      nonempty (place.symm.trans (inFront.standing.eq_nil_of_endOfInput atEnd))
    have below : stream.Below (stream.remaining + 1) := ⟨inFront.standing, Nat.lt_succ_self _⟩
    exact ⟨Except.ok.inj isToken, findings_readFrom others _, (below.advance inside).fits,
      at_readFrom others _⟩

theorem begins_openParen (rest : List Char) : Begins ['('] (.symbol .openParen) rest := by
  refine begins_symbol rfl (fun _ _ => rfl) ?_ (not_startsComment (by decide) _)
  rintro ⟨⟩

/-- A text without comments that is read as an expression is read as the same one
between parentheses. -/
theorem Parser.comes_parenthesized (parsed : Expr.parse source = .ok expr)
    (lexed : Lexes source.toList found) (uncommented : Uncommented source.toList)
    {behind : List Char} (lexedBehind : Lexes behind tokens)
    (inFront : stream.InFrontOf ('(' :: (source.toList ++ ')' :: behind))) :
    stream.current = .symbol .openParen ∧
      Comes (rule (nested stream.remaining) 11) stream (.grouped expr) tokens := by
  obtain ⟨gap, text, split, blank, worded⟩ := lexed.exists_worded uncommented
  have reads := inFront.standing.reads
  rw [inFront.place, split, ← List.singleton_append, (begins_openParen _).reads] at reads
  obtain ⟨sameToken, next⟩ := Prod.mk.inj reads
  have isOpen : stream.current = .symbol .openParen := (Except.ok.inj sameToken).symm
  rw [List.append_assoc] at next
  have inside : stream.advance.InFrontOf (text ++ ')' :: behind) :=
    (worded.inFrontOf_readFrom (.closeParen text behind) blank next.symm _).1
  obtain ⟨after, run, closes⟩ := exists_runOn_expression parsed split blank worded inside
  have below : stream.advance.Below stream.remaining := by
    refine Stream.Below.advance ⟨inFront.standing, Nat.lt_succ_self _⟩ ?_
    rw [isOpen]
    rintro ⟨⟩
  have lexedClose := (ClosingMark.closeParen.begins behind).lexes lexedBehind
  refine ⟨isOpen, comes_grouped isOpen ⟨after, ?_, closes.at_of_lexes lexedClose⟩⟩
  exact ((agree_unbounded (Nat.le_refl _)).expression.agrees _ below).trans run

/-- A text that begins with an expression in parentheses.  The other tokens are left
to a lemma that goes from the group down to the loosest rule; the bound on the depth
exceeds their characters. -/
theorem Expr.parse_parenthesized {behind : String} {result : Expr}
    (parsed : parse source = .ok expr) (lexed : Lexes source.toList found)
    (uncommented : Uncommented source.toList) (lexedBehind : Lexes behind.toList tokens)
    (goesOn : ∀ {depth : Nat} {stream : Stream}, behind.toList.length < depth →
      stream.current = .symbol .openParen →
      Parser.Comes (Parser.rule (Parser.nested depth) 11) stream (.grouped expr) tokens →
        Parser.Comes (Parser.rule (Parser.nested depth) 0) stream result []) :
    parse ("(" ++ source ++ ")" ++ behind) = .ok result := by
  have spelled : ("(" ++ source ++ ")" ++ behind).toList =
      '(' :: (source.toList ++ ')' :: behind.toList) := by
    simp
  have begun := begins_openParen (source.toList ++ ')' :: behind.toList)
  obtain ⟨inFront, clean⟩ : (Stream.ofText ("(" ++ source ++ ")" ++ behind).toList).InFrontOf
      ('(' :: (source.toList ++ ')' :: behind.toList)) ∧
        (Stream.ofText ("(" ++ source ++ ")" ++ behind).toList).findings = [] := by
    rw [spelled]
    exact Stream.inFrontOf_readFrom begun.visible begun.reads []
  obtain ⟨isOpen, comes⟩ :=
    Parser.comes_parenthesized parsed lexed uncommented lexedBehind inFront
  have room : behind.toList.length <
      (Stream.ofText ("(" ++ source ++ ")" ++ behind).toList).remaining := by
    rw [Stream.remaining, inFront.place]
    simp only [List.length_cons, List.length_append]
    omega
  obtain ⟨after, run, atEnd⟩ := goesOn room isOpen comes
  exact parse_eq_ok_iff.mpr ⟨clean, after, run, atEnd⟩

end EventScript
