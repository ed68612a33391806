import EventScript.Proofs.Grammar.Soundness
import EventScript.Proofs.Lexing.Places

/-!
# Reading comes to an end

Every rule that returns an expression or a statement has passed at least one
character, and a statement that cannot be read is skipped with at least one
character unless it already ends at a brace or at the end.  So every loop of the
grammar goes on only behind the place where it was, also where an unquoted
argument goes back to the beginning of the current token and finds nothing.
-/

namespace EventScript.Parser

theorem consumes_expression : AlwaysConsumes expression where
  tame := tame_expression
  shorter := by
    intro stream after expr standing _ run _
    have below : stream.Below (stream.remaining + 1) := ⟨standing, Nat.lt_succ_self _⟩
    obtain ⟨taken, gives, isOperand, -⟩ := ensures_expression standing run
    obtain ⟨first, others, opens, -⟩ := isOperand.shaped.opens
    have spells := isOperand.spells
    rw [opens] at spells
    cases spells with
    | token =>
      obtain ⟨rfl, gives⟩ := gives
      have inside : stream.current ∈ expr.tokens := by
        rw [opens]
        exact List.mem_cons_self
      exact (gives.lasts (lasting_below _) (below.advance (Expr.ne_of_mem_tokens inside).2)).fits
    | raw =>
      obtain ⟨-, -, atMark, gives⟩ := gives
      have inside : stream.takeRaw.2.current ≠ .endOfInput := by
        rw [atMark]
        rintro ⟨⟩
      exact (gives.lasts (lasting_below _) (below.takeRaw.advance inside)).fits

/-! ## Statements -/

theorem consumes_expressionStatement : AlwaysConsumes expressionStatement := by
  apply Consumes.bind consumes_expression
  intro value
  apply tame_endStatement.bind
  intro _
  split
  · exact .pure _
  · exact .pure _

/-- The step of a sequence of statements inside braces. -/
def blockStep (statement : Parser Stmt) (read : List Stmt) : Parser (Option (List Stmt)) := do
  match ← current with
  | .symbol .closeBrace => return none
  | .endOfInput => return none
  | _ => recovering statement read

theorem block_eq (statement : Parser Stmt) :
    block statement = advance >>= fun _ => loop (blockStep statement) [] >>= fun statements => do
      match ← current with
      | .endOfInput => throw (.unterminated (← get).line .block)
      | _ =>
        advance
        return .block statements :=
  rfl

section Statements

variable {inner : Parser Stmt} (tame : Tame inner)

include tame

theorem tame_blockStep (read : List Stmt) : Tame (blockStep inner read) := by
  apply Tame.current_bind
  intro token
  split
  · exact .pure none
  · exact .pure none
  · exact tame.recovering read

theorem startsBehind_block : Tame.StartsBehind (block inner) := by
  refine ⟨_, block_eq inner, ?_⟩
  apply (Tame.loop (tame_blockStep tame) []).bind
  intro statements
  apply Tame.current_bind
  intro token
  split
  · exact .breakOff .block
  · exact Tame.advance.bind fun _ => .pure _

theorem startsBehind_branch : Tame.StartsBehind (branch inner) := by
  apply (startsBehind_condition _).bind
  intro test
  apply tame.bind
  intro whenTrue
  apply (Tame.accept _).bind
  rintro (_ | _)
  · exact .pure _
  · exact tame.bind fun _ => .pure _

theorem startsBehind_forLoop : Tame.StartsBehind (forLoop inner) :=
  ⟨_, rfl, (Tame.expect _ _).bind fun _ => (tame_optionalExpression _).bind fun _ =>
    (Tame.expect _ _).bind fun _ => (tame_optionalExpression _).bind fun _ =>
      (Tame.expect _ _).bind fun _ => (tame_optionalExpression _).bind fun _ =>
        (Tame.expect _ _).bind fun _ => tame.bind fun _ => .pure _⟩

theorem startsBehind_function : Tame.StartsBehind (function inner) := by
  refine ⟨_, rfl, ?_⟩
  apply Tame.current_bind
  intro token
  split
  · have body (spelling : String) : Tame (isAt (.symbol .openBrace) >>= fun found =>
        if found = true then return Stmt.function spelling (← block inner)
        else fail (.missing .functionBody)) := by
      apply Tame.isAt_bind
      rintro (_ | _)
      · exact .fail _
      · exact (startsBehind_block tame).tame.bind fun _ => .pure _
    apply Tame.advance.bind
    intro _
    apply (Tame.accept _).bind
    rintro (_ | _)
    · exact body _
    · exact (Tame.expect _ _).bind fun _ => body _
  · exact .fail _

/-- Every statement but an expression begins with a token of its own. -/
theorem consumes_statementAround : AlwaysConsumes (statementAround inner) := by
  have ended (value : Stmt) : Tame (endStatement >>= fun _ => pure value) :=
    tame_endStatement.bind fun _ => .pure value
  apply Consumes.current_bind
  intro token
  split
  · exact .of_startsBehind (by rintro ⟨⟩) (startsBehind_branch tame)
  · exact .of_startsBehind (by rintro ⟨⟩)
      ((startsBehind_condition _).bind fun _ => tame.bind fun _ => .pure _)
  · exact .of_startsBehind (by rintro ⟨⟩) (startsBehind_forLoop tame)
  · exact .of_startsBehind (by rintro ⟨⟩) (startsBehind_function tame)
  · exact .of_startsBehind (by rintro ⟨⟩) startsBehind_giveBack
  · exact .of_startsBehind (by rintro ⟨⟩) (startsBehind_block tame)
  · exact .advance_bind (by rintro ⟨⟩) (ended _)
  · exact .advance_bind (by rintro ⟨⟩) (ended _)
  · exact .advance_bind (by rintro ⟨⟩) (.pure _)
  · apply Consumes.get_bind
    intro stream
    split
    · exact .of_startsBehind (by rintro ⟨⟩) (startsBehind_command _)
    · exact .of_always consumes_expressionStatement
  · exact .of_always consumes_expressionStatement

end Statements

theorem tame_statementUpTo (depth : Nat) : Tame (statementUpTo depth) :=
  (agree_statementUpTo (Nat.zero_le depth) (Nat.zero_le 0) refuse).tame

theorem consumes_statementUpTo (depth : Nat) : AlwaysConsumes (statementUpTo depth) := by
  cases depth with
  | zero => exact .refuse
  | succ depth => exact consumes_statementAround (tame_statementUpTo depth)

theorem consumes_statement : AlwaysConsumes statement :=
  .get_bind fun _ => consumes_statementUpTo _

/-! ## Recovery -/

/-- The step of skipping a statement. -/
def skipStep (_ : Unit) : Parser (Option Unit) := do
  match ← current with
  | .symbol .semicolon =>
    advance
    return none
  | .symbol .closeBrace => return none
  | .endOfInput => return none
  | _ =>
    advance
    return some ()

theorem skipStatement_eq : skipStatement = loop skipStep () :=
  rfl

theorem advances_skipStep : Advances skipStep := by
  intro _
  apply Consumes.current_bind
  intro token
  split
  · exact .advance_bind (by rintro ⟨⟩) (.pure none)
  · exact .pure (by rintro ⟨⟩)
  · exact .pure (by rintro ⟨⟩)
  · rename_i inside
    exact .advance_bind inside (.pure _)

/-- In front of a brace and at the end nothing is skipped; elsewhere something
is. -/
theorem consumes_skipStatement :
    Consumes (fun stream => stream.current ≠ .symbol .closeBrace ∧ stream.current ≠ .endOfInput)
      skipStatement fun _ => True := by
  rw [skipStatement_eq, loop]
  apply Consumes.bind
  · apply Consumes.current_bind
    intro token
    split
    · exact .advance_bind (by rintro ⟨⟩) (.pure none)
    · refine ⟨.pure none, ?_⟩
      rintro _ _ _ _ ⟨⟨noBrace, -⟩, isBrace⟩
      exact absurd isBrace noBrace
    · refine ⟨.pure none, ?_⟩
      rintro _ _ _ _ ⟨⟨-, noEnd⟩, isEnd⟩
      exact absurd isEnd noEnd
    · rename_i inside
      exact .advance_bind inside (.pure _)
  · rintro (_ | _)
    · exact .pure ()
    · exact .get_bind fun _ => .repeatUpTo (fun value => (advances_skipStep value).tame) _ _

/-- A statement that fails without taking a character leaves the stream at the
same token. -/
theorem current_eq_of_remaining_eq {α : Type} {parser : Parser α} {stream after : Stream}
    {outcome : Except ScriptError α} (tame : Tame parser)
    (run : parser.runOn stream = (outcome, after)) (standing : stream.Standing)
    (same : after.remaining = stream.remaining) : after.current = stream.current := by
  obtain ⟨standingAfter, suffix⟩ := tame.kept (lasting_suffix stream.start.rest) run
    ⟨standing, List.suffix_refl _⟩
  have samePlace : after.start.rest = stream.start.rest := suffix.eq_of_length same
  have reads := standingAfter.reads
  rw [samePlace, standing.reads] at reads
  exact (Except.ok.inj (Prod.mk.inj reads).1).symm

/-- A statement is read or skipped with at least one character, unless there is
nothing but a brace or the end. -/
theorem consumes_recovering {statement : Parser Stmt} (consumes : AlwaysConsumes statement)
    {counts : Option (List Stmt) → Prop} (read : List Stmt) :
    Consumes (fun stream => stream.current ≠ .symbol .closeBrace ∧ stream.current ≠ .endOfInput)
      (recovering statement read) counts where
  tame := consumes.tame.recovering read
  shorter := by
    intro stream after result standing inside run _
    rw [recovering_eq, runOn_bind, runOn_attempt] at run
    cases ran : statement.runOn stream with
    | mk outcome middle =>
      rw [ran] at run
      cases outcome with
      | ok value =>
        cases run
        exact consumes.shorter standing trivial ran trivial
      | error error =>
        have skips : (skipStatement >>= fun _ => pure (some read)).runOn
            (middle.report error.finding) = (.ok result, after) := run
        obtain ⟨standingMiddle, fewer⟩ := consumes.tame.remaining_le ran standing
        have standingReport : (middle.report error.finding).Standing :=
          ⟨standingMiddle.visible, standingMiddle.reads⟩
        by_cases same : middle.remaining = stream.remaining
        · -- nothing was read, so the statement begins with a token to skip
          have skipping : Consumes
              (fun stream => stream.current ≠ .symbol .closeBrace ∧
                stream.current ≠ .endOfInput)
              (skipStatement >>= fun _ => pure (some read)) fun _ => True :=
            consumes_skipStatement.bind fun _ => .pure _
          have insideMiddle := inside
          rw [← current_eq_of_remaining_eq consumes.tame ran standing same] at insideMiddle
          have shorter := skipping.shorter standingReport insideMiddle skips trivial
          exact same ▸ shorter
        · have skipped := ((tame_skipStatement.bind fun _ => .pure _).remaining_le skips
            standingReport).2
          have reported : (middle.report error.finding).remaining = middle.remaining := rfl
          omega

theorem advances_blockStep {statement : Parser Stmt} (consumes : AlwaysConsumes statement) :
    Advances (blockStep statement) := by
  intro read
  apply Consumes.current_bind
  intro token
  split
  · exact .pure (by rintro ⟨⟩)
  · exact .pure (by rintro ⟨⟩)
  · rename_i noBrace noEnd
    refine (consumes_recovering consumes read).narrow ?_
    rintro stream ⟨-, rfl⟩
    exact ⟨noBrace, noEnd⟩

/-- The step of a whole script. -/
def scriptStep (read : List Stmt) : Parser (Option (List Stmt)) := do
  match ← current with
  | .endOfInput => return none
  | .symbol .closeBrace =>
    report (.invalid (← get).line .strayBrace)
    advance
    return some read
  | _ => recovering statement read

theorem script_eq : script = loop scriptStep [] :=
  rfl

theorem advances_scriptStep : Advances scriptStep := by
  intro read
  apply Consumes.current_bind
  intro token
  split
  · exact .pure (by rintro ⟨⟩)
  · refine ⟨.report_bind .strayBrace (Tame.advance.bind fun _ => .pure _), ?_⟩
    rintro stream after outcome standing ⟨-, atBrace⟩ run counted
    have reported : (stream.report ⟨stream.line, .strayBrace⟩).Standing :=
      ⟨standing.visible, standing.reads⟩
    have brace : Consumes (fun stream => True ∧ stream.current = .symbol .closeBrace)
        (advance >>= fun _ => pure (some read)) fun _ => True :=
      .advance_bind (by rintro ⟨⟩) (.pure _)
    have shorter := brace.shorter reported ⟨trivial, atBrace⟩ run trivial
    exact shorter
  · rename_i noEnd noBrace
    refine (consumes_recovering consumes_statement read).narrow ?_
    rintro stream ⟨-, rfl⟩
    exact ⟨noBrace, noEnd⟩

/-- A statement that cannot be read does not stop the others. -/
theorem returns_recovering (statement : Parser Stmt) (read : List Stmt) :
    Returns (recovering statement read) := by
  have skips : Returns skipStatement := by
    refine .loop (fun _ => .current_bind fun token => ?_) ()
    split
    · exact Returns.advance.bind fun _ => .pure _
    · exact .pure _
    · exact .pure _
    · exact Returns.advance.bind fun _ => .pure _
  apply (Returns.attempt statement).bind
  rintro (error | value)
  · exact (Returns.report error).bind fun _ => skips.bind fun _ => .pure _
  · exact .pure _

theorem returns_script : Returns script := by
  refine .loop (fun read => .current_bind fun token => ?_) []
  split
  · exact .pure _
  · exact .get_bind fun _ => (Returns.report _).bind fun _ => Returns.advance.bind fun _ => .pure _
  · exact returns_recovering statement read

/-! ## Reading a source -/

theorem lasting_reached (source : List Char) : Lasting (Stream.Reached source) where
  advance stream reached := Stream.reached_readFrom reached.next stream.findings
  takeRaw _ reached := reached.takeRaw
  report _ _ _ reached :=
    ⟨⟨reached.standing.visible, reached.standing.reads⟩, reached.start, reached.next⟩

/-- A loop on the tokens of a source comes to its end: every step behind which it
goes on leads from one token of the source to one that begins further on, and so
the loop without a bound has an outcome, which is that of the loop. -/
structure Finishes {α : Type} (source : List Char) (step : α → Parser (Option α)) : Prop where
  goesOn : ∀ {value next : α} {stream after : Stream}, stream.Reached source →
    (step value).runOn stream = (.ok (some next), after) →
      after.Reached source ∧ stream.start.offset < after.start.offset
  ends : ∀ {value : α} {stream : Stream}, stream.Reached source →
    ∃ outcome after, Iterates step value stream outcome after ∧
      (loop step value).runOn stream = (outcome, after)

theorem Advances.finishes {α : Type} {step : α → Parser (Option α)} (advances : Advances step)
    (source : List Char) : Finishes source step where
  goesOn {value next stream after} reached run := by
    have later := (advances value).tame.kept (lasting_reached source) run reached
    have shorter := (advances value).shorter reached.standing trivial run rfl
    exact ⟨later, reached.start.offset_lt later.start shorter⟩
  ends {value stream} reached := ⟨_, _, iterates_loop advances reached.standing value, rfl⟩

/-- The script that is read is what the steps over its statements lead to. -/
theorem iterates_scriptStep (source : String) :
    ∃ after, Iterates scriptStep [] (.ofText source.toList)
      (.ok (Script.parse source).script) after ∧ (Script.parse source).findings = after.findings := by
  have standing := (Stream.reached_ofText source.toList).standing
  obtain ⟨statements, after, run⟩ := returns_script (.ofText source.toList)
  have iterates := iterates_loop advances_scriptStep standing []
  rw [← script_eq, run] at iterates
  have parsed : Script.parse source = ⟨statements, after.findings⟩ := by rw [Script.parse, run]
  rw [parsed]
  exact ⟨after, iterates, rfl⟩

/-- Reading a source comes to its end, whatever the source holds.  The loops over
statements, over the tokens to skip and over the parts of an expression finish on
every token of the source; nested statements and expressions need no more levels
than there are characters left, so it does not matter what is done below; and
the errors between two tokens are no more than the characters between them. -/
theorem reading_finishes (source : String) :
    (Stream.ofText source.toList).Reached source.toList ∧
    (∃ after, Iterates scriptStep [] (.ofText source.toList)
      (.ok (Script.parse source).script) after ∧
        (Script.parse source).findings = after.findings) ∧
    (Finishes source.toList scriptStep ∧
      (∀ depth, Finishes source.toList (blockStep (statementUpTo depth))) ∧
      Finishes source.toList skipStep) ∧
    ((∀ depth, Finishes source.toList (suffix (nested depth))) ∧
      (∀ strength right, (∀ op, Tame (right op)) →
        Finishes source.toList (chainStep strength right)) ∧
      ∀ item, (∀ read, Tame (item read)) → Finishes source.toList (itemStep item)) ∧
    (∀ stream : Stream, stream.Reached source.toList → ∀ depth, stream.remaining < depth →
      (∀ bottom, (statementAround^[depth] bottom).runOn stream = statement.runOn stream) ∧
      ∀ bottom, (around^[depth] bottom).expression.runOn stream = expression.runOn stream) ∧
    ∀ (cursor : Cursor) (findings : List Finding) (bound : Nat), cursor.rest.length < bound →
      Stream.seek bound cursor findings = .readFrom cursor findings := by
  refine ⟨Stream.reached_ofText _, iterates_scriptStep source, ⟨?_, ?_, ?_⟩, ⟨?_, ?_, ?_⟩, ?_, ?_⟩
  · exact advances_scriptStep.finishes _
  · exact fun depth => (advances_blockStep (consumes_statementUpTo depth)).finishes _
  · exact advances_skipStep.finishes _
  · exact fun depth => (advances_suffix (agree_nested_nested (Nat.zero_le depth) (Nat.zero_le 0))).finishes _
  · exact fun strength right tame => (advances_chainStep strength tame).finishes _
  · exact fun item tame => (advances_itemStep tame).finishes _
  · exact fun stream reached depth enough => ⟨runOn_statementAround reached.standing enough,
      runOn_around_expression reached.standing enough⟩
  · exact fun cursor findings bound enough => Stream.seek_eq_readFrom enough findings

end EventScript.Parser
