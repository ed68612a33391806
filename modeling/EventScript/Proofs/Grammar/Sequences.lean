import EventScript.Proofs.Grammar.Termination

/-!
# Sequences of statements

Where nothing is found wrong, a loop over statements reads one statement behind
the other up to the token that closes the sequence.  So a script without findings
is the sequence of its statements, and a sequence of statements is the script.
-/

namespace EventScript.Parser

variable {closing : Token → Prop} {values : List Stmt}

/-- Statements one behind the other, from a stream up to a token that closes the
sequence. -/
inductive Sequence (statement : Parser Stmt) (closing : Token → Prop) :
    Stream → List Stmt → Stream → Prop
  | done {stream : Stream} (closed : closing stream.current) :
      Sequence statement closing stream [] stream
  | next {stream middle after : Stream} {value : Stmt} {values : List Stmt}
      (inside : stream.current ≠ .symbol .closeBrace ∧ stream.current ≠ .endOfInput)
      (run : statement.runOn stream = (.ok value, middle))
      (others : Sequence statement closing middle values after) :
      Sequence statement closing stream (value :: values) after

/-- Scripts are closed by the end of the input. -/
def closesScript (token : Token) : Prop :=
  token = .endOfInput

/-- Blocks are closed by a brace; the end of the input breaks them off. -/
def closesBlock (token : Token) : Prop :=
  token = .symbol .closeBrace ∨ token = .endOfInput

variable {statement : Parser Stmt} {stream middle after : Stream}

theorem Sequence.findings_grow (sequence : Sequence statement closing stream values after)
    (tame : Tame statement) : stream.findings <+: after.findings := by
  induction sequence with
  | done => exact List.prefix_refl _
  | next _ run _ ih => exact (tame.findings_grow run).trans ih

theorem Sequence.inside {closing : Token → Prop} {values : List Stmt}
    (sequence : Sequence statement closing stream values after) (nonempty : values ≠ []) :
    stream.current ≠ .symbol .closeBrace ∧ stream.current ≠ .endOfInput := by
  cases sequence with
  | done => exact absurd rfl nonempty
  | next inside _ _ => exact inside

/-- A sequence goes on behind statements that were read. -/
theorem Sequence.append {front back : List Stmt}
    (sequence : Sequence statement (fun _ => True) stream front middle)
    (others : Sequence statement closing middle back after) :
    Sequence statement closing stream (front ++ back) after := by
  induction sequence with
  | done => exact others
  | next inside run _ ih => exact .next inside run (ih others)

/-- A sequence reads the statements that can be read, and no more. -/
theorem Sequence.exists_append {front : List Stmt}
    (sequence : Sequence statement (fun _ => True) stream front middle)
    (whole : Sequence statement closing stream values after)
    (stays : ∀ token, closing token → token = .symbol .closeBrace ∨ token = .endOfInput) :
    ∃ back, Sequence statement closing middle back after := by
  induction sequence generalizing values with
  | done => exact ⟨values, whole⟩
  | next inside run _ ih =>
    cases whole with
    | done closed =>
      rcases stays _ closed with atBrace | atEnd
      · exact absurd atBrace inside.1
      · exact absurd atEnd inside.2
    | next _ otherRun others =>
      cases run.symm.trans otherRun
      exact ih others

/-! ## Steps -/

/-- A statement that is read adds itself to the sequence. -/
theorem runOn_recovering {value : Stmt} (run : statement.runOn stream = (.ok value, middle))
    (read : List Stmt) :
    (recovering statement read).runOn stream = (.ok (some (read ++ [value])), middle) := by
  rw [recovering_eq, runOn_bind, runOn_attempt, run]
  rfl

/-- Without findings nothing was skipped. -/
theorem exists_runOn_of_recovering (tame : Tame statement) {read : List Stmt}
    {outcome : Option (List Stmt)}
    (run : (recovering statement read).runOn stream = (.ok outcome, after))
    (clean : after.findings = stream.findings) :
    ∃ value, statement.runOn stream = (.ok value, after) ∧ outcome = some (read ++ [value]) := by
  rw [recovering_eq, runOn_bind, runOn_attempt] at run
  cases ran : statement.runOn stream with
  | mk result middle =>
    rw [ran] at run
    cases result with
    | ok value =>
      cases run
      exact ⟨value, rfl, rfl⟩
    | error error =>
      exfalso
      have skips : (skipStatement >>= fun _ => pure (some read)).runOn
          (middle.report error.finding) = (.ok outcome, after) := run
      have before := (tame.findings_grow ran).length_le
      have behind :=
        ((tame_skipStatement.bind fun _ => .pure _).findings_grow skips).length_le
      rw [clean, Stream.report, List.length_append, List.length_singleton] at behind
      omega

/-- What a loop over statements does in one step: it stops at a token that closes
the sequence, or it reads a statement elsewhere. -/
structure StepsOver (statement : Parser Stmt) (closing : Token → Prop)
    (step : List Stmt → Parser (Option (List Stmt))) : Prop where
  stops : ∀ {stream : Stream} {read : List Stmt}, closing stream.current →
    (step read).runOn stream = (.ok none, stream)
  reads : ∀ {stream : Stream} {read : List Stmt}, stream.current ≠ .symbol .closeBrace →
    stream.current ≠ .endOfInput → (step read).runOn stream = (recovering statement read).runOn stream
  closes : ∀ {stream after : Stream} {read : List Stmt} {outcome : Option (List Stmt)},
    stream.current = .symbol .closeBrace ∨ stream.current = .endOfInput →
      (step read).runOn stream = (.ok outcome, after) → after.findings = stream.findings →
        closing stream.current

theorem stepsOver_scriptStep : StepsOver Parser.statement closesScript scriptStep where
  stops {stream read} closed := by
    rw [scriptStep, runOn_bind, runOn_current, closed]
    rfl
  reads {stream read} noBrace noEnd := by
    rw [scriptStep, runOn_bind, runOn_current]
    dsimp only
    split
    · exact absurd ‹_› noEnd
    · exact absurd ‹_› noBrace
    · rfl
  closes {stream after read outcome} atClosing run clean := by
    rcases atClosing with atBrace | atEnd
    · exfalso
      rw [scriptStep, runOn_bind, runOn_current, atBrace] at run
      have behind : (advance >>= fun _ => pure (some read)).runOn
          (stream.report ⟨stream.line, .strayBrace⟩) = (.ok outcome, after) := run
      have more := ((Tame.advance.bind fun _ => .pure _).findings_grow behind).length_le
      rw [clean, Stream.report, List.length_append, List.length_singleton] at more
      omega
    · exact atEnd

theorem stepsOver_blockStep (statement : Parser Stmt) :
    StepsOver statement closesBlock (blockStep statement) where
  stops {stream read} closed := by
    rcases closed with closed | closed
    all_goals
      rw [blockStep, runOn_bind, runOn_current, closed]
      rfl
  reads {stream read} noBrace noEnd := by
    rw [blockStep, runOn_bind, runOn_current]
    dsimp only
    split
    · exact absurd ‹_› noBrace
    · exact absurd ‹_› noEnd
    · rfl
  closes atClosing _ _ := atClosing

/-! ## Loops -/

section Loops

variable {closing : Token → Prop} {step : List Stmt → Parser (Option (List Stmt))}

/-- A loop over statements without findings has read a sequence. -/
theorem StepsOver.sequence (steps : StepsOver statement closing step) (tame : Tame statement)
    (advances : Advances step) {read result : List Stmt}
    (iterates : Iterates step read stream (.ok result) after)
    (clean : after.findings = stream.findings) :
    ∃ values, result = read ++ values ∧ Sequence statement closing stream values after := by
  generalize isOutcome : Except.ok result = outcome at iterates
  induction iterates with
  | fails => cases isOutcome
  | @stops value stream after run =>
    cases isOutcome
    have atClosing : stream.current = .symbol .closeBrace ∨ stream.current = .endOfInput := by
      by_contra inside
      rw [not_or] at inside
      rw [steps.reads inside.1 inside.2] at run
      obtain ⟨_, _, impossible⟩ := exists_runOn_of_recovering tame run clean
      cases impossible
    have closed := steps.closes atClosing run clean
    rw [steps.stops closed] at run
    cases run
    exact ⟨[], (List.append_nil _).symm, .done closed⟩
  | @goesOn value next stream middle after outcome run others ih =>
    subst isOutcome
    have before := (advances value).tame.findings_grow run
    obtain ⟨cleanStep, cleanOthers⟩ :=
      findings_eq_of_between before (others.findings_grow fun value => (advances value).tame) clean
    have inside : stream.current ≠ .symbol .closeBrace ∧ stream.current ≠ .endOfInput := by
      rw [← not_or]
      intro atClosing
      rw [steps.stops (steps.closes atClosing run cleanStep)] at run
      cases run
    rw [steps.reads inside.1 inside.2] at run
    obtain ⟨statementValue, ran, isNext⟩ := exists_runOn_of_recovering tame run cleanStep
    cases isNext
    obtain ⟨values, rfl, sequence⟩ := ih cleanOthers rfl
    exact ⟨statementValue :: values, by simp, .next inside ran sequence⟩

theorem Sequence.iterates (sequence : Sequence statement closing stream values after)
    (steps : StepsOver statement closing step) (read : List Stmt) :
    Iterates step read stream (.ok (read ++ values)) after := by
  induction sequence generalizing read with
  | done closed =>
    rw [List.append_nil]
    exact .stops (steps.stops closed)
  | @next stream middle after value values inside run others ih =>
    have continued := ih (read ++ [value])
    rw [List.append_assoc] at continued
    refine .goesOn ?_ continued
    rw [steps.reads inside.1 inside.2]
    exact runOn_recovering run read

end Loops

end EventScript.Parser

namespace EventScript.Script

open EventScript.Parser

/-- The statements of a script without findings were read one behind the other. -/
theorem exists_sequence_of_parse {source : String} {statements : List Stmt}
    (parsed : Script.parse source = ⟨statements, []⟩) :
    ∃ after : Stream, after.findings = [] ∧ (Stream.ofText source.toList).findings = [] ∧
      Sequence statement closesScript (.ofText source.toList) statements after := by
  obtain ⟨after, iterates, clean⟩ := iterates_scriptStep source
  rw [parsed] at iterates clean
  have cleanStart : (Stream.ofText source.toList).findings = [] := by
    have before := iterates.findings_grow fun value => (advances_scriptStep value).tame
    rw [← clean] at before
    exact List.prefix_nil.mp before
  obtain ⟨values, isScript, sequence⟩ := stepsOver_scriptStep.sequence tame_statement
    advances_scriptStep iterates (clean.symm.trans cleanStart.symm)
  rw [List.nil_append] at isScript
  subst isScript
  exact ⟨after, clean.symm, cleanStart, sequence⟩

/-- Statements one behind the other up to the end of the input are the script. -/
theorem parse_of_sequence {source : String} {statements : List Stmt} {after : Stream}
    (sequence : Sequence statement closesScript (.ofText source.toList) statements after) :
    Script.parse source = ⟨statements, after.findings⟩ := by
  have run := (sequence.iterates stepsOver_scriptStep []).runOn_loop advances_scriptStep
    (Stream.standing_ofText _)
  rw [List.nil_append, ← script_eq] at run
  rw [Script.parse, run]

end EventScript.Script
