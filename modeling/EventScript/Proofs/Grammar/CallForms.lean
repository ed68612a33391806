import EventScript.Proofs.Grammar.Sequences
import EventScript.Proofs.Grammar.Terminators

/-!
# Commands and calls

A command can be written with its arguments behind a blank or between
parentheses.  The second form is read as an expression that turns out to be a
call: whatever else an expression can be, its rules make something different of
the call.  The arguments are read by the same rule in both forms, in front of
different marks.
-/

namespace EventScript

namespace Parser

variable {stream after middle : Stream} {name : String} {read : List Expr} {argument : List Char}

/-! ## Expressions that are calls -/

/-- Every value that a parser returns has a property. -/
def Yields {α : Type} (parser : Parser α) (property : α → Prop) : Prop :=
  ∀ ⦃stream after : Stream⦄ ⦃value : α⦄, parser.runOn stream = (.ok value, after) → property value

namespace Yields

variable {α β : Type} {property : β → Prop}

theorem pure {value : β} (holds : property value) : Yields (Pure.pure value) property := by
  rintro _ _ _ ⟨⟩
  exact holds

theorem fail (fault : Fault) : Yields (Parser.fail fault) property := by
  rintro _ _ _ ⟨⟩

theorem bind {first : Parser α} {second : α → Parser β}
    (yields : ∀ value, Yields (second value) property) : Yields (first >>= second) property := by
  intro stream after result run
  obtain ⟨value, middle, -, run⟩ := exists_of_runOn_bind run
  exact yields value run

end Yields

/-- An expression other than a call. -/
def NoCall (value : Expr) : Prop :=
  ∀ name arguments, value ≠ .call name arguments

/-- The outcome of a step that goes on with an expression other than a call. -/
def GoesOnWithout (outcome : Option Expr) : Prop :=
  ∃ value, outcome = some value ∧ NoCall value

/-- Behind an expression a parser returns a call only if the expression is one and
nothing was read. -/
def LeavesCalls (value : Expr) (parser : Parser Expr) : Prop :=
  ∀ ⦃stream after : Stream⦄ ⦃name : String⦄ ⦃arguments : List Expr⦄,
    parser.runOn stream = (.ok (.call name arguments), after) →
      value = .call name arguments ∧ after = stream

namespace LeavesCalls

variable {value : Expr}

theorem pure : LeavesCalls value (Pure.pure value) := by
  rintro _ _ _ _ ⟨⟩
  exact ⟨rfl, rfl⟩

theorem of_yields {parser : Parser Expr} (yields : Yields parser NoCall) :
    LeavesCalls value parser := by
  intro stream after name arguments run
  exact absurd rfl (yields run name arguments)

theorem current_bind {second : Token → Parser Expr}
    (leaves : ∀ token, LeavesCalls value (second token)) :
    LeavesCalls value (current >>= second) :=
  fun stream _ _ _ run => leaves stream.current run

/-- A loop of which every step makes something other than a call. -/
theorem loop {step : Expr → Parser (Option Expr)}
    (steps : ∀ value stream outcome after, (step value).runOn stream = (.ok outcome, after) →
      outcome = none ∧ after = stream ∨ GoesOnWithout outcome) :
    LeavesCalls value (Parser.loop step value) := by
  have repeated (bound : Nat) {value : Expr} (noCall : NoCall value) :
      Yields (repeatUpTo step bound value) NoCall := by
    induction bound generalizing value with
    | zero => exact .pure noCall
    | succ bound ih =>
      intro stream after result run
      obtain ⟨outcome, middle, ran, run⟩ := exists_of_runOn_bind run
      rcases steps value stream outcome middle ran with ⟨rfl, -⟩ | ⟨next, rfl, nextNoCall⟩
      · cases run
        exact noCall
      · exact ih nextNoCall run
  intro stream after name arguments run
  obtain ⟨outcome, middle, ran, others⟩ := exists_of_runOn_bind run
  rcases steps value stream outcome middle ran with ⟨rfl, rfl⟩ | ⟨next, rfl, noCall⟩
  · cases others
    exact ⟨rfl, rfl⟩
  · exact absurd rfl (repeated _ noCall others name arguments)

end LeavesCalls

/-- A call that a parser returns is what a part of it returns. -/
def PassesCalls (parser part : Parser Expr) : Prop :=
  ∀ ⦃stream after : Stream⦄ ⦃name : String⦄ ⦃arguments : List Expr⦄,
    parser.runOn stream = (.ok (.call name arguments), after) →
      part.runOn stream = (.ok (.call name arguments), after)

theorem PassesCalls.of_leaves {part : Parser Expr} {second : Expr → Parser Expr}
    (leaves : ∀ value, LeavesCalls value (second value)) : PassesCalls (part >>= second) part := by
  intro stream after name arguments run
  obtain ⟨value, middle, ran, run⟩ := exists_of_runOn_bind run
  obtain ⟨rfl, rfl⟩ := leaves value run
  exact ran

theorem passesCalls_chain (strength : Nat) (operand : Parser Expr)
    (right : BinaryOp → Parser Expr) : PassesCalls (chain strength operand right) operand := by
  rw [chain_eq]
  refine .of_leaves fun value => .loop fun left stream outcome after run => ?_
  rw [chainStep, runOn_bind, runOn_current] at run
  dsimp only at run
  split at run
  · rename_i op _
    have joined : Yields (advance >>= fun _ => right op >>= fun value =>
        pure (some (Expr.binary op left value))) GoesOnWithout :=
      .bind fun _ => .bind fun _ => .pure ⟨_, rfl, by rintro _ _ ⟨⟩⟩
    exact Or.inr (joined run)
  · cases run
    exact Or.inl ⟨rfl, rfl⟩

theorem noCall_withMember (target segment : Expr) : NoCall (target.withMember segment) := by
  intro name arguments
  unfold Expr.withMember
  split <;> rintro ⟨⟩

theorem noCall_indexedBy (target : Expr) (indices : List Expr) :
    NoCall (target.indexedBy indices) := by
  intro name arguments
  unfold Expr.indexedBy
  split
  · split <;> rintro ⟨⟩
  · rintro ⟨⟩

section Rules

variable (inner : Nested)

theorem passesCalls_suffixed : PassesCalls (suffixed inner) (primary inner) := by
  refine .of_leaves fun value => .loop fun target stream outcome after run => ?_
  rw [suffix, runOn_bind, runOn_current] at run
  dsimp only at run
  split at run
  · have indexed : Yields (advance >>= fun _ =>
        expressions inner.expression (.symbol .closeBracket) >>= fun indices =>
          expect (.symbol .closeBracket) .closeIndex >>= fun _ =>
            pure (some (target.indexedBy indices))) GoesOnWithout :=
      .bind fun _ => .bind fun _ => .bind fun _ => .pure ⟨_, rfl, noCall_indexedBy _ _⟩
    exact Or.inr (indexed run)
  · suffices selected : Yields _ GoesOnWithout from Or.inr (selected run)
    refine .bind fun _ => .bind fun token => ?_
    split
    · exact .bind fun _ => .pure ⟨_, rfl, noCall_withMember _ _⟩
    · exact .fail _
  · have stepped : Yields (advance >>= fun _ => pure (some (Expr.unary .postIncrement target)))
        GoesOnWithout :=
      .bind fun _ => .pure ⟨_, rfl, by rintro _ _ ⟨⟩⟩
    exact Or.inr (stepped run)
  · have stepped : Yields (advance >>= fun _ => pure (some (Expr.unary .postDecrement target)))
        GoesOnWithout :=
      .bind fun _ => .pure ⟨_, rfl, by rintro _ _ ⟨⟩⟩
    exact Or.inr (stepped run)
  · cases run
    exact Or.inl ⟨rfl, rfl⟩

theorem passesCalls_unary : PassesCalls (unary inner) (suffixed inner) := by
  intro stream after name arguments run
  rw [unary, runOn_bind, runOn_current] at run
  dsimp only at run
  split at run
  · rename_i op _
    have negated : Yields (advance >>= fun _ => inner.unary >>= fun value =>
        pure (Expr.unary op value)) NoCall :=
      .bind fun _ => .bind fun _ => .pure (by rintro _ _ ⟨⟩)
    exact absurd rfl (negated run name arguments)
  · exact run

theorem passesCalls_disjunction : PassesCalls (disjunction inner) (unary inner) := by
  intro stream after name arguments run
  have conjunction := passesCalls_chain _ _ _ run
  have equality := passesCalls_chain _ _ _ conjunction
  have comparison := passesCalls_chain _ _ _ equality
  have sum := passesCalls_chain _ _ _ comparison
  have product := passesCalls_chain _ _ _ sum
  have power := passesCalls_chain _ _ _ product
  exact passesCalls_chain _ _ _ power

theorem passesCalls_conditional : PassesCalls (conditional inner) (disjunction inner) := by
  refine .of_leaves fun condition => ?_
  rw [accept_bind_eq]
  refine .current_bind fun token => ?_
  split
  · exact .of_yields (.bind fun _ => .bind fun _ => .bind fun _ => .bind fun _ =>
      .pure (by rintro _ _ ⟨⟩))
  · exact .pure

theorem passesCalls_assignment : PassesCalls (assignment inner) (conditional inner) := by
  refine .of_leaves fun target => .current_bind fun token => ?_
  split
  · exact .of_yields (.bind fun _ => .bind fun _ => .pure (by rintro _ _ ⟨⟩))
  · exact .pure

end Rules

/-- An expression that begins with a name and is a call has read the arguments
behind the name, and nothing else. -/
theorem callArguments_of_expression (standing : stream.Standing) {spelling : String}
    (atName : stream.current = .name spelling)
    (run : expression.runOn stream = (.ok (.call name read), after)) :
    name = spelling ∧
      (callArguments expression spelling).runOn stream.advance = (.ok read, after) := by
  rw [runOn_expression standing] at run
  have operand := passesCalls_unary _ (passesCalls_disjunction _
    (passesCalls_conditional _ (passesCalls_assignment _ run)))
  have first := passesCalls_suffixed _ operand
  rw [primary, runOn_bind, runOn_current, atName] at first
  change (nameOrCall expression spelling).runOn stream = _ at first
  rw [nameOrCall, runOn_bind, runOn_advance] at first
  change (isAt (.symbol .openParen) >>= _).runOn stream.advance = _ at first
  rw [runOn_bind, runOn_isAt] at first
  dsimp only at first
  split at first
  · obtain ⟨value, middle, ran, first⟩ := exists_of_runOn_bind first
    cases first
    exact ⟨rfl, ran⟩
  · cases first

/-! ## Statements that are calls -/

/-- The token behind a name decides how the statement is read. -/
theorem runOn_statement_of_name (standing : stream.Standing) (atName : stream.current = .name name) :
    statement.runOn stream =
      (if startsCommand stream.following = true then command name else expressionStatement).runOn
        stream := by
  rw [runOn_statement standing, statementAround, runOn_bind, runOn_current, atName]
  rfl

/-- A statement that begins with a name and a parenthesis and is a command has
read a call and its own end. -/
theorem call_of_statement (standing : stream.Standing) {spelling : String}
    (atName : stream.current = .name spelling) (called : stream.following = .symbol .openParen)
    (run : statement.runOn stream = (.ok (.command name read), after)) :
    name = spelling ∧ ∃ behind,
      (callArguments expression spelling).runOn stream.advance = (.ok read, behind) ∧
        endStatement.runOn behind = (.ok (), after) := by
  have isExpression : statement.runOn stream = expressionStatement.runOn stream := by
    rw [runOn_statement_of_name standing atName, called]
    rfl
  rw [isExpression] at run
  obtain ⟨value, behind, ran, run⟩ := exists_of_runOn_bind run
  obtain ⟨_, last, ended, run⟩ := exists_of_runOn_bind run
  cases value with
  | call =>
    cases run
    obtain ⟨same, ranArguments⟩ := callArguments_of_expression standing atName ran
    exact ⟨same, behind, ranArguments, ended⟩
  | _ => cases run

/-- A call with arguments has read them and the parenthesis that closes them. -/
theorem arguments_of_call {behind : Stream} (given : stream.advance.current ≠ .symbol .closeParen)
    (run : (callArguments expression name).runOn stream = (.ok read, behind)) :
    ∃ middle, (arguments expression name).runOn stream.advance = (.ok read, middle) ∧
      middle.current = .symbol .closeParen ∧ behind = middle.advance := by
  rw [callArguments, runOn_bind, runOn_advance] at run
  dsimp only at run
  rw [runOn_bind, runOn_isAt, beq_eq_false_iff_ne.mpr given] at run
  change (arguments expression name >>= fun read =>
    expect (.symbol .closeParen) .closeArguments >>= fun _ => pure read).runOn stream.advance = _
    at run
  obtain ⟨value, middle, ran, run⟩ := exists_of_runOn_bind run
  rw [runOn_bind, runOn_expect] at run
  by_cases closed : middle.current = .symbol .closeParen
  · rw [if_pos closed] at run
    cases run
    exact ⟨middle, ran, closed, rfl⟩
  · rw [if_neg closed] at run
    cases run

theorem startsBehind_callArguments (name : String) :
    Tame.StartsBehind (callArguments expression name) := by
  refine ⟨_, rfl, .isAt_bind _ ?_⟩
  rintro (_ | _)
  · exact (tame_arguments name).bind fun _ => (Tame.expect _ _).bind fun _ => .pure _
  · exact (Tame.pure []).bind fun _ => (Tame.expect _ _).bind fun _ => .pure _

/-- The marks behind the arguments of a call. -/
abbrev callEnding : Ending :=
  [.closeParen, .semicolon]

theorem closes_callEnding : callEnding.Closes where
  noBrace := by rintro ⟨⟩
  once := by decide

/-- Behind the marks of a call there is no other parenthesis. -/
theorem current_ne_closeParen_of_past (past : callEnding.Past stream) :
    stream.current ≠ .symbol .closeParen := by
  intro atParen
  rcases past.current_eq with atEnd | ⟨mark, member, atMark⟩
  · rw [atParen] at atEnd
    cases atEnd
  · rw [atParen] at atMark
    cases mark with
    | closeParen => exact closes_callEnding.once member
    | semicolon | closeBrace => cases atMark

/-- Arguments in front of a parenthesis have not run over the ending of a call. -/
theorem arrives_arguments {common : List Char}
    (inFront : stream.InFrontOf (callEnding.behind common))
    (run : (arguments expression name).runOn stream = (.ok read, middle))
    (clean : middle.findings = stream.findings) (closed : middle.current = .symbol .closeParen) :
    ∃ rest, Arrives callEnding (arguments expression name) common rest read middle := by
  have follows :=
    follows_arguments (tracks_expression closes_callEnding (common.length + 1)) name
  have fits : Within (common.length + 1) common := Nat.lt_succ_self _
  rcases follows.follows fits inFront run clean with
    (⟨-, past⟩ | ⟨_, _, -, _, -, -, -, past⟩) | ⟨rest, -, arrives⟩
  · exact absurd closed (current_ne_closeParen_of_past past)
  · exact absurd closed (current_ne_closeParen_of_past past)
  · exact ⟨rest, arrives⟩

/-- If the end of the input is behind a parenthesis and the end of a statement,
the parenthesis is that of the ending. -/
theorem eq_nil_of_endStatement {rest : List Char}
    (inFront : middle.InFrontOf (callEnding.behind rest))
    (ended : endStatement.runOn middle.advance = (.ok (), after))
    (clean : after.findings = middle.findings) (atEnd : after.current = .endOfInput) :
    rest = [] := by
  by_contra nonempty
  have marked : callEnding ≠ [] := List.cons_ne_nil _ _
  obtain ⟨cleanParen, cleanEnd⟩ := findings_eq_of_between
    (Tame.advance.findings_grow (runOn_advance middle)) (tame_endStatement.findings_grow ended)
    clean
  obtain ⟨left, opens⟩ := Ending.exists_opens inFront nonempty
  obtain ⟨seen, -, next, -⟩ := opens.exists_advance inFront cleanParen
  rw [endStatement, runOn_bind, runOn_current] at ended
  dsimp only at ended
  split at ended
  · -- the semicolon is one of the text, so the ending is still to come
    rename_i atSemicolon
    cases ended
    have inside : seen ≠ [] := by
      rintro rfl
      rw [next.reads_marks.1] at atSemicolon
      cases atSemicolon
    obtain ⟨_, opensEnd⟩ := Ending.exists_opens next inside
    obtain ⟨_, -, last, -⟩ := opensEnd.exists_advance next cleanEnd
    exact Ending.current_ne_endOfInput last marked atEnd
  · cases ended
    exact Ending.current_ne_endOfInput next marked atEnd
  · cases ended
    exact Ending.current_ne_endOfInput next marked atEnd
  · cases ended

/-! ## The two forms -/

/-- The statement of a name with arguments behind a blank. -/
theorem command_of_arguments (standing : stream.Standing) (atName : stream.current = .name name)
    (starts : startsCommand stream.following = true)
    (given : stream.advance.current ≠ .symbol .semicolon)
    (run : (arguments expression name).runOn stream.advance = (.ok read, middle))
    (ended : endStatement.runOn middle = (.ok (), after)) :
    statement.runOn stream = (.ok (.command name read), after) := by
  rw [runOn_statement_of_name standing atName, starts, if_pos rfl, command, runOn_bind,
    runOn_advance]
  dsimp only
  rw [runOn_bind, runOn_isAt, beq_eq_false_iff_ne.mpr given]
  change (arguments expression name >>= fun read =>
    endStatement >>= fun _ => pure (Stmt.command name read)).runOn stream.advance = _
  rw [runOn_bind, run]
  dsimp only
  rw [runOn_bind, ended]
  rfl

/-- The arguments of a call at the end of a script were read up to the ending, from
the first token of their text on. -/
theorem arrives_of_call {behind : Stream} (place : stream.next.rest = argument ++ callEnding.text)
    (starts : startsCommand (Stream.ofText argument).current = true)
    (run : (callArguments expression name).runOn stream = (.ok read, behind))
    (ended : endStatement.runOn behind = (.ok (), after)) (cleanAfter : after.findings = [])
    (atEnd : after.current = .endOfInput) :
    ∃ common left middle, skipGap .blanks argument = .ok common ∧
      Ending.Opens common (Stream.ofText argument).current left ∧
        Arrives callEnding (arguments expression name) common [] read middle := by
  have cleanBehind : behind.findings = [] := by
    rw [← List.prefix_nil, ← cleanAfter]
    exact tame_endStatement.findings_grow ended
  have cleanFirst : stream.advance.findings = [] := by
    obtain ⟨second, isCall, tame⟩ := startsBehind_callArguments name
    rw [isCall, runOn_bind] at run
    rw [← List.prefix_nil, ← cleanBehind]
    exact tame.findings_grow run
  have cleanStart : stream.findings = [] := by
    rw [← List.prefix_nil, ← cleanFirst]
    exact Tame.advance.findings_grow (runOn_advance stream)
  obtain ⟨common, gap, inFront, twins⟩ :=
    Ending.exists_readFrom place (cleanFirst.trans cleanStart.symm)
  have alone := (twins [] (.ofText argument) (List.append_nil _).symm []).1
  have nonempty : common ≠ [] := by
    rintro rfl
    rw [Stream.ofText, alone.reads_marks.1] at starts
    cases starts
  obtain ⟨left, opens⟩ := Ending.exists_opens alone nonempty
  have given : stream.advance.current ≠ .symbol .closeParen := by
    intro atParen
    have isFirst : stream.advance.current = _ := opens.current inFront
    rw [Stream.ofText, ← isFirst, atParen] at starts
    cases starts
  obtain ⟨middle, ran, closed, rfl⟩ := arguments_of_call given run
  have cleanMiddle : middle.findings = [] := by
    rw [← List.prefix_nil, ← cleanBehind]
    exact Tame.advance.findings_grow (runOn_advance middle)
  obtain ⟨rest, arrives⟩ :=
    arrives_arguments inFront ran (cleanMiddle.trans cleanFirst.symm) closed
  have isEnd := eq_nil_of_endStatement arrives.here ended (cleanAfter.trans cleanMiddle.symm) atEnd
  subst isEnd
  exact ⟨common, left, middle, gap, opens, arrives⟩

/-- The arguments of a script that is one call were read up to the ending, from
the first token of their text on. -/
theorem arrives_of_sequence {called : String} (named : IsName name)
    (starts : startsCommand (Stream.ofText argument).current = true)
    (cleanAfter : after.findings = []) (sequence : Sequence statement closesScript
      (.ofText (name.toList ++ '(' :: (argument ++ callEnding.text))) [.command called read] after) :
    called = name ∧ ∃ common left middle, skipGap .blanks argument = .ok common ∧
      Ending.Opens common (Stream.ofText argument).current left ∧
        Arrives callEnding (arguments expression name) common [] read middle := by
  have beginsName : Begins name.toList (.name name) ('(' :: (argument ++ callEnding.text)) :=
    begins_name named ((stops_cons _ _ _).mpr (by decide))
  have beginsParen : Begins ['('] (.symbol .openParen) (argument ++ callEnding.text) :=
    begins_symbol rfl (fun _ _ => rfl) (by rintro ⟨⟩) (not_startsComment (by decide) _)
  have standing := Stream.standing_ofText (name.toList ++ '(' :: (argument ++ callEnding.text))
  obtain ⟨atName, behindName, -⟩ := Stream.ofText_of_begins beginsName
  generalize Stream.ofText (name.toList ++ '(' :: (argument ++ callEnding.text)) = start
    at sequence standing atName behindName
  obtain ⟨-, behindParen, -⟩ := Stream.readFrom_of_begins behindName beginsParen start.findings
  rw [← Stream.advance] at behindParen
  cases sequence with
  | next _ run others =>
    cases others with
    | done atEnd =>
      obtain ⟨rfl, behind, ranCall, ended⟩ := call_of_statement standing atName
        (Stream.following_of_begins behindName beginsParen) run
      exact ⟨rfl, arrives_of_call behindParen starts ranCall ended cleanAfter atEnd⟩

/-- In front of the ending of a command the arguments are those of the command. -/
theorem sequence_of_arrives (named : IsName name) {common left : List Char}
    (starts : startsCommand (Stream.ofText argument).current = true)
    (given : (Stream.ofText argument).current ≠ .symbol .semicolon)
    (gap : skipGap .blanks argument = .ok common)
    (opens : Ending.Opens common (Stream.ofText argument).current left)
    (arrives : Arrives callEnding (arguments expression name) common [] read middle) :
    ∃ after : Stream, after.findings = [] ∧ Sequence statement closesScript
      (.ofText (name.toList ++ ' ' :: (argument ++ terminator.text))) [.command name read]
        after := by
  have beginsName : Begins name.toList (.name name) (' ' :: (argument ++ terminator.text)) :=
    begins_name named ((stops_cons _ _ _).mpr (by decide))
  have standing := Stream.standing_ofText (name.toList ++ ' ' :: (argument ++ terminator.text))
  obtain ⟨atName, behindName, cleanName⟩ := Stream.ofText_of_begins beginsName
  generalize Stream.ofText (name.toList ++ ' ' :: (argument ++ terminator.text)) = start
    at standing atName behindName cleanName ⊢
  have skipped : skipGap .blanks start.next.rest = .ok (terminator.behind common) := by
    rw [behindName, skipGap_cons_of_isBlank (by decide)]
    exact Ending.skipGap_of_gap gap terminator
  obtain ⟨inFront, cleanFirst⟩ :=
    Stream.inFrontOf_readFrom skipped (opens.reads terminator) start.findings
  have isFollowing : start.following = (Stream.ofText argument).current := by
    rw [Stream.following, Cursor.scan_of_readToken skipped (opens.reads terminator)]
  have isFirst : start.advance.current = _ := opens.current inFront
  obtain ⟨last, ran, cleanLast, atTerminator⟩ :=
    arrives.there terminator (by rintro ⟨⟩) start.advance inFront
  obtain ⟨after, ended, cleanAfter, atEnd⟩ := exists_endStatement (by rintro ⟨⟩) atTerminator
  refine ⟨after, ?_, .next ?_ ?_ (.done atEnd.reads_marks.1)⟩
  · exact cleanAfter.trans (cleanLast.trans (cleanFirst.trans cleanName))
  · rw [atName]
    exact ⟨by rintro ⟨⟩, by rintro ⟨⟩⟩
  · exact command_of_arguments standing atName (isFollowing ▸ starts) (isFirst ▸ given) ran ended

end Parser

open EventScript.Parser in
/-- A command with its arguments between parentheses is the command with the same
arguments behind a blank, also if some of them are unquoted. -/
theorem Script.parse_command_of_call {name argument called : String} {read : List Expr}
    (named : IsName name)
    (starts : startsCommand (Stream.ofText argument.toList).current = true)
    (given : (Stream.ofText argument.toList).current ≠ .symbol .semicolon)
    (call : Script.parse (name ++ "(" ++ argument ++ "\n);") = ⟨[.command called read], []⟩) :
    Script.parse (name ++ " " ++ argument ++ "\n;") = ⟨[.command called read], []⟩ := by
  have callText : (name ++ "(" ++ argument ++ "\n);").toList =
      name.toList ++ '(' :: (argument.toList ++ callEnding.text) := by
    rw [String.toList_append, String.toList_append, String.toList_append, List.append_assoc,
      List.append_assoc]
    rfl
  have commandText : (name ++ " " ++ argument ++ "\n;").toList =
      name.toList ++ ' ' :: (argument.toList ++ terminator.text) := by
    rw [String.toList_append, String.toList_append, String.toList_append, List.append_assoc,
      List.append_assoc]
    rfl
  obtain ⟨after, cleanAfter, -, sequence⟩ := Script.exists_sequence_of_parse call
  rw [callText] at sequence
  obtain ⟨rfl, common, left, middle, gap, opens, arrives⟩ :=
    arrives_of_sequence named starts cleanAfter sequence
  obtain ⟨last, clean, commands⟩ := sequence_of_arrives named starts given gap opens arrives
  rw [← commandText] at commands
  rw [Script.parse_of_sequence commands, clean]

/-- An unquoted argument with a semicolon in parentheses. -/
theorem Script.parse_command_of_call_set :
    Script.parse ("set" ++ "(" ++ "a (;)" ++ "\n);") = ⟨[.command "set" [.text "a (;)"]], []⟩ ∧
      Script.parse ("set" ++ " " ++ "a (;)" ++ "\n;") = ⟨[.command "set" [.text "a (;)"]], []⟩ := by
  have call : Script.parse ("set" ++ "(" ++ "a (;)" ++ "\n);") =
      ⟨[.command "set" [.text "a (;)"]], []⟩ := rfl
  exact ⟨call, Script.parse_command_of_call (by decide) rfl (by decide +kernel) call⟩

end EventScript
