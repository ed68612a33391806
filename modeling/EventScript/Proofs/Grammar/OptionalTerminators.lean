import EventScript.Proofs.Grammar.LastStatements

/-!
# The last terminator of a script

The semicolon behind the last statement of a script can be left out, at the end
of the input and in front of a closing brace.  There are two exceptions: a bare
name is a command only in front of a semicolon, and a return without a value is
not read at the end of the input.
-/

namespace EventScript

variable {after : Stream}

namespace Parser

variable {stream : Stream}

/-! ## Sequences in front of different endings -/

/-- A text in front of its terminator: statements up to a place from which the
last one is read, in front of every ending. -/
structure EndsWith (common : List Char) (front : List Stmt) (last : Stmt) (place : List Char) :
    Prop where
  suffix : place <:+ common
  begins : ∃ token left, Ending.Opens place token left ∧
    token ≠ .symbol .closeBrace ∧ token ≠ .endOfInput
  terminated : Terminated statement place last
  there : ∀ other : Ending, other.token ≠ .symbol .closeParen → ∀ stream : Stream,
    stream.InFrontOf (other.behind common) → ∃ middle : Stream,
      Sequence statement (fun _ => True) stream front middle ∧
        middle.findings = stream.findings ∧ middle.InFrontOf (other.behind place)

namespace EndsWith

variable {common rest place : List Char} {front : List Stmt} {last value : Stmt} {token : Token}
  {left : List Char}

theorem alone (opens : Ending.Opens common token left)
    (inside : token ≠ .symbol .closeBrace ∧ token ≠ .endOfInput)
    (terminated : Terminated statement common last) : EndsWith common [] last common :=
  ⟨List.suffix_refl _, ⟨token, left, opens, inside⟩, terminated,
    fun _ _ stream inFront => ⟨stream, .done trivial, rfl, inFront⟩⟩

/-- A statement in front of the others, which is read in front of every ending. -/
theorem cons (ends : EndsWith rest front last place) (opens : Ending.Opens common token left)
    (inside : token ≠ .symbol .closeBrace ∧ token ≠ .endOfInput)
    (arrives : Arrives terminator statement common rest value after) :
    EndsWith common (value :: front) last place := by
  refine ⟨ends.suffix.trans arrives.suffix, ends.begins, ends.terminated, ?_⟩
  intro other allowed stream inFront
  obtain ⟨behind, ran, cleanBehind, inFrontRest⟩ := arrives.there other allowed stream inFront
  obtain ⟨middle, sequence, clean, inFrontPlace⟩ := ends.there other allowed behind inFrontRest
  refine ⟨middle, .next ?_ ran sequence, clean.trans cleanBehind, inFrontPlace⟩
  rw [opens.current inFront]
  exact inside

end EndsWith

/-- A semicolon alone is the empty statement. -/
theorem eq_empty_of_statement {value : Stmt} (standing : stream.Standing)
    (atSemicolon : stream.current = .symbol .semicolon)
    (run : statement.runOn stream = (.ok value, after)) : value = .empty := by
  rw [runOn_statement standing, statementAround, runOn_bind, runOn_current, atSemicolon] at run
  cases run
  rfl

/-- Statements without findings end with one that the terminator ends, unless that
is the empty statement. -/
theorem exists_endsWith {common : List Char} {front : List Stmt} {last : Stmt}
    (inFront : stream.InFrontOf (terminator.behind common))
    (sequence : Sequence statement closesScript stream (front ++ [last]) after)
    (clean : after.findings = stream.findings) (ended : last.leaf ≠ .empty) :
    ∃ place, EndsWith common front last place := by
  have tracks (common : List Char) := tracksEnd_statement (common.length + 1)
  induction front generalizing common stream with
  | nil =>
    cases sequence with
    | next inside run others =>
      cases others with
      | done closed =>
        have nonempty : common ≠ [] := by
          rintro rfl
          apply ended
          rw [eq_empty_of_statement inFront.standing inFront.reads_marks.1 run]
          rfl
        obtain ⟨left, opens⟩ := Ending.exists_opens inFront nonempty
        rcases (tracks common).follows (Nat.lt_succ_self _) inFront run clean with
          ⟨-, terminated⟩ | ⟨rest, -, arrives⟩
        · exact ⟨common, .alone opens inside terminated⟩
        · exact absurd closed
            (Ending.current_ne_endOfInput arrives.here (List.cons_ne_nil _ _))
  | cons value front ih =>
    cases sequence with
    | next inside run others =>
      obtain ⟨cleanStep, cleanOthers⟩ := findings_eq_of_between
        (tame_statement.findings_grow run) (others.findings_grow tame_statement) clean
      rcases (tracks common).follows (Nat.lt_succ_self _) inFront run cleanStep with
        ⟨atEnd, -⟩ | ⟨rest, shorter, arrives⟩
      · -- nothing is left for the other statements
        have inside := others.inside (List.append_ne_nil_of_right_ne_nil _ (List.cons_ne_nil _ _))
        exact absurd atEnd.current_eq_endOfInput inside.2
      · obtain ⟨place, ends⟩ := ih arrives.here others cleanOthers
        have nonempty : common ≠ [] := List.ne_nil_of_length_pos (Nat.zero_lt_of_lt shorter)
        obtain ⟨left, opens⟩ := Ending.exists_opens inFront nonempty
        exact ⟨place, ends.cons opens inside arrives⟩

namespace EndsWith

variable {common place : List Char} {front : List Stmt} {last : Stmt}
  (ends : EndsWith common front last place) {other : Ending}
  (allowed : other.token ≠ .symbol .closeParen) {stream : Stream}
  (inFront : stream.InFrontOf (other.behind common))

include ends allowed inFront

/-- The statements in front of an ending with which the last one can be read. -/
theorem exists_sequence {leaf : Stmt}
    (concludes : ∀ middle : Stream, middle.InFrontOf (other.behind place) →
      Concludes other statement middle last (some leaf))
    {closing : Token → Prop} (closed : closing other.behindStatement.token) :
    ∃ after : Stream,
      Sequence statement closing stream (front ++ [last.withLeaf leaf]) after ∧
        after.findings = stream.findings ∧ after.InFrontOf other.behindStatement.marks := by
  obtain ⟨middle, sequence, clean, inFrontPlace⟩ := ends.there other allowed stream inFront
  obtain ⟨after, run, cleanLast, behind⟩ := concludes middle inFrontPlace
  obtain ⟨token, left, opens, inside⟩ := ends.begins
  refine ⟨after, sequence.append (.next ?_ run (.done ?_)), cleanLast.trans clean, behind⟩
  · rw [opens.current inFrontPlace]
    exact inside
  · rw [behind.reads_marks.1]
    exact closed

/-- In front of an ending with which the last one cannot be read there is no such
sequence. -/
theorem no_sequence
    (fails : ∀ middle : Stream, middle.InFrontOf (other.behind place) → Fails statement middle)
    (values : List Stmt) (after : Stream) :
    ¬Sequence statement closesScript stream values after := by
  intro whole
  obtain ⟨middle, sequence, -, inFrontPlace⟩ := ends.there other allowed stream inFront
  obtain ⟨token, left, opens, -, noEnd⟩ := ends.begins
  obtain ⟨back, others⟩ := sequence.exists_append whole fun _ => Or.inr
  obtain ⟨error, failed, ran⟩ := fails middle inFrontPlace
  cases others with
  | done closed => exact noEnd ((opens.current inFrontPlace).symm.trans closed)
  | next _ run _ => cases ran.symm.trans run

end EndsWith

/-! ## Blocks -/

/-- Statements between braces are a block. -/
theorem runOn_statement_of_block (standing : stream.Standing)
    (atBrace : stream.current = .symbol .openBrace) {values : List Stmt}
    (sequence : Sequence statement closesBlock stream.advance values after)
    (closed : after.current = .symbol .closeBrace) :
    statement.runOn stream = (.ok (.block values), after.advance) := by
  have run := (sequence.iterates (stepsOver_blockStep statement) []).runOn_loop
    (advances_blockStep consumes_statement) (Stream.standing_advance stream)
  rw [runOn_statement standing, statementAround, runOn_bind, runOn_current, atBrace]
  change (block statement).runOn stream = _
  rw [block_eq, runOn_bind, runOn_advance]
  dsimp only
  rw [runOn_bind, run]
  dsimp only
  rw [runOn_bind, runOn_current, closed]
  rfl

end Parser

/-! ## Scripts -/

open EventScript.Parser

/-- The last statement has an unquoted argument that leaves a parenthesis or a
quote open and has taken in the terminator. -/
def TakesTerminator (source : List Char) (last : Stmt) : Prop :=
  ∃ name front argument, argument <:+ source ∧ LeavesOpen argument ∧
    last.leaf = .command name (front ++ [.text (terminator.overrun argument)])

/-- A text that ends with a name, apart from blanks and comments. -/
def EndsWithName (source : List Char) (name : String) : Prop :=
  ∃ front gap, source = front ++ name.toList ++ gap ∧ skipGap .blanks gap = .ok []

/-- The place in a text, in front of every ending, of the statements that are read
in front of its terminator. -/
structure Script.Ended (source : List Char) (common : List Char) : Prop where
  suffix : common <:+ source
  reads : ∀ (other : Ending) (cursor : Cursor), cursor.rest = source ++ other.text →
    ∀ findings, (Stream.readFrom cursor findings).InFrontOf (other.behind common) ∧
      (Stream.readFrom cursor findings).findings = findings

namespace Script

theorem toList_terminated (source : String) :
    (source ++ "\n;").toList = source.toList ++ terminator.text := by
  rw [String.toList_append]
  rfl

/-- A script that ends with a statement in front of its terminator. -/
theorem exists_ended {source : String} {front : List Stmt} {last : Stmt}
    (parsed : Script.parse (source ++ "\n;") = ⟨front ++ [last], []⟩) (ended : last.leaf ≠ .empty) :
    ∃ common place, Ended source.toList common ∧ EndsWith common front last place := by
  obtain ⟨after, cleanAfter, cleanStart, sequence⟩ := exists_sequence_of_parse parsed
  rw [toList_terminated] at cleanStart sequence
  obtain ⟨common, gap, inFront, twins⟩ :=
    Ending.exists_readFrom (show (Cursor.ofText (source.toList ++ terminator.text)).rest = _ from rfl)
      cleanStart
  obtain ⟨place, ends⟩ := exists_endsWith inFront sequence (cleanAfter.trans cleanStart.symm) ended
  exact ⟨common, place, ⟨isSuffix_of_skipGap gap, twins⟩, ends⟩

section Endings

variable {source : String} {common place : List Char} {front : List Stmt} {last : Stmt}
  (isEnded : Ended source.toList common) (ends : EndsWith common front last place)

include isEnded ends

/-- The script without its terminator, if the last statement can be read. -/
theorem parse_of_concludes {leaf : Stmt}
    (concludes : ∀ middle : Stream, middle.InFrontOf (Ending.behind [] place) →
      Concludes [] statement middle last (some leaf)) :
    Script.parse source = ⟨front ++ [last.withLeaf leaf], []⟩ := by
  have atEnd : closesScript (Ending.token (Ending.behindStatement [])) := rfl
  obtain ⟨inFront, clean⟩ :=
    isEnded.reads [] (.ofText source.toList) (List.append_nil _).symm []
  obtain ⟨after, sequence, cleanAfter, -⟩ :=
    ends.exists_sequence (by rintro ⟨⟩) inFront concludes atEnd
  rw [parse_of_sequence sequence, cleanAfter, clean]

/-- The script without its terminator, if the last statement cannot be read. -/
theorem findings_ne_of_fails
    (fails : ∀ middle : Stream, middle.InFrontOf (Ending.behind [] place) →
      Fails statement middle) : (Script.parse source).findings ≠ [] := by
  intro clean
  have parsed : Script.parse source = ⟨(Script.parse source).script, []⟩ := by rw [← clean]
  obtain ⟨after, -, -, sequence⟩ := exists_sequence_of_parse parsed
  have inFront := (isEnded.reads [] (.ofText source.toList) (List.append_nil _).symm []).1
  exact ends.no_sequence (by rintro ⟨⟩) inFront fails _ _ sequence

/-- The statements between braces. -/
theorem parse_block_of_concludes {other : Ending} (allowed : other.token ≠ .symbol .closeParen)
    (closes : other.behindStatement = [.closeBrace]) {leaf : Stmt}
    (concludes : ∀ middle : Stream, middle.InFrontOf (other.behind place) →
      Concludes other statement middle last (some leaf))
    {text : String} (isText : text.toList = '\x7b' :: (source.toList ++ other.text)) :
    Script.parse text = ⟨[.block (front ++ [last.withLeaf leaf])], []⟩ := by
  have beginsBrace : Begins ['\x7b'] (.symbol .openBrace) (source.toList ++ other.text) :=
    begins_symbol rfl (fun _ _ => rfl) (by rintro ⟨⟩) (not_startsComment (by decide) _)
  have atBrace : closesBlock (Ending.token other.behindStatement) := by
    rw [closes]
    exact Or.inl rfl
  have standing := Stream.standing_ofText text.toList
  obtain ⟨atStart, behindStart, cleanStart⟩ := Stream.ofText_of_begins beginsBrace
  rw [List.singleton_append, ← isText] at atStart behindStart cleanStart
  obtain ⟨inFront, clean⟩ := isEnded.reads other _ behindStart (Stream.ofText text.toList).findings
  obtain ⟨after, sequence, cleanAfter, atMarks⟩ :=
    ends.exists_sequence allowed inFront concludes atBrace
  rw [closes] at atMarks
  obtain ⟨atEnd, cleanEnd⟩ := atMarks.advance_marks
  have block := runOn_statement_of_block standing atStart sequence atMarks.reads_marks.1
  have inside : (Stream.ofText text.toList).current ≠ .symbol .closeBrace ∧
      (Stream.ofText text.toList).current ≠ .endOfInput := by
    rw [atStart]
    exact ⟨by rintro ⟨⟩, by rintro ⟨⟩⟩
  have whole : Sequence statement closesScript (.ofText text.toList)
      [.block (front ++ [last.withLeaf leaf])] after.advance :=
    .next inside block (.done atEnd.current_eq_endOfInput)
  rw [parse_of_sequence whole, cleanEnd, cleanAfter, clean, cleanStart]

end Endings

/-- The terminator of the last statement can be left out at the end of the input
and in front of a closing brace.  A return without a value is then not read at
the end of the input, and a bare name is an expression instead of a command. -/
theorem parse_without_terminator {source : String} {front : List Stmt} {last : Stmt}
    (parsed : Script.parse (source ++ "\n;") = ⟨front ++ [last], []⟩) (ended : last.leaf ≠ .empty)
    (closed : ¬TakesTerminator source.toList last) :
    Script.parse ("\x7b" ++ source ++ "\n;\x7d") = ⟨[.block (front ++ [last])], []⟩ ∧
      (((last.leaf ≠ .giveBack none → Script.parse source = ⟨front ++ [last], []⟩) ∧
          (last.leaf = .giveBack none → (Script.parse source).findings ≠ []) ∧
          Script.parse ("\x7b" ++ source ++ "\n\x7d") = ⟨[.block (front ++ [last])], []⟩) ∨
        ∃ name, last.leaf = .command name [] ∧ EndsWithName source.toList name ∧
          let bare := front ++ [last.withLeaf (.expression (.name name))]
          Script.parse source = ⟨bare, []⟩ ∧
            Script.parse ("\x7b" ++ source ++ "\n\x7d") = ⟨[.block bare], []⟩) := by
  have unterminated : ("\x7b" ++ source ++ "\n\x7d").toList =
      '\x7b' :: (source.toList ++ Ending.text [.closeBrace]) := by
    rw [String.toList_append, String.toList_append]
    rfl
  have terminated : ("\x7b" ++ source ++ "\n;\x7d").toList =
      '\x7b' :: (source.toList ++ Ending.text [.semicolon, .closeBrace]) := by
    rw [String.toList_append, String.toList_append]
    rfl
  obtain ⟨common, place, isEnded, ends⟩ := exists_ended parsed ended
  cases ends.terminated with
  | empty isEmpty => exact absurd isEmpty ended
  | overrun suffix leavesOpen isOverrun =>
    exact absurd ⟨_, _, _, suffix.trans (ends.suffix.trans isEnded.suffix), leavesOpen, isOverrun⟩
      closed
  | reread bare named twins =>
    have semicolon := twins [.semicolon, .closeBrace] (by rintro ⟨⟩)
    have atEnd := twins [] (by rintro ⟨⟩)
    have brace := twins [.closeBrace] (by rintro ⟨⟩)
    rw [Ending.reread_of_semicolon rfl] at semicolon
    have kept := parse_block_of_concludes isEnded ends (by rintro ⟨⟩) rfl semicolon terminated
    rw [Stmt.withLeaf_leaf] at kept
    refine ⟨kept, ?_⟩
    cases bare with
    | false =>
      rw [Ending.reread_of_ne_nil (List.cons_ne_nil _ _)] at brace
      have inBraces := parse_block_of_concludes isEnded ends (by rintro ⟨⟩) rfl brace unterminated
      rw [Stmt.withLeaf_leaf] at inBraces
      refine Or.inl ⟨fun valued => ?_, fun isReturn => ?_, inBraces⟩
      · rw [Ending.reread_false valued] at atEnd
        have alone := parse_of_concludes isEnded ends atEnd
        rwa [Stmt.withLeaf_leaf] at alone
      · rw [isReturn] at atEnd
        exact findings_ne_of_fails isEnded ends atEnd
    | true =>
      obtain ⟨name, passed, gap, isLeaf, split, skipped⟩ := named rfl
      rw [isLeaf, Ending.reread_bare (by rintro ⟨⟩)] at atEnd brace
      obtain ⟨before, isSource⟩ := ends.suffix.trans isEnded.suffix
      refine Or.inr ⟨name, isLeaf, ⟨before ++ passed, gap, ?_, skipped⟩,
        parse_of_concludes isEnded ends atEnd,
        parse_block_of_concludes isEnded ends (by rintro ⟨⟩) rfl brace unterminated⟩
      rw [← isSource, split, List.append_assoc, List.append_assoc, List.append_assoc]

/-- The body of a loop as the last statement. -/
theorem parse_without_terminator_loop :
    let body := Stmt.expression (.unary .postIncrement (.name "b"))
    Script.parse ("while (a) b++" ++ "\n;") = ⟨[.whileLoop (.name "a") body], []⟩ ∧
      Script.parse "while (a) b++" = ⟨[.whileLoop (.name "a") body], []⟩ ∧
      Script.parse ("\x7b" ++ "while (a) b++" ++ "\n\x7d") =
        ⟨[.block [.whileLoop (.name "a") body]], []⟩ := by
  intro body
  have parsed : Script.parse ("while (a) b++" ++ "\n;") =
      ⟨[] ++ [.whileLoop (.name "a") body], []⟩ := rfl
  have closed : ¬TakesTerminator "while (a) b++".toList (.whileLoop (.name "a") body) := by
    rintro ⟨_, _, _, -, -, ⟨⟩⟩
  obtain ⟨-, ⟨alone, -, inBraces⟩ | ⟨_, ⟨⟩, -⟩⟩ :=
    parse_without_terminator parsed (by rintro ⟨⟩) closed
  exact ⟨parsed, alone (by rintro ⟨⟩), inBraces⟩

/-- A return without a value is not read at the end of the input, and a bare name
is not a command there. -/
theorem terminator_not_optional :
    Script.parse ("return" ++ "\n;") = ⟨[.giveBack none], []⟩ ∧
      (Script.parse "return").findings.length = 1 ∧
      Script.parse ("hide" ++ "\n;") = ⟨[.command "hide" []], []⟩ ∧
      Script.parse "hide" = ⟨[.expression (.name "hide")], []⟩ := by
  exact ⟨rfl, rfl, rfl, rfl⟩

end Script

end EventScript
