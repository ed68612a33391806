import EventScript.Proofs.Grammar.ReadBack
import EventScript.Proofs.Grammar.Sequences
import EventScript.Proofs.Grammar.Terminators

/-!
# Every statement in front of its terminator

Each rule for statements reads a text in front of its terminator as it does in
front of other endings.  A rule that goes on behind the terminator fails, because
nothing follows; a rule that ends with a statement is ended where that statement
is.
-/

namespace EventScript.Parser

variable {count : Nat}
variable {stream : Stream}

/-! ## At the end of the input -/

/-- At the end of the input there is no expression. -/
theorem fails_expression (atEnd : stream.InFrontOf []) : Fails expression stream := by
  cases run : expression.runOn stream with
  | mk outcome after =>
    cases outcome with
    | error error => exact ⟨error, after, run⟩
    | ok value =>
      have shorter := consumes_expression.shorter atEnd.standing trivial run trivial
      rw [Stream.remaining, Stream.remaining, atEnd.place] at shorter
      cases shorter

theorem fails_optionalExpression {closing : Token} (noEnd : closing ≠ .endOfInput)
    (atEnd : stream.InFrontOf (Ending.marks [])) : Fails (optionalExpression closing) stream := by
  have elsewhere : (stream.current == closing) = false := by
    rw [atEnd.reads_marks.1]
    exact beq_eq_false_iff_ne.mpr noEnd.symm
  obtain ⟨error, after, run⟩ := (fails_expression atEnd).bind fun value => pure (some value)
  refine ⟨error, after, ?_⟩
  rw [optionalExpression, runOn_bind, runOn_isAt, elsewhere]
  exact run

/-! ## Statements that end with themselves -/

theorem tracksEnd_expressionStatement (count : Nat) :
    TracksEnd (Within count) expressionStatement expressionStatement Takes := by
  apply TracksEnd.bind_left (tracks_expression closes_terminator count)
  intro value
  split
  · exact tracksEnd_endStatement ⟨rfl, fun _ => rfl⟩ (by rintro ⟨⟩) count
  · exact tracksEnd_endStatement ⟨rfl, fun _ => rfl⟩ (by rintro ⟨⟩) count

theorem tracksEnd_giveBack :
    TracksEnd (Inside (count + 1)) giveBack giveBack Takes := by
  have valued : TracksEnd (Within count)
      (some <$> expression >>= fun value => endStatement >>= fun _ => pure (.giveBack value))
      (some <$> expression >>= fun value => endStatement >>= fun _ => pure (.giveBack value))
      Takes := by
    rw [bind_map_left]
    exact TracksEnd.bind_left (tracks_expression closes_terminator count) fun value =>
      tracksEnd_endStatement ⟨rfl, fun _ => rfl⟩ (by rintro ⟨⟩) count
  apply TracksEnd.advance_bind
  apply TracksEnd.current_bind
  · intro token
    split
    · exact .of_tracks (tracks_endStatement _ count)
    · exact .of_tracks (tracks_endStatement _ count)
    · exact (valued.narrow fun _ => And.left).anywhere
  · intro _ _
    apply Follows.of_lost (tame_endStatement.bind fun _ => .pure _)
    rintro common stream after value ⟨-, rfl⟩ inFront run -
    obtain ⟨atEnd, ran, -, behind⟩ := exists_endStatement (by rintro ⟨⟩) inFront
    rw [runOn_bind, ran] at run
    cases run
    refine ⟨behind, .reread false (by rintro ⟨⟩) fun other allowed twin twinInFront => ?_⟩
    have atToken := twinInFront.reads_marks.1
    cases other with
    | nil =>
      have fails := (fails_expression twinInFront).bind fun value =>
        endStatement >>= fun _ => pure (Stmt.giveBack (some value))
      refine Concludes.congr fails ?_
      rw [runOn_bind, runOn_current, atToken]
      change (some <$> expression >>= fun value =>
        endStatement >>= fun _ => pure (Stmt.giveBack value)).runOn twin = _
      rw [bind_map_left]
    | cons mark others =>
      cases mark with
      | closeParen => exact absurd rfl allowed
      | semicolon | closeBrace =>
        refine Concludes.congr
          (concludes_endStatement ⟨rfl, fun _ => rfl⟩ allowed twinInFront) ?_
        rw [runOn_bind, runOn_current, atToken]
        rfl

/-! ## Commands -/

/-- A command with arguments, or with a semicolon of the text. -/
theorem tracksEnd_command (name : String) {token : Token} :
    TracksEnd (fun common => Within (count + 1) common ∧
        ∃ rest, Ending.Opens common token rest ∧ skipGap .blanks rest ≠ .ok [])
      (command name) (command name) Takes := by
  have withArguments : TracksEnd (Within count)
      (arguments expression name >>= fun read => endStatement >>= fun _ =>
        pure (.command name read))
      (arguments expression name >>= fun read => endStatement >>= fun _ =>
        pure (.command name read)) Anywhere := by
    refine Follows.bind_of_resumes (fun _ => Within count) Anywhere
      (follows_arguments (tracks_expression closes_terminator count) name)
      (fun read => tracksEnd_endStatement ⟨rfl, fun _ => rfl⟩ (by rintro ⟨⟩) count)
      (fun fits suffix _ => Nat.lt_of_le_of_lt suffix.length_le fits) (fun _ _ _ _ => trivial) ?_
      fun arrives terminated => ⟨terminated.1, terminated.2.of_arrives arrives⟩
    rintro common read middle after value
      (isLost | ⟨front, last, rfl, argument, suffix, leavesOpen, rfl, past⟩) run
    · exact absurd isLost (not_lost_terminator _)
    · have atEnd : middle.InFrontOf (Ending.marks []) := past_terminator_iff.mp past
      obtain ⟨ended, ran, -, behind⟩ := exists_endStatement (by rintro ⟨⟩) atEnd
      rw [runOn_bind, ran] at run
      cases run
      exact ⟨behind, .overrun suffix leavesOpen rfl⟩
  refine TracksEnd.bind (Inside count) Anywhere
    (Follows.advance_of_opens.mono (fun _ => And.right) (fun _ _ _ => id) fun _ _ _ => False.elim)
    (fun _ => ?_) ?_ fun _ suffix shorter _ => Nat.lt_of_le_of_lt suffix.length_le shorter.1
  · rw [isAt_bind_eq]
    apply TracksEnd.current_bind
    · intro token
      cases token == .symbol .semicolon with
      | true => exact .of_tracks ((tracks_endStatement _ count).narrow fun _ => And.left)
      | false => exact withArguments.narrow fun _ admitted => admitted.1.1
    · intro _ _
      refine ⟨tame_endStatement.bind fun _ => .pure _, ?_⟩
      rintro common stream after value ⟨⟨-, nonempty⟩, atEnd⟩
      exact absurd atEnd nonempty
  · rintro common rest _ ⟨fits, -⟩ - ⟨shorter, inside⟩
    exact ⟨Nat.lt_of_lt_of_le shorter (Nat.le_of_lt_succ fits), inside⟩

/-! ## Names -/

/-- A name that is followed by nothing but an ending. -/
structure IsBareName (common : List Char) (spelling : String) (rest : List Char) : Prop where
  opens : Ending.Opens common (.name spelling) rest
  gap : skipGap .blanks rest = .ok []

namespace IsBareName

variable {common rest : List Char} {spelling : String} {other : Ending} {stream : Stream}
  (bare : IsBareName common spelling rest) (inFront : stream.InFrontOf (other.behind common))

include bare

theorem split : common = spelling.toList ++ rest ∧ IsName spelling := by
  obtain ⟨word, spelled, split⟩ := bare.opens.split
  obtain ⟨rfl, named⟩ := spelled.name
  exact ⟨split, named⟩

include inFront

theorem following : stream.following = other.token :=
  Ending.following_of_gap bare.gap (bare.opens.behind inFront)

theorem advance : stream.advance.InFrontOf other.marks ∧ stream.advance.findings = stream.findings :=
  Ending.advance_of_gap bare.gap (bare.opens.behind inFront)

/-- A bare name is an expression. -/
theorem runOn_expression : expression.runOn stream = (.ok (.name spelling), stream.advance) := by
  obtain ⟨next, clean⟩ := bare.advance inFront
  have ended : Ends 0 (other.map fun mark => .symbol mark.symbol) := by
    cases other with
    | nil => rintro _ ⟨⟩
    | cons mark others => cases mark <;> rintro _ ⟨⟩
  have atName := bare.opens.current inFront
  have below : stream.Below (stream.remaining + 1) := ⟨inFront.standing, Nat.lt_succ_self _⟩
  have shorter := (below.advance (atName ▸ by rintro ⟨⟩)).fits
  exact reads_expression_of_shaped (.name bare.split.2) ended stream
    ⟨atName, clean, shorter, next.at_marks⟩

end IsBareName

/-- A statement that begins with a name. -/
def nameStatement (spelling : String) : Parser Stmt := do
  if startsCommand (← get).following then command spelling else expressionStatement

theorem runOn_nameStatement (spelling : String) (stream : Stream) :
    (nameStatement spelling).runOn stream =
      (if startsCommand stream.following = true then command spelling
        else expressionStatement).runOn stream :=
  rfl

theorem tame_nameStatement (spelling : String) : Tame (nameStatement spelling) := by
  apply Tame.get_bind
  intro found
  split
  · exact (startsBehind_command spelling).tame
  · exact tame_expressionStatement

/-- A bare name is a command in front of a semicolon and an expression in front of
any other ending. -/
theorem IsBareName.concludes {common rest : List Char} {spelling : String}
    (bare : IsBareName common spelling rest) {other : Ending}
    (allowed : other.token ≠ .symbol .closeParen) (inFront : stream.InFrontOf (other.behind common)) :
    Concludes other (nameStatement spelling) stream (.command spelling [])
      (other.reread true (.command spelling [])) := by
  obtain ⟨next, clean⟩ := bare.advance inFront
  obtain ⟨after, ended, cleanAfter, behind⟩ := exists_endStatement allowed next
  by_cases atSemicolon : other.token = .symbol .semicolon
  · rw [Ending.reread_of_semicolon atSemicolon]
    refine ⟨after, ?_, cleanAfter.trans clean, behind⟩
    rw [runOn_nameStatement, bare.following inFront, atSemicolon]
    change (command spelling).runOn stream = _
    rw [command, runOn_bind, runOn_advance]
    dsimp only
    rw [runOn_bind, runOn_isAt, next.reads_marks.1, atSemicolon]
    change (endStatement >>= fun _ => pure (Stmt.command spelling [])).runOn stream.advance = _
    rw [runOn_bind, ended]
    rfl
  · have noCommand : startsCommand other.token = false := by
      cases other with
      | nil => rfl
      | cons mark others =>
        cases mark with
        | semicolon => exact absurd rfl atSemicolon
        | closeBrace | closeParen => rfl
    rw [Ending.reread_bare atSemicolon]
    refine ⟨after, ?_, cleanAfter.trans clean, behind⟩
    rw [runOn_nameStatement, bare.following inFront, noCommand]
    change expressionStatement.runOn stream = _
    rw [expressionStatement, runOn_bind, bare.runOn_expression inFront]
    dsimp only
    rw [runOn_bind, ended]
    rfl

/-- Looking ahead behind a token that is not the last one of the text. -/
theorem TracksEnd.following_bind {token : Token} {domain : List Char → Prop}
    (inside : ∀ common, domain common →
      ∃ rest, Ending.Opens common token rest ∧ skipGap .blanks rest ≠ .ok [])
    {second secondTwin : Token → Parser Stmt} {way : Way Stmt}
    (ends : ∀ token, TracksEnd domain (second token) (secondTwin token) way) :
    TracksEnd domain (get >>= fun found => second found.following)
      (get >>= fun found => secondTwin found.following) way where
  tame := .get_bind fun found => (ends found.following).tame
  follows := by
    intro common stream after value admitted inFront run clean
    obtain ⟨rest, opens, noGap⟩ := inside common admitted
    have same {other : Ending} {twin : Stream} (twinInFront : twin.InFrontOf (other.behind common)) :
        (get >>= fun found => secondTwin found.following).runOn twin =
          (secondTwin stream.following).runOn twin := by
      rw [runOn_bind, runOn_get,
        ← Ending.following_eq noGap (opens.behind inFront) (opens.behind twinInFront)]
    rcases (ends stream.following).follows admitted inFront run clean with
      ⟨atEnd, terminated⟩ | ⟨place, goes, suffix, here, there⟩
    · exact Or.inl ⟨atEnd, terminated.congr fun _ _ twinInFront => same twinInFront⟩
    · refine Or.inr ⟨place, goes, suffix, here, ?_⟩
      intro other allowed twin twinInFront
      rw [same twinInFront]
      exact there other allowed twin twinInFront

theorem tracksEnd_nameStatement (spelling : String) :
    TracksEnd (fun common => Within (count + 1) common ∧
        ∃ rest, Ending.Opens common (.name spelling) rest)
      (nameStatement spelling) (nameStatement spelling) Takes := by
  apply Follows.of_cases fun common => ∃ rest, IsBareName common spelling rest
  · apply Follows.of_lost (tame_nameStatement spelling)
    rintro common stream after value ⟨-, rest, bare⟩ inFront run -
    obtain ⟨_, ran, -, behind⟩ := bare.concludes (by rintro ⟨⟩) inFront
    rw [ran] at run
    cases run
    refine ⟨behind, .reread true (fun _ => ?_) fun other allowed twin twinInFront => ?_⟩
    · exact ⟨spelling, [], rest, rfl, bare.split.1, bare.gap⟩
    · exact bare.concludes allowed twinInFront
  · have ends (token : Token) : TracksEnd (fun common => Within (count + 1) common ∧
          ∃ rest, Ending.Opens common (.name spelling) rest ∧ skipGap .blanks rest ≠ .ok [])
        (if startsCommand token = true then command spelling else expressionStatement)
        (if startsCommand token = true then command spelling else expressionStatement) Takes := by
      split
      · exact tracksEnd_command spelling
      · exact (tracksEnd_expressionStatement (count + 1)).narrow fun _ => And.left
    refine (TracksEnd.following_bind (fun _ => And.right) ends).narrow ?_
    rintro common ⟨⟨fits, rest, opens⟩, notBare⟩
    exact ⟨fits, rest, opens, fun gap => notBare ⟨rest, opens, gap⟩⟩

/-! ## Blocks -/

section Statements

variable {inner twin : Parser Stmt} (ends : TracksEnd (Within count) inner twin Takes)

include ends

/-- A statement of a sequence is read by its twin, or the terminator ended it. -/
theorem follows_recovering (read : List Stmt) :
    Follows terminator (Within count) (recovering inner read) (recovering twin read)
      (fun outcome common rest => outcome ≠ none ∧ rest.length < common.length) AtEnd where
  tame := ends.tame.recovering read
  follows := by
    intro common stream after outcome fits inFront run clean
    obtain ⟨value, ran, rfl⟩ := exists_runOn_of_recovering ends.tame run clean
    rcases ends.follows fits inFront ran clean with
      ⟨atEnd, -⟩ | ⟨rest, shorter, suffix, here, there⟩
    · exact Or.inl atEnd
    · refine Or.inr ⟨rest, ⟨by rintro ⟨⟩, shorter⟩, suffix, here, ?_⟩
      intro other allowed stream inFront
      obtain ⟨twinAfter, twinRan, twinClean, behind⟩ := there other allowed stream inFront
      exact ⟨twinAfter, runOn_recovering twinRan read, twinClean, behind⟩

/-- A sequence in braces ends inside the text, unless the terminator ended one of
its statements. -/
theorem follows_blockStep (read : List Stmt) :
    Follows terminator (Within count) (blockStep inner read) (blockStep twin read)
      (TakesUntil (· ≠ [])) AtEnd := by
  have reads := follows_recovering ends read
  apply Follows.current_bind
  · intro token
    split
    · exact Follows.pure_of_way none fun _ inside => ⟨by rintro ⟨⟩, fun _ => inside.2⟩
    · exact Follows.pure_of_way none fun _ inside => ⟨by rintro ⟨⟩, fun _ => inside.2⟩
    · refine reads.mono (fun _ => And.left) ?_ fun _ _ _ => id
      exact fun outcome common rest way => ⟨fun _ => way.2, fun isNone => absurd isNone way.1⟩
  · intro other _
    exact (reads.mono (fun _ => id) (fun _ _ _ => And.right) fun _ _ _ => id).of_takes

/-- A block is closed inside the text, so the terminator is behind it. -/
theorem tracks_block :
    Tracks terminator (Inside (count + 1)) (block inner)
      (block twin) Takes := by
  have sequences : Follows terminator (Within count) (loop (blockStep inner) [])
      (loop (blockStep twin) []) (fun _ _ rest => rest ≠ []) AtEnd := by
    refine Follows.loop (follows_blockStep ends) ?_ (fun _ atEnd => atEnd) (fun _ _ _ _ _ => id) []
    intro common next result bound middle after atEnd run
    have closed : closesBlock middle.current := Or.inr atEnd.current_eq_endOfInput
    rw [runOn_repeatUpTo_of_none ((stepsOver_blockStep inner).stops closed)] at run
    cases run
    exact atEnd
  rw [block_eq, block_eq]
  apply Tracks.advance_bind
  refine Follows.bind (fun _ => Inside count) Takes sequences ?closing
    (fun fits suffix inside => ⟨Nat.lt_of_le_of_lt suffix.length_le fits, inside⟩)
    (fun _ _ _ _ => trivial) ?lost fun _ _ _ _ _ => id
  case closing =>
    intro statements
    apply Follows.current_bind_inside fun _ => And.right
    intro token
    split
    · exact Follows.of_error (.breakOff .block) fun _ => ⟨_, _, rfl⟩
    · exact Tracks.advance_pure _
  case lost =>
    -- at the end of the input the block is broken off
    intro common statements middle after value atEnd run
    rw [runOn_bind, runOn_current, atEnd.current_eq_endOfInput] at run
    cases run

theorem tracks_function :
    Tracks terminator (Inside (count + 1)) (function inner)
      (function twin) Takes := by
  have body (spelling : String) : Tracks terminator (Within (count + 1))
      (isAt (.symbol .openBrace) >>= fun found =>
        if found = true then block inner >>= fun body => pure (Stmt.function spelling body)
        else fail (.missing .functionBody))
      (isAt (.symbol .openBrace) >>= fun found =>
        if found = true then block twin >>= fun body => pure (Stmt.function spelling body)
        else fail (.missing .functionBody)) Anywhere :=
    Tracks.isAt_bind rfl ((tracks_block ends).bind_return _) (Follows.fail _)
  apply Tracks.advance_bind
  apply Follows.current_bind
  · intro token
    split
    · rename_i spelling
      refine Tracks.anywhere (Tracks.advance_bind_fewer ?_)
      refine Tracks.fewer (Tracks.accept_bind rfl (fun _ _ _ _ => trivial) ?_ (body spelling))
      exact Tracks.anywhere (Tracks.expect_bind _ (by rintro ⟨⟩) (body spelling).fewer)
    · exact Follows.fail _
  · intro other _
    exact Follows.fail _

/-! ## Branches and loops -/

omit ends in
theorem tracks_condition (word : Keyword) :
    Tracks terminator (Inside (count + 1)) (condition word)
      (condition word) Takes := by
  apply Tracks.advance_bind
  refine Tracks.anywhere (Tracks.expect_bind _ (by rintro ⟨⟩) (Tracks.bind
    (tracks_expression closes_terminator count) fun _ =>
      Tracks.expect_bind _ (by rintro ⟨⟩) (Follows.pure _)))

theorem tracksEnd_whileLoop :
    TracksEnd (Inside (count + 1)) (whileLoop inner)
      (whileLoop twin) Takes := by
  apply TracksEnd.bind_inside (tracks_condition _)
  intro test
  exact TracksEnd.bind_around (.whileLoop test) ends (fun _ => .of_tracks (Follows.pure _))
    (fun _ => rfl) (fun _ _ => rfl) (fun _ _ _ _ => rfl) fun _ _ _ _ => rfl

/-- A branch behind its condition.  An `else` that follows belongs to it. -/
theorem tracksEnd_branch :
    TracksEnd (Inside (count + 1)) (branch inner)
      (branch twin) Takes := by
  apply TracksEnd.bind_inside (tracks_condition _)
  intro test
  have otherwise (whenTrue : Stmt) : TracksEnd (Within count)
      (inner >>= fun otherwise => pure (.branch test whenTrue (some otherwise)))
      (twin >>= fun otherwise => pure (.branch test whenTrue (some otherwise))) Anywhere :=
    TracksEnd.bind_around (fun otherwise => .branch test whenTrue (some otherwise)) ends
      (fun _ => .of_tracks (Follows.pure _)) (fun _ => rfl) (fun _ _ => rfl) (fun _ _ _ _ => rfl)
      fun _ _ _ _ => rfl
  have noElse (ending : Ending) : ending.token ≠ .keyword .elseWord := ending.token_ne rfl
  have stops (parser : Stmt → Parser Stmt) (value : Stmt) (ending : Ending) (stream : Stream)
      (inFront : stream.InFrontOf ending.marks) :
      (accept (.keyword .elseWord) >>= fun found => if found = true then parser value else
        pure (Stmt.branch test value none)).runOn stream =
          (.ok (.branch test value none), stream) := by
    rw [runOn_bind, runOn_accept, if_neg (inFront.reads_marks.1 ▸ noElse ending)]
    rfl
  refine TracksEnd.bind_around (fun whenTrue => .branch test whenTrue none) ends (fun whenTrue => ?_)
    (fun _ => rfl) (fun _ _ => rfl)
    (stops fun whenTrue => inner >>= fun otherwise => pure (.branch test whenTrue (some otherwise)))
    (stops fun whenTrue => twin >>= fun otherwise => pure (.branch test whenTrue (some otherwise)))
  rw [accept_bind_eq, accept_bind_eq]
  apply TracksEnd.current_bind
  · intro token
    split
    · exact TracksEnd.anywhere (TracksEnd.advance_bind_fewer (otherwise whenTrue))
    · exact .of_tracks (Follows.pure _)
  · intro other _
    have noElseHere : Token.symbol .semicolon ≠ .keyword .elseWord := noElse terminator
    rw [if_neg noElseHere, if_neg (noElse other)]
    exact Follows.pure _

omit ends in
/-- A clause in front of the parenthesis that closes it. -/
theorem tracks_optionalExpression : Tracks terminator (Within count)
    (optionalExpression (.symbol .closeParen)) (optionalExpression (.symbol .closeParen))
      Anywhere := by
  have read := tracks_expression closes_terminator count
  rw [optionalExpression, isAt_bind_eq]
  apply Follows.current_bind
  · intro token
    cases token == .symbol .closeParen with
    | true => exact Follows.pure none
    | false => exact (read.bind_return some).inside
  · intro other _
    exact (Tracks.bind_left read fun _ => Follows.pure _).of_takes

/-- A clause of a counted loop with the semicolon that closes it. -/
def clause (expectation : Expectation) : Parser (Option Expr) := do
  let value ← optionalExpression (.symbol .semicolon)
  expect (.symbol .semicolon) expectation
  return value

omit ends in
theorem forLoop_eq (inner : Parser Stmt) :
    forLoop inner = advance >>= fun _ =>
      expect (.symbol .openParen) (.openAfter .forWord) >>= fun _ =>
        clause .semicolonAfterInitializer >>= fun init =>
          clause .semicolonAfterCondition >>= fun test =>
            optionalExpression (.symbol .closeParen) >>= fun step =>
              expect (.symbol .closeParen) .closeAfterClauses >>= fun _ =>
                inner >>= fun body => pure (.forLoop init test step body) := by
  simp only [forLoop, clause, bind_assoc, pure_bind]

omit ends in
/-- The terminator may be taken for the semicolon that closes a clause. -/
theorem follows_clause (expectation : Expectation) :
    Follows terminator (Within count) (clause expectation) (clause expectation) Takes AtEnd := by
  have tameClosing (value : Option Expr) :
      Tame (expect (.symbol .semicolon) expectation >>= fun _ => pure value) :=
    (Tame.expect _ _).bind fun _ => .pure value
  have passes {value result : Option Expr} {stream after : Stream}
      (inFront : stream.InFrontOf terminator.marks)
      (run : (expect (.symbol .semicolon) expectation >>= fun _ => pure value).runOn stream =
        (.ok result, after)) : after.InFrontOf [] := by
    have atSemicolon : stream.current = .symbol .semicolon := inFront.reads_marks.1
    rw [runOn_bind, runOn_expect, if_pos atSemicolon] at run
    cases run
    exact inFront.advance_marks.1
  have closing (value : Option Expr) : Follows terminator (Within count)
      (expect (.symbol .semicolon) expectation >>= fun _ => pure value)
      (expect (.symbol .semicolon) expectation >>= fun _ => pure value) Takes AtEnd := by
    apply Follows.of_cases (· = [])
    · apply Follows.of_lost (tameClosing value)
      rintro common stream after result ⟨-, rfl⟩ inFront run -
      exact passes inFront run
    · rw [expect_bind_eq]
      apply Follows.current_bind_inside fun _ => And.right
      intro token
      split
      · exact (Tracks.advance_pure value).follows_terminator
      · exact Follows.fail _
  rw [clause, optionalExpression, bind_assoc, isAt_bind_eq]
  apply Follows.current_bind
  · intro token
    cases token == .symbol .semicolon with
    | true => exact (closing none).mono (fun _ => And.left) (fun _ _ _ => id) fun _ _ _ => id
    | false =>
      rw [if_neg Bool.false_ne_true, bind_assoc]
      exact Follows.bind (fun _ => Within count) Takes
        ((tracks_expression closes_terminator count).narrow fun _ => And.left)
        (fun value => closing (some value))
        (fun fits suffix _ => Nat.lt_of_le_of_lt suffix.length_le fits.1)
        (fun suffix _ _ shorter => Nat.lt_of_lt_of_le shorter suffix.length_le)
        (fun isLost => absurd isLost (not_lost_terminator _)) fun _ _ _ _ _ => id
  · intro other _
    apply Follows.of_lost (tameClosing none)
    rintro common stream after result ⟨-, rfl⟩ inFront run -
    exact passes inFront run

omit ends in
/-- At the end of the input no clause is closed. -/
theorem fails_clause (expectation : Expectation) {stream : Stream} (atEnd : stream.InFrontOf []) :
    Fails (clause expectation) stream :=
  (fails_optionalExpression (by rintro ⟨⟩) atEnd).bind _

theorem tracksEnd_forLoop :
    TracksEnd (Inside (count + 1)) (forLoop inner)
      (forLoop twin) Takes := by
  have body (init test step : Option Expr) : TracksEnd (Within count)
      (inner >>= fun body => pure (.forLoop init test step body))
      (twin >>= fun body => pure (.forLoop init test step body)) Anywhere :=
    TracksEnd.bind_around (.forLoop init test step) ends (fun _ => .of_tracks (Follows.pure _))
      (fun _ => rfl) (fun _ _ => rfl) (fun _ _ _ _ => rfl) fun _ _ _ _ => rfl
  have lastClause (init test : Option Expr) : TracksEnd (Within count)
      (optionalExpression (.symbol .closeParen) >>= fun step =>
        expect (.symbol .closeParen) .closeAfterClauses >>= fun _ =>
          inner >>= fun body => pure (.forLoop init test step body))
      (optionalExpression (.symbol .closeParen) >>= fun step =>
        expect (.symbol .closeParen) .closeAfterClauses >>= fun _ =>
          twin >>= fun body => pure (.forLoop init test step body)) Anywhere :=
    TracksEnd.bind (Within count) Takes tracks_optionalExpression
      (fun step => .bind_left (.expect _ (by rintro ⟨⟩)) fun _ => body init test step)
      (fun fits suffix _ => Nat.lt_of_le_of_lt suffix.length_le fits) fun _ _ _ _ => trivial
  rw [forLoop_eq, forLoop_eq]
  apply TracksEnd.advance_bind
  apply TracksEnd.bind_left (.expect _ (by rintro ⟨⟩))
  intro _
  apply TracksEnd.bind_of_fails (follows_clause _)
  · intro init
    apply TracksEnd.bind_of_fails (follows_clause _) (lastClause init)
    intro test stream atEnd
    exact (fails_optionalExpression (by rintro ⟨⟩) atEnd).bind _
  · intro init stream atEnd
    exact (fails_clause _ atEnd).bind _

/-! ## Every statement -/

theorem tracksEnd_statementAround :
    TracksEnd (Within (count + 1)) (statementAround inner) (statementAround twin) Takes := by
  apply TracksEnd.current_bind_of_opens
  · intro token
    have simple {value : Stmt} (isLeaf : value.IsLeaf) (valued : value ≠ .giveBack none) :
        TracksEnd (Inside (count + 1))
          (advance >>= fun _ => endStatement >>= fun _ => pure value)
          (advance >>= fun _ => endStatement >>= fun _ => pure value) Takes :=
      TracksEnd.advance_bind (tracksEnd_endStatement isLeaf valued count)
    split
    · exact (tracksEnd_branch ends).narrow fun _ => And.left
    · exact (tracksEnd_whileLoop ends).narrow fun _ => And.left
    · exact (tracksEnd_forLoop ends).narrow fun _ => And.left
    · exact (TracksEnd.of_tracks (tracks_function ends)).narrow fun _ => And.left
    · exact tracksEnd_giveBack.narrow fun _ => And.left
    · exact (TracksEnd.of_tracks (tracks_block ends)).narrow fun _ => And.left
    · exact (simple ⟨rfl, fun _ => rfl⟩ (by rintro ⟨⟩)).narrow fun _ => And.left
    · exact (simple ⟨rfl, fun _ => rfl⟩ (by rintro ⟨⟩)).narrow fun _ => And.left
    · exact (TracksEnd.of_tracks (Tracks.advance_pure _)).narrow fun _ => And.left
    · rename_i spelling
      exact (tracksEnd_nameStatement spelling).narrow fun _ admitted =>
        ⟨admitted.1.1, admitted.2⟩
    · exact (tracksEnd_expressionStatement (count + 1)).narrow fun _ admitted => admitted.1.1
  · intro other _
    apply Follows.of_lost (Tame.advance.bind fun _ => .pure _)
    rintro common stream after value ⟨-, rfl⟩ inFront run -
    cases run
    have next : stream.advance.InFrontOf (Ending.marks terminator.tail) :=
      Stream.InFrontOf.advance_marks inFront |>.1
    exact ⟨next, .empty rfl⟩

end Statements

/-- What the terminator ends is read in front of every other ending. -/
theorem tracksEnd_statement (count : Nat) : TracksEnd (Within count) statement statement Takes := by
  induction count with
  | zero => exact ⟨tame_statement, fun fits => absurd fits (Nat.not_lt_zero _)⟩
  | succ count ih =>
    exact (tracksEnd_statementAround ih).congr tame_statement
      (fun _ => runOn_statement) fun _ => runOn_statement

end EventScript.Parser
