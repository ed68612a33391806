import EventScript.Proofs.Lexing.Walks
import EventScript.Proofs.Parser.Tame
import EventScript.Stmt.Parse

/-!
# Going back to the current token

A stream keeps its token, the place where the token begins and the place behind
it apart from each other, and it reads an unquoted argument from the former
place.  Whatever was done with the stream before, scanning from there yields the
token again and comes to the place behind it.  So the source falls into pieces
that were read once each: gaps, tokens that were stepped over, unquoted arguments
that were taken, and faults, which are reported where they stand.
-/

namespace EventScript

variable {cursor : Cursor}

namespace Cursor

theorem upTo_upTo {middle rest : List Char} (behind : middle <:+ cursor.rest)
    (later : rest <:+ middle) : (cursor.upTo middle).upTo rest = cursor.upTo rest := by
  obtain ⟨between, rfl⟩ := later
  obtain ⟨passed, split⟩ := behind
  rw [← List.append_assoc] at split
  rw [upTo_of_rest_eq_append (cursor.upTo_rest _), upTo_of_rest_eq_append split.symm,
    upTo_of_rest_eq_append ((List.append_assoc _ _ _).symm.trans split).symm, byteLength_append,
    List.count_append, Nat.add_assoc, Nat.add_assoc]

/-- A scan from where another one begins comes to the same. -/
theorem scan_scan_start (cursor : Cursor) : cursor.scan.start.scan = cursor.scan := by
  cases gap : skipGap .blanks cursor.rest with
  | error opening =>
    obtain ⟨front, _, split, -, -, unclosed⟩ := exists_isGap_of_error gap
    have scanned : cursor.scan = ⟨.error (.unterminated (cursor.upTo opening).line .comment),
        cursor.upTo opening, cursor.upTo []⟩ := by rw [scan, gap]
    rw [scanned, scan, upTo_rest, unclosed]
    dsimp only
    rw [upTo_upTo ⟨front, split.symm⟩ List.nil_suffix,
      upTo_upTo ⟨front, split.symm⟩ (List.suffix_refl _)]
  | ok rest =>
    have behind := isSuffix_of_skipGap gap
    have scanned : cursor.scan =
        ⟨(readToken rest).1.mapError (Fault.atLine (cursor.upTo rest).line), cursor.upTo rest,
          (cursor.upTo rest).upTo (readToken rest).2⟩ := by rw [scan, gap]
    rw [scanned, scan, upTo_rest, skipGap_of_skipGap gap]
    dsimp only
    rw [upTo_upTo behind (List.suffix_refl _)]

theorem scan_next_isSuffix_start (cursor : Cursor) :
    cursor.scan.next.rest <:+ cursor.scan.start.rest := by
  rw [scan]
  split
  · exact List.nil_suffix
  · exact isSuffix_of_readToken _

end Cursor

/-! ## Pieces of a source -/

/-- A piece of a source, or a remark on it that takes no text. -/
inductive Fragment where
  /-- Blanks and comments. -/
  | gap (text : List Char)
  | token (word : List Char) (token : Token)
  | argument (text : List Char)
  | fault (text : List Char) (finding : Finding)
  | remark (finding : Finding)

namespace Fragment

def text : Fragment → List Char
  | gap text => text
  | token word _ => word
  | argument text => text
  | fault text _ => text
  | remark _ => []

/-- The unquoted argument that a piece is read as. -/
def argument? : Fragment → Option String
  | argument text => some (String.ofList (Text.trimChars text))
  | _ => none

/-- A finding that does not come from the text. -/
def remark? : Fragment → Option Finding
  | remark finding => some finding
  | _ => none

def finding? : Fragment → Option Finding
  | fault _ finding => some finding
  | remark finding => some finding
  | _ => none

/-- A piece stands between two places of a source, and reading from the first of
them comes to the second. -/
inductive Spans : Cursor → Fragment → Cursor → Prop
  | gap {cursor : Cursor} {text : List Char}
      (split : cursor.rest = text ++ cursor.scan.start.rest) :
      Spans cursor (.gap text) cursor.scan.start
  | token {cursor next : Cursor} {word : List Char} {token : Token}
      (scanned : cursor.scan = ⟨.ok token, cursor, next⟩)
      (split : cursor.rest = word ++ next.rest) : Spans cursor (.token word token) next
  | argument {cursor : Cursor} {text : List Char}
      (split : cursor.rest = text ++ cursor.rawArgument.2.rest) :
      Spans cursor (.argument text) cursor.rawArgument.2
  | fault {cursor next : Cursor} {text : List Char} {error : ScriptError}
      (scanned : cursor.scan = ⟨.error error, cursor, next⟩)
      (split : cursor.rest = text ++ next.rest) (nonempty : text ≠ []) :
      Spans cursor (.fault text error.finding) next
  | remark {cursor : Cursor} (finding : Finding) : Spans cursor (.remark finding) cursor

/-- Pieces one behind the other, from one place of a source to another. -/
inductive Tiles : Cursor → List Fragment → Cursor → Prop
  | nil (cursor : Cursor) : Tiles cursor [] cursor
  | cons {cursor next last : Cursor} {piece : Fragment} {pieces : List Fragment}
      (spans : Spans cursor piece next) (others : Tiles next pieces last) :
      Tiles cursor (piece :: pieces) last

variable {source : List Char} {cursor next last : Cursor} {piece : Fragment}
  {pieces others : List Fragment}

theorem Spans.rest_eq (spans : Spans cursor piece next) : cursor.rest = piece.text ++ next.rest := by
  cases spans with
  | gap split | token _ split | argument split | fault _ split => exact split
  | remark => rfl

theorem Spans.isPlaceOf (spans : Spans cursor piece next) (place : cursor.IsPlaceOf source) :
    next.IsPlaceOf source := by
  cases spans with
  | gap => exact place.scan_start
  | token scanned | fault scanned =>
    have behind := place.scan_next
    rwa [scanned] at behind
  | argument => exact place.rawArgument
  | remark => exact place

theorem Tiles.single (spans : Spans cursor piece next) : Tiles cursor [piece] next :=
  .cons spans (.nil next)

theorem Tiles.append (tiles : Tiles cursor pieces next) (behind : Tiles next others last) :
    Tiles cursor (pieces ++ others) last := by
  induction tiles with
  | nil => exact behind
  | cons spans _ ih => exact .cons spans (ih behind)

/-- Nothing is left out between the pieces, and nothing belongs to two of them. -/
theorem Tiles.rest_eq (tiles : Tiles cursor pieces last) :
    cursor.rest = pieces.flatMap text ++ last.rest := by
  induction tiles with
  | nil => rfl
  | cons spans _ ih => rw [spans.rest_eq, ih, List.flatMap_cons, List.append_assoc]

theorem Tiles.isPlaceOf (tiles : Tiles cursor pieces last) (place : cursor.IsPlaceOf source) :
    last.IsPlaceOf source := by
  induction tiles with
  | nil => exact place
  | cons spans _ ih => exact ih (spans.isPlaceOf place)

/-- Pieces lead onward by their bytes. -/
theorem Tiles.offset_eq (tiles : Tiles cursor pieces last) (place : cursor.IsPlaceOf source) :
    last.offset = cursor.offset + byteLength (pieces.flatMap text) := by
  obtain ⟨lastPassed, lastSplit, lastOffset_eq, -⟩ := tiles.isPlaceOf place
  obtain ⟨passed, split, offset_eq, -⟩ := place
  rw [tiles.rest_eq, ← List.append_assoc] at split
  rw [lastOffset_eq, List.append_cancel_right (lastSplit.symm.trans split), byteLength_append,
    offset_eq]

end Fragment

/-! ## Reading in pieces -/

open Fragment in
/-- The text from a place to the current token of a stream was read in pieces, each
of them once.  The given arguments and remarks are among them, and what was found
since is what the pieces tell: the faults of the text, where they stand, and the
remarks. -/
def ReadOnce (cursor : Cursor) (findings : List Finding) (arguments : List String)
    (remarks : List Finding) (stream : Stream) : Prop :=
  ∃ pieces : List Fragment, Tiles cursor pieces stream.start ∧
    cursor.rest = pieces.flatMap text ++ stream.start.rest ∧
    pieces.filterMap argument? = arguments ∧ pieces.filterMap remark? = remarks ∧
    stream.findings = findings ++ pieces.filterMap finding?

namespace ReadOnce

variable {cursor : Cursor} {findings remarks otherRemarks : List Finding}
  {arguments others : List String} {stream later : Stream}

theorem refl (stream : Stream) : ReadOnce stream.start stream.findings [] [] stream :=
  ⟨[], .nil _, rfl, rfl, rfl, (List.append_nil _).symm⟩

theorem trans (once : ReadOnce cursor findings arguments remarks stream)
    (onward : ReadOnce stream.start stream.findings others otherRemarks later) :
    ReadOnce cursor findings (arguments ++ others) (remarks ++ otherRemarks) later := by
  obtain ⟨pieces, tiles, -, rfl, rfl, found⟩ := once
  obtain ⟨more, moreTiles, -, rfl, rfl, moreFound⟩ := onward
  have whole := tiles.append moreTiles
  refine ⟨_, whole, whole.rest_eq, List.filterMap_append, List.filterMap_append, ?_⟩
  rw [moreFound, found, List.append_assoc, List.filterMap_append]

end ReadOnce

namespace Stream

/-- Reading from a place to the next token passes gaps and faults. -/
theorem readOnce_seek {bound : Nat} (enough : cursor.rest.length < bound) (findings : List Finding) :
    ReadOnce cursor findings [] [] (seek bound cursor findings) := by
  induction bound generalizing cursor findings with
  | zero => cases enough
  | succ bound ih =>
    obtain ⟨gap, gapSplit⟩ := cursor.scan_located.1
    have spansGap := Fragment.Spans.gap gapSplit.symm
    rw [seek]
    split
    · have whole := Fragment.Tiles.single spansGap
      exact ⟨_, whole, whole.rest_eq, rfl, rfl, (List.append_nil _).symm⟩
    · rename_i error scanned
      have again : cursor.scan.start.scan =
          ⟨.error error, cursor.scan.start, cursor.scan.next⟩ := by
        rw [cursor.scan_scan_start, ← scanned]
      have shorter := Cursor.length_next_lt cursor.scanned_scan scanned
      obtain ⟨text, split⟩ := cursor.scan_next_isSuffix_start
      have nonempty : text ≠ [] := by
        rintro rfl
        have onward := Cursor.length_next_lt cursor.scan.start.scanned_scan
          (congrArg Scan.outcome again)
        rw [again, ← split] at onward
        exact Nat.lt_irrefl _ onward
      obtain ⟨pieces, tiles, -, noArguments, noRemarks, found⟩ :=
        ih (Nat.lt_of_lt_of_le shorter (Nat.le_of_lt_succ enough)) (findings ++ [error.finding])
      have whole := Fragment.Tiles.cons spansGap (.cons (.fault again split.symm nonempty) tiles)
      refine ⟨_, whole, whole.rest_eq, noArguments, noRemarks, ?_⟩
      rw [found, List.append_assoc]
      rfl

theorem readOnce_readFrom (cursor : Cursor) (findings : List Finding) :
    ReadOnce cursor findings [] [] (readFrom cursor findings) :=
  readOnce_seek (Nat.lt_succ_self _) findings

/-- A stream that yields its token again, read from where the token begins. -/
def Rewinds (stream : Stream) : Prop :=
  stream.start.scan = ⟨.ok stream.current, stream.start, stream.next⟩

theorem rewinds_seek {bound : Nat} (enough : cursor.rest.length < bound) (findings : List Finding) :
    (seek bound cursor findings).Rewinds := by
  induction bound generalizing cursor findings with
  | zero => cases enough
  | succ bound ih =>
    rw [seek]
    split
    · rename_i token scanned
      rw [Rewinds, cursor.scan_scan_start, ← scanned]
    · rename_i error scanned
      have shorter := Cursor.length_next_lt cursor.scanned_scan scanned
      exact ih (Nat.lt_of_lt_of_le shorter (Nat.le_of_lt_succ enough)) _

theorem rewinds_readFrom (cursor : Cursor) (findings : List Finding) :
    (readFrom cursor findings).Rewinds :=
  rewinds_seek (Nat.lt_succ_self _) findings

variable {stream : Stream}

/-- Stepping on passes the current token. -/
theorem Rewinds.readOnce_advance (rewinds : stream.Rewinds) :
    ReadOnce stream.start stream.findings [] [] stream.advance := by
  obtain ⟨word, split⟩ : stream.next.rest <:+ stream.start.rest := by
    have behind := stream.start.scan_next_isSuffix_start
    rwa [rewinds] at behind
  obtain ⟨pieces, tiles, -, noArguments, noRemarks, found⟩ :=
    readOnce_readFrom stream.next stream.findings
  have whole := Fragment.Tiles.cons (.token rewinds split.symm) tiles
  exact ⟨_, whole, whole.rest_eq, noArguments, noRemarks, found⟩

/-- An unquoted argument begins where the current token begins, and takes the place
of the token. -/
theorem readOnce_takeRaw (stream : Stream) :
    ReadOnce stream.start stream.findings [stream.takeRaw.1] [] stream.takeRaw.2 := by
  have split := (spanRaw_append 0 false stream.start.rest).symm
  obtain ⟨pieces, tiles, -, noArguments, noRemarks, found⟩ :=
    readOnce_readFrom stream.start.rawArgument.2 stream.findings
  have whole := Fragment.Tiles.cons (.argument split) tiles
  refine ⟨_, whole, whole.rest_eq, ?_, noRemarks, found⟩
  rw [List.filterMap_cons, noArguments]
  rfl

theorem readOnce_report (stream : Stream) (finding : Finding) :
    ReadOnce stream.start stream.findings [] [finding] (stream.report finding) :=
  ⟨[.remark finding], .single (.remark finding), rfl, rfl, rfl, rfl⟩

end Stream

theorem Parser.upholds_skipStatement {invariant : Stream → Prop}
    (advances : ∀ stream, invariant stream → invariant stream.advance) :
    Upholds invariant skipStatement fun _ => True := by
  refine Upholds.loop (fun _ _ => ?_) trivial
  intro stream holds
  rw [runOn_bind, runOn_current]
  dsimp only
  split
  · exact ⟨advances stream holds, fun _ _ _ _ => trivial⟩
  · exact ⟨holds, fun _ _ _ _ => trivial⟩
  · exact ⟨holds, fun _ _ _ _ => trivial⟩
  · exact ⟨advances stream holds, fun _ _ _ _ => trivial⟩

/-! ## Moves -/

/-- What is done with a stream while a script is read. -/
inductive Move where
  | advance
  | accept (token : Token)
  | expect (token : Token) (expectation : Expectation)
  | takeRaw
  | skipStatement
  | report (finding : Finding)

def Move.remark? : Move → Option Finding
  | .report finding => some finding
  | _ => none

namespace Stream

/-- The stream behind a move, whether the move succeeds or fails. -/
def moved (stream : Stream) : Move → Stream
  | .advance => (Parser.advance.runOn stream).2
  | .accept token => ((Parser.accept token).runOn stream).2
  | .expect token expectation => ((Parser.expect token expectation).runOn stream).2
  | .takeRaw => (Parser.takeRaw.runOn stream).2
  | .skipStatement => (Parser.skipStatement.runOn stream).2
  | .report finding => stream.report finding

/-- The unquoted arguments that a move returns. -/
def taken (stream : Stream) : Move → List String
  | .takeRaw => [stream.takeRaw.1]
  | _ => []

/-- The stream behind several moves. -/
def movedBy (stream : Stream) (moves : List Move) : Stream :=
  moves.foldl moved stream

/-- The unquoted arguments that several moves return. -/
def takenBy : Stream → List Move → List String
  | _, [] => []
  | stream, move :: moves => stream.taken move ++ (stream.moved move).takenBy moves

variable {stream : Stream}

/-- A move reads on, and leaves a stream that can go back to its token. -/
theorem Rewinds.moved (rewinds : stream.Rewinds) (move : Move) :
    (stream.moved move).Rewinds ∧
      ReadOnce stream.start stream.findings (stream.taken move)
        ([move].filterMap Move.remark?) (stream.moved move) := by
  have stays : stream.Rewinds ∧ ReadOnce stream.start stream.findings [] [] stream :=
    ⟨rewinds, .refl stream⟩
  have advances : stream.advance.Rewinds ∧
      ReadOnce stream.start stream.findings [] [] stream.advance :=
    ⟨rewinds_readFrom _ _, rewinds.readOnce_advance⟩
  cases move with
  | advance => exact advances
  | accept token =>
    rw [Stream.moved, Parser.runOn_accept]
    split
    · exact advances
    · exact stays
  | expect token expectation =>
    rw [Stream.moved, Parser.runOn_expect]
    split
    · exact advances
    · exact stays
  | takeRaw => exact ⟨rewinds_readFrom _ _, stream.readOnce_takeRaw⟩
  | skipStatement =>
    have keeps : Parser.Upholds (fun later => later.Rewinds ∧
        ReadOnce stream.start stream.findings [] [] later) Parser.skipStatement fun _ => True := by
      apply Parser.upholds_skipStatement
      rintro later ⟨laterRewinds, once⟩
      exact ⟨rewinds_readFrom _ _, once.trans laterRewinds.readOnce_advance⟩
    exact (keeps stream stays).1
  | report finding => exact ⟨rewinds, stream.readOnce_report finding⟩

/-- What one move keeps, a run of moves keeps. -/
theorem Rewinds.movedBy (rewinds : stream.Rewinds) (moves : List Move) :
    (stream.movedBy moves).Rewinds ∧
      ReadOnce stream.start stream.findings (stream.takenBy moves) (moves.filterMap Move.remark?)
        (stream.movedBy moves) := by
  induction moves generalizing stream with
  | nil => exact ⟨rewinds, .refl stream⟩
  | cons move moves ih =>
    obtain ⟨movedRewinds, once⟩ := rewinds.moved move
    obtain ⟨lastRewinds, others⟩ := ih movedRewinds
    refine ⟨lastRewinds, ?_⟩
    rw [← List.singleton_append, List.filterMap_append]
    exact once.trans others

/-- The rules of the grammar make such moves and no others. -/
theorem exists_movedBy_of_tame {α : Type} {parser : Parser α} (tame : Parser.Tame parser)
    (stream : Stream) : ∃ moves, (parser.runOn stream).2 = stream.movedBy moves := by
  have lasting : Parser.Lasting fun later => ∃ moves, later = stream.movedBy moves := by
    have extended {later : Stream} (reached : ∃ moves, later = stream.movedBy moves)
        (move : Move) : ∃ moves, later.moved move = stream.movedBy moves := by
      obtain ⟨moves, rfl⟩ := reached
      refine ⟨moves ++ [move], ?_⟩
      rw [Stream.movedBy, Stream.movedBy, List.foldl_append]
      rfl
    exact ⟨fun _ reached => extended reached .advance, fun _ reached => extended reached .takeRaw,
      fun _ finding _ reached => extended reached (.report finding)⟩
  exact (tame.upholds lasting stream ⟨[], rfl⟩).1

/-- Whatever was done with a stream over a source, it can go back to its current
token: a cursor that is reset to the offset and the line where the token begins
reads this token again, and it is then where the stream reads on.  That place lies
between two characters of the source, on the line that the line feeds in front of
it count, and it never moves back.  So the source up to the current token was read
in pieces, each of them once, and further moves add pieces behind them: unquoted
arguments are pieces of their own, and every fault of the text is reported with the
piece where it stands. -/
theorem rewinds_movedBy (source : List Char) (moves : List Move) :
    let stream := (ofText source).movedBy moves
    let rewound := Cursor.atOffset source stream.start.offset stream.start.line
    rewound.scan = ⟨.ok stream.current, stream.start, stream.next⟩ ∧
      stream.start.IsPlaceOf source ∧
      stream.takeRaw = (rewound.rawArgument.1, readFrom rewound.rawArgument.2 stream.findings) ∧
      ReadOnce (.ofText source) [] ((ofText source).takenBy moves) (moves.filterMap Move.remark?)
        stream ∧
      (∀ more, stream.start.offset ≤ (stream.movedBy more).start.offset ∧
        ReadOnce stream.start stream.findings (stream.takenBy more) (more.filterMap Move.remark?)
          (stream.movedBy more)) ∧
      ∀ (α : Type) (parser : Parser α), Parser.Tame parser →
        ∃ more, (parser.runOn stream).2 = stream.movedBy more := by
  intro stream rewound
  obtain ⟨rewinds, onward⟩ : stream.Rewinds ∧ ReadOnce (ofText source).start
      (ofText source).findings ((ofText source).takenBy moves) (moves.filterMap Move.remark?)
      stream :=
    (rewinds_readFrom (.ofText source) []).movedBy moves
  have once : ReadOnce (.ofText source) [] ((ofText source).takenBy moves)
      (moves.filterMap Move.remark?) stream :=
    (readOnce_readFrom (.ofText source) []).trans onward
  have place : stream.start.IsPlaceOf source := by
    obtain ⟨pieces, tiles, -⟩ := once
    exact tiles.isPlaceOf (Cursor.isPlaceOf_ofText source)
  have isStart : rewound = stream.start := place.atOffset_eq
  refine ⟨?_, place, ?_, once, fun more => ?_, fun _ _ tame => exists_movedBy_of_tame tame stream⟩
  · rw [isStart]
    exact rewinds
  · rw [isStart]
    rfl
  · obtain ⟨-, further⟩ := rewinds.movedBy more
    refine ⟨?_, further⟩
    obtain ⟨pieces, tiles, -⟩ := further
    rw [tiles.offset_eq place]
    exact Nat.le_add_right _ _

end Stream

end EventScript
