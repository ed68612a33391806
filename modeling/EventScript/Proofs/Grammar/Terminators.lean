import EventScript.Proofs.Grammar.Tracking

/-!
# Statements in front of their terminator

A statement that is ended by the semicolon behind a text is read in front of
other endings as well.  Inside the text nothing changes.  At its end the last
statement is closed by whatever follows, with two exceptions: a bare name is a
command only in front of a semicolon, and a return without a value is not read
at the end of the input.
-/

namespace EventScript

variable {other : Ending} {stream : Stream} {twin : Parser Stmt}

namespace Stmt

/-- The statement that a statement ends with: its last branch or the body of its
loop, in turn. -/
def leaf : Stmt → Stmt
  | .branch _ whenTrue none => whenTrue.leaf
  | .branch _ _ (some otherwise) => otherwise.leaf
  | .forLoop _ _ _ body => body.leaf
  | .whileLoop _ body => body.leaf
  | statement => statement

/-- A statement with another one in the place of its leaf. -/
def withLeaf : Stmt → Stmt → Stmt
  | .branch condition whenTrue none, replacement =>
    .branch condition (whenTrue.withLeaf replacement) none
  | .branch condition whenTrue (some otherwise), replacement =>
    .branch condition whenTrue (some (otherwise.withLeaf replacement))
  | .forLoop init condition step body, replacement =>
    .forLoop init condition step (body.withLeaf replacement)
  | .whileLoop condition body, replacement => .whileLoop condition (body.withLeaf replacement)
  | _, replacement => replacement

theorem withLeaf_leaf (statement : Stmt) : statement.withLeaf statement.leaf = statement := by
  fun_induction leaf statement with
  | case1 condition whenTrue ih => rw [withLeaf, ih]
  | case2 condition whenTrue otherwise ih => rw [withLeaf, ih]
  | case3 init condition step body ih => rw [withLeaf, ih]
  | case4 condition body ih => rw [withLeaf, ih]
  | case5 statement noBranch noChoice noFor noWhile =>
    unfold withLeaf
    split
    · exact absurd rfl (noBranch _ _)
    · exact absurd rfl (noChoice _ _ _)
    · exact absurd rfl (noFor _ _ _ _)
    · exact absurd rfl (noWhile _ _)
    · rfl

/-- A statement that is its own leaf. -/
structure IsLeaf (statement : Stmt) : Prop where
  leaf_eq : statement.leaf = statement
  withLeaf_eq : ∀ replacement, statement.withLeaf replacement = replacement

end Stmt

/-! ## Endings behind a statement -/

/-- The ending that terminates a statement. -/
abbrev terminator : Ending :=
  [.semicolon]

namespace Ending

/-- What remains of an ending behind a statement: a semicolon belongs to the
statement. -/
def behindStatement : Ending → Ending
  | .semicolon :: others => others
  | ending => ending

/-- How the leaf of a statement that a terminator has ended is read in front of
another ending.  A bare name is a command only in front of a semicolon, and a
return without a value is not read at the end of the input. -/
def reread (other : Ending) (bare : Bool) : Stmt → Option Stmt
  | .giveBack none => if other = [] then none else some (.giveBack none)
  | .command name [] =>
    if bare && other.token != .symbol .semicolon then some (.expression (.name name))
    else some (.command name [])
  | leaf => some leaf

/-- In front of a semicolon every leaf is read again as it is. -/
theorem reread_of_semicolon (atSemicolon : other.token = .symbol .semicolon) (bare : Bool)
    (leaf : Stmt) : other.reread bare leaf = some leaf := by
  have marked : other ≠ [] := by
    rintro rfl
    cases atSemicolon
  unfold reread
  split
  · rw [if_neg marked]
  · rw [atSemicolon, bne_self_eq_false, Bool.and_false]
    rfl
  · rfl

/-- In front of a mark every leaf but a bare name is read again as it is. -/
theorem reread_of_ne_nil (marked : other ≠ []) (leaf : Stmt) :
    other.reread false leaf = some leaf := by
  unfold reread
  split
  · rw [if_neg marked]
  · rfl
  · rfl

theorem reread_bare (elsewhere : other.token ≠ .symbol .semicolon) (name : String) :
    other.reread true (.command name []) = some (.expression (.name name)) := by
  rw [reread, bne_iff_ne.mpr elsewhere]
  rfl

theorem reread_false {leaf : Stmt} (valued : leaf ≠ .giveBack none) :
    other.reread false leaf = some leaf := by
  unfold reread
  split
  · exact absurd rfl valued
  · rfl
  · rfl

end Ending

theorem closes_terminator : terminator.Closes where
  noBrace := by rintro ⟨⟩
  once := by rintro ⟨⟩

theorem not_lost_terminator (stream : Stream) : ¬terminator.Lost stream := by
  rintro ⟨isParen, -⟩
  cases isParen

theorem past_terminator_iff : terminator.Past stream ↔ stream.InFrontOf [] := by
  constructor
  · rintro ⟨others, suffix, inFront⟩
    have isEnd : others = [] := List.suffix_nil.mp suffix
    subst isEnd
    exact inFront
  · intro inFront
    exact ⟨[], List.nil_suffix, inFront⟩

namespace Parser

variable {other parser : Parser Stmt} {value : Stmt}

/-- A parser that fails on a stream. -/
def Fails {α : Type} (parser : Parser α) (stream : Stream) : Prop :=
  ∃ error after, parser.runOn stream = (.error error, after)

theorem Fails.bind {α β : Type} {first : Parser α} (fails : Fails first stream)
    (second : α → Parser β) : Fails (first >>= second) stream := by
  rcases fails with ⟨error, after, ran⟩
  refine ⟨error, after, ?_⟩
  rw [runOn_bind, ran]

/-- What a twin reads in front of another ending, where the leaf of a statement is
known: the statement with that leaf up to what remains behind a statement, or
nothing. -/
def Concludes (other : Ending) (twin : Parser Stmt) (stream : Stream) (value : Stmt) :
    Option Stmt → Prop
  | some leaf => ∃ after : Stream, twin.runOn stream = (.ok (value.withLeaf leaf), after) ∧
      after.findings = stream.findings ∧ after.InFrontOf other.behindStatement.marks
  | none => Fails twin stream

theorem Concludes.congr {ending : Ending} {leaf : Option Stmt}
    (concludes : Concludes ending twin stream value leaf)
    (same : other.runOn stream = twin.runOn stream) : Concludes ending other stream value leaf := by
  cases leaf with
  | some leaf =>
    rw [Concludes, same]
    exact concludes
  | none =>
    rw [Concludes, Fails, same]
    exact concludes

/-- A statement that the terminator has ended, and how a twin reads it: it ends
with an empty statement, or with an unquoted argument that has taken in the
terminator, or it is read again in front of every other ending. -/
inductive Terminated (twin : Parser Stmt) (common : List Char) (value : Stmt) : Prop
  | empty (isEmpty : value.leaf = .empty)
  | overrun {name : String} {front : List Expr} {argument : List Char}
      (suffix : argument <:+ common) (leavesOpen : LeavesOpen argument)
      (isOverrun : value.leaf = .command name (front ++ [.text (terminator.overrun argument)]))
  | reread (bare : Bool)
      (named : bare = true → ∃ name front gap, value.leaf = .command name [] ∧
        common = front ++ name.toList ++ gap ∧ skipGap .blanks gap = .ok [])
      (twins : ∀ other : Ending, other.token ≠ .symbol .closeParen → ∀ stream : Stream,
        stream.InFrontOf (other.behind common) →
          Concludes other twin stream value (other.reread bare value.leaf))

/-- A parser and its twin on a text in front of the terminator: the twin reads the
same statement up to the same place, or the terminator has ended the
statement. -/
abbrev TracksEnd (domain : List Char → Prop) (parser twin : Parser Stmt) (way : Way Stmt) : Prop :=
  Follows terminator domain parser twin way fun common value after =>
    after.InFrontOf [] ∧ Terminated twin common value

namespace Terminated

variable {twin : Parser Stmt} {common rest : List Char} {value : Stmt}

theorem congr (terminated : Terminated twin common value)
    (same : ∀ ending : Ending, ∀ stream : Stream, stream.InFrontOf (ending.behind common) →
      other.runOn stream = twin.runOn stream) : Terminated other common value := by
  cases terminated with
  | empty isEmpty => exact .empty isEmpty
  | overrun suffix leavesOpen isOverrun => exact .overrun suffix leavesOpen isOverrun
  | reread bare named twins =>
    refine .reread bare named fun ending allowed stream inFront => ?_
    exact (twins ending allowed stream inFront).congr (same ending stream inFront)

/-- A statement behind something else of the text. -/
theorem of_arrives {α : Type} {first : Parser α} {second : α → Parser Stmt} {item : α}
    {middle : Stream} (arrives : Arrives terminator first common rest item middle)
    (terminated : Terminated (second item) rest value) :
    Terminated (first >>= second) common value := by
  cases terminated with
  | empty isEmpty => exact .empty isEmpty
  | overrun suffix leavesOpen isOverrun =>
    exact .overrun (suffix.trans arrives.suffix) leavesOpen isOverrun
  | reread bare named twins =>
    refine .reread bare ?_ fun other allowed stream inFront => ?_
    · intro isBare
      obtain ⟨name, front, gap, isLeaf, split, skipped⟩ := named isBare
      obtain ⟨passed, whole⟩ := arrives.suffix
      refine ⟨name, passed ++ front, gap, isLeaf, ?_, skipped⟩
      rw [← whole, split, List.append_assoc, List.append_assoc, List.append_assoc]
    · obtain ⟨between, ran, clean, inFrontRest⟩ := arrives.there other allowed stream inFront
      have concludes := twins other allowed between inFrontRest
      generalize other.reread bare value.leaf = leaf at concludes ⊢
      cases leaf with
      | some leaf =>
        obtain ⟨after, thenRan, thenClean, behind⟩ := concludes
        refine ⟨after, ?_, thenClean.trans clean, behind⟩
        rw [runOn_bind, ran]
        exact thenRan
      | none =>
        obtain ⟨error, after, thenRan⟩ := concludes
        refine ⟨error, after, ?_⟩
        rw [runOn_bind, ran]
        exact thenRan

/-- A statement inside another one that ends with it.  Behind the inner one the
twin reads nothing more. -/
theorem around {second : Stmt → Parser Stmt} {outer : Stmt → Stmt}
    (terminated : Terminated twin common value) (leaf_eq : (outer value).leaf = value.leaf)
    (withLeaf_eq : ∀ leaf, (outer value).withLeaf leaf = outer (value.withLeaf leaf))
    (stops : ∀ inner : Stmt, ∀ other : Ending, ∀ stream : Stream, stream.InFrontOf other.marks →
      (second inner).runOn stream = (.ok (outer inner), stream)) :
    Terminated (twin >>= second) common (outer value) := by
  cases terminated with
  | empty isEmpty => exact .empty (leaf_eq.trans isEmpty)
  | overrun suffix leavesOpen isOverrun =>
    exact .overrun suffix leavesOpen (leaf_eq.trans isOverrun)
  | reread bare named twins =>
    rw [← leaf_eq] at named
    refine .reread bare named fun other allowed stream inFront => ?_
    have concludes := twins other allowed stream inFront
    rw [← leaf_eq] at concludes
    generalize other.reread bare (outer value).leaf = leaf at concludes ⊢
    cases leaf with
    | some leaf =>
      obtain ⟨after, ran, clean, behind⟩ := concludes
      refine ⟨after, ?_, clean, behind⟩
      rw [runOn_bind, ran, withLeaf_eq]
      exact stops _ _ after behind
    | none => exact concludes.bind second

end Terminated

/-- A stream behind the terminator. -/
abbrev AtEnd {α : Type} : List Char → α → Stream → Prop :=
  fun _ _ after => after.InFrontOf []

/-- No parenthesis begins the terminator, so nothing is lost behind one. -/
theorem Tracks.follows_terminator {α : Type} {domain : List Char → Prop} {parser twin : Parser α}
    {way : Way α} {lost : List Char → α → Stream → Prop}
    (tracks : Tracks terminator domain parser twin way) :
    Follows terminator domain parser twin way lost :=
  Follows.mono tracks (fun _ => id) (fun _ _ _ => id)
    fun _ _ _ isLost => absurd isLost (not_lost_terminator _)

namespace TracksEnd

variable {α : Type} {domain : List Char → Prop} {count : Nat}

theorem of_tracks {way : Way Stmt} (tracks : Tracks terminator domain parser twin way) :
    TracksEnd domain parser twin way :=
  tracks.follows_terminator

theorem anywhere {way : Way Stmt} (ends : TracksEnd domain parser twin way) :
    TracksEnd domain parser twin Anywhere :=
  ends.mono (fun _ => id) (fun _ _ _ _ => trivial) fun _ _ _ => id

theorem narrow {narrow : List Char → Prop} {way : Way Stmt}
    (ends : TracksEnd domain parser twin way) (within : ∀ common, narrow common → domain common) :
    TracksEnd narrow parser twin way :=
  ends.mono within (fun _ _ _ => id) fun _ _ _ => id

/-- Only what a parser does in front of a token counts. -/
theorem congr {otherTwin : Parser Stmt} {way : Way Stmt} (ends : TracksEnd domain parser twin way)
    (tame : Tame other)
    (same : ∀ stream : Stream, stream.Standing → other.runOn stream = parser.runOn stream)
    (sameTwin : ∀ stream : Stream, stream.Standing → otherTwin.runOn stream = twin.runOn stream) :
    TracksEnd domain other otherTwin way where
  tame := tame
  follows := by
    intro common stream after value admitted inFront run clean
    rw [same stream inFront.standing] at run
    rcases ends.follows admitted inFront run clean with
      ⟨atEnd, terminated⟩ | ⟨rest, goes, suffix, here, there⟩
    · exact Or.inl ⟨atEnd, terminated.congr fun _ twin inFront => sameTwin twin inFront.standing⟩
    · refine Or.inr ⟨rest, goes, suffix, here, ?_⟩
      intro ending allowed twin twinInFront
      rw [sameTwin twin twinInFront.standing]
      exact there ending allowed twin twinInFront

section Sequences

variable {first firstTwin : Parser α} {second secondTwin : α → Parser Stmt}

theorem bind (later : List Char → Prop) {way : Way α} (thenWay : Way Stmt) {whole : Way Stmt}
    (tracks : Tracks terminator domain first firstTwin way)
    (ends : ∀ value, TracksEnd later (second value) (secondTwin value) thenWay)
    (stays : ∀ {common rest : List Char} {value : α}, domain common → rest <:+ common →
      way value common rest → later rest)
    (joins : ∀ {common middle rest : List Char} {value : α} {result : Stmt}, middle <:+ common →
      rest <:+ middle → way value common middle → thenWay result middle rest →
        whole result common rest) :
    TracksEnd domain (first >>= second) (firstTwin >>= secondTwin) whole :=
  Follows.bind_of_resumes (fun _ => later) thenWay tracks ends stays joins
    (fun isLost => absurd isLost (not_lost_terminator _))
    fun arrives terminated => ⟨terminated.1, terminated.2.of_arrives arrives⟩

/-- A statement behind something that takes a part of the text. -/
theorem bind_left {thenWay : Way Stmt}
    (tracks : Tracks terminator (Within count) first firstTwin Takes)
    (ends : ∀ value, TracksEnd (Within count) (second value) (secondTwin value) thenWay) :
    TracksEnd (Within count) (first >>= second) (firstTwin >>= secondTwin) Takes :=
  bind (Within count) thenWay tracks ends (fun fits suffix _ => Nat.lt_of_le_of_lt suffix.length_le fits)
    fun _ suffix shorter _ => Nat.lt_of_le_of_lt suffix.length_le shorter

/-- A statement that begins inside the text, with something in front. -/
theorem bind_inside {thenWay : Way Stmt}
    (tracks : Tracks terminator (Inside (count + 1)) first
      firstTwin Takes)
    (ends : ∀ value, TracksEnd (Within count) (second value) (secondTwin value) thenWay) :
    TracksEnd (Inside (count + 1)) (first >>= second)
      (firstTwin >>= secondTwin) Takes :=
  bind (Within count) thenWay tracks ends
    (fun fits _ shorter => Nat.lt_of_lt_of_le shorter (Nat.le_of_lt_succ fits.1))
    fun _ suffix shorter _ => Nat.lt_of_le_of_lt suffix.length_le shorter

end Sequences

/-- What may take in the terminator, in front of a statement that needs more than
that. -/
theorem bind_of_fails {first firstTwin : Parser α} {second secondTwin : α → Parser Stmt}
    {thenWay : Way Stmt} (follows : Follows terminator (Within count) first firstTwin Takes AtEnd)
    (ends : ∀ value, TracksEnd (Within count) (second value) (secondTwin value) thenWay)
    (fails : ∀ value stream, stream.InFrontOf [] → Fails (second value) stream) :
    TracksEnd (Within count) (first >>= second) (firstTwin >>= secondTwin) Takes := by
  refine Follows.bind_of_resumes (fun _ => Within count) thenWay follows ends
    (fun fits suffix _ => Nat.lt_of_le_of_lt suffix.length_le fits)
    (fun _ suffix shorter _ => Nat.lt_of_le_of_lt suffix.length_le shorter) ?_
    fun arrives terminated => ⟨terminated.1, terminated.2.of_arrives arrives⟩
  intro common value middle after result atEnd run
  obtain ⟨error, failed, ran⟩ := fails value middle atEnd
  rw [ran] at run
  cases run

theorem advance_bind {second secondTwin : Unit → Parser Stmt} {thenWay : Way Stmt}
    (ends : TracksEnd (Within count) (second ()) (secondTwin ()) thenWay) :
    TracksEnd (Inside (count + 1)) (advance >>= second)
      (advance >>= secondTwin) Takes :=
  bind_inside (Follows.advance.mono (fun _ => And.right) (fun _ _ _ => id) fun _ _ _ => False.elim)
    fun _ => ends

theorem advance_bind_fewer {second secondTwin : Unit → Parser Stmt} {thenWay : Way Stmt}
    (ends : TracksEnd (Within count) (second ()) (secondTwin ()) thenWay) :
    TracksEnd (Inside count) (advance >>= second)
      (advance >>= secondTwin) Takes :=
  (advance_bind ends).narrow fun _ admitted => ⟨Nat.lt_succ_of_lt admitted.1, admitted.2⟩

/-- A statement that ends with another one: behind that one there is nothing more
to read in front of an ending. -/
theorem bind_around {inner : Parser Stmt} {second secondTwin : Stmt → Parser Stmt} {way : Way Stmt}
    (outer : Stmt → Stmt) (ends : TracksEnd (Within count) inner twin way)
    (thenEnds : ∀ value, TracksEnd (Within count) (second value) (secondTwin value) Anywhere)
    (leaf_eq : ∀ value, (outer value).leaf = value.leaf)
    (withLeaf_eq : ∀ value leaf, (outer value).withLeaf leaf = outer (value.withLeaf leaf))
    (stops : ∀ value : Stmt, ∀ other : Ending, ∀ stream : Stream, stream.InFrontOf other.marks →
      (second value).runOn stream = (.ok (outer value), stream))
    (stopsTwin : ∀ value : Stmt, ∀ other : Ending, ∀ stream : Stream,
      stream.InFrontOf other.marks → (secondTwin value).runOn stream = (.ok (outer value), stream)) :
    TracksEnd (Within count) (inner >>= second) (twin >>= secondTwin) Anywhere := by
  refine Follows.bind_of_resumes (fun _ => Within count) Anywhere ends thenEnds
    (fun fits suffix _ => Nat.lt_of_le_of_lt suffix.length_le fits) (fun _ _ _ _ => trivial) ?_
    fun arrives terminated => ⟨terminated.1, terminated.2.of_arrives arrives⟩
  rintro common value middle after result ⟨atEnd, terminated⟩ run
  rw [stops value [] middle atEnd] at run
  cases run
  exact ⟨atEnd, terminated.around (leaf_eq value) (withLeaf_eq value) stopsTwin⟩

/-- A statement of which it is looked at the first token. -/
theorem current_bind_of_opens {second secondTwin : Token → Parser Stmt} {way : Way Stmt}
    (inside : ∀ token, TracksEnd
      (fun common => (domain common ∧ common ≠ []) ∧ ∃ rest, Ending.Opens common token rest)
      (second token) (secondTwin token) way)
    (atEnd : ∀ other : Ending, other.token ≠ .symbol .closeParen →
      Follows terminator (fun common => domain common ∧ common = []) (second (.symbol .semicolon))
        (secondTwin other.token) way fun common value after =>
          after.InFrontOf [] ∧ Terminated (current >>= secondTwin) common value) :
    TracksEnd domain (current >>= second) (current >>= secondTwin) way := by
  refine Follows.current_bind_of_resumes inside ?_ atEnd
  rintro common token value after ⟨rest, opens⟩ ⟨isEnd, terminated⟩
  refine ⟨isEnd, terminated.congr fun ending stream inFront => ?_⟩
  rw [runOn_bind, runOn_current, opens.current inFront]

theorem current_bind {second secondTwin : Token → Parser Stmt} {way : Way Stmt}
    (inside : ∀ token, TracksEnd (fun common => domain common ∧ common ≠ []) (second token)
      (secondTwin token) way)
    (atEnd : ∀ other : Ending, other.token ≠ .symbol .closeParen →
      Follows terminator (fun common => domain common ∧ common = []) (second (.symbol .semicolon))
        (secondTwin other.token) way fun common value after =>
          after.InFrontOf [] ∧ Terminated (current >>= secondTwin) common value) :
    TracksEnd domain (current >>= second) (current >>= secondTwin) way :=
  current_bind_of_opens (fun token => (inside token).narrow fun _ => And.left) atEnd

end TracksEnd

/-! ## The end of a statement -/

/-- Every ending closes a statement. -/
theorem exists_endStatement {other : Ending} (allowed : other.token ≠ .symbol .closeParen)
    (inFront : stream.InFrontOf other.marks) :
    ∃ after : Stream, endStatement.runOn stream = (.ok (), after) ∧
      after.findings = stream.findings ∧ after.InFrontOf other.behindStatement.marks := by
  rw [endStatement, runOn_bind, runOn_current, inFront.reads_marks.1]
  cases other with
  | nil => exact ⟨stream, rfl, rfl, inFront⟩
  | cons mark others =>
    cases mark with
    | semicolon =>
      obtain ⟨next, clean⟩ := inFront.advance_marks
      exact ⟨stream.advance, rfl, clean, next⟩
    | closeBrace => exact ⟨stream, rfl, rfl, inFront⟩
    | closeParen => exact absurd rfl allowed

theorem concludes_endStatement (isLeaf : value.IsLeaf) {other : Ending}
    (allowed : other.token ≠ .symbol .closeParen) (inFront : stream.InFrontOf other.marks) :
    Concludes other (endStatement >>= fun _ => pure value) stream value (some value) := by
  obtain ⟨after, ran, clean, behind⟩ := exists_endStatement allowed inFront
  refine ⟨after, ?_, clean, behind⟩
  rw [runOn_bind, ran, isLeaf.withLeaf_eq]
  rfl

/-- Inside a text the end of a statement is the same with every ending. -/
theorem tracks_endStatement (value : Stmt) (count : Nat) :
    Tracks terminator (Inside count)
      (endStatement >>= fun _ => pure value) (endStatement >>= fun _ => pure value) Anywhere := by
  rw [endStatement, bind_assoc]
  apply Follows.current_bind_inside fun _ => And.right
  intro token
  split
  · exact (Tracks.advance_pure value).anywhere
  · exact Follows.pure _
  · exact Follows.pure _
  · exact Follows.fail _

/-- A statement that ends with itself. -/
theorem tracksEnd_endStatement (isLeaf : value.IsLeaf) (valued : value ≠ .giveBack none)
    (count : Nat) :
    TracksEnd (Within count) (endStatement >>= fun _ => pure value)
      (endStatement >>= fun _ => pure value) Anywhere := by
  apply Follows.of_cases (· = [])
  · apply Follows.of_lost (tame_endStatement.bind fun _ => .pure value)
    rintro common stream after result ⟨-, rfl⟩ inFront run -
    obtain ⟨atEnd, ran, -, behind⟩ := exists_endStatement (by rintro ⟨⟩) inFront
    rw [runOn_bind, ran] at run
    cases run
    refine ⟨behind, .reread false (by rintro ⟨⟩) fun other allowed twin twinInFront => ?_⟩
    rw [isLeaf.leaf_eq, Ending.reread_false valued]
    exact concludes_endStatement isLeaf allowed twinInFront
  · exact TracksEnd.of_tracks (tracks_endStatement value count)

end Parser

end EventScript
