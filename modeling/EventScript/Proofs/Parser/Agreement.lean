import EventScript.Proofs.Lexing.Standing
import EventScript.Proofs.Parser.Tame

/-!
# Parsers that agree

Two parsers agree on a domain of streams if they do the same there.  Agreement
passes through every way to put parsers together, as long as the steps in front
stay in the domain.  The domains of interest are the streams with few characters
left: a step over a token leaves fewer.
-/

namespace EventScript

namespace Stream

variable {count : Nat}

theorem isSuffix_seek (bound : Nat) (cursor : Cursor) (findings : List Finding) :
    (seek bound cursor findings).start.rest <:+ cursor.rest := by
  induction bound generalizing cursor findings with
  | zero => exact List.suffix_refl _
  | succ bound ih =>
    have scanned := cursor.scanned_scan
    rw [seek]
    generalize cursor.scan = scan at scanned
    cases scanned with
    | token gap read => exact isSuffix_of_skipGap gap
    | unexpected gap read behind =>
      apply (ih _ _).trans
      rw [behind]
      exact (List.suffix_cons _ _).trans (isSuffix_of_skipGap gap)
    | openText gap read nonempty behind | openComment gap behind =>
      apply (ih _ _).trans
      rw [behind]
      exact List.nil_suffix

/-- A stream at a token, with fewer characters left than a bound. -/
structure Below (count : Nat) (stream : Stream) : Prop where
  standing : stream.Standing
  fits : stream.remaining < count

theorem Below.readFrom {cursor : Cursor} (fits : cursor.rest.length < count)
    (findings : List Finding) : Below count (.readFrom cursor findings) where
  standing := standing_readFrom cursor findings
  fits := Nat.lt_of_le_of_lt (isSuffix_seek _ _ _).length_le fits

/-- Stepping over a token passes at least one character. -/
theorem Below.advance {stream : Stream} (below : stream.Below (count + 1))
    (inside : stream.current ≠ .endOfInput) : stream.advance.Below count := by
  apply Below.readFrom
  have fits := below.fits
  rcases below.standing.cases with ⟨-, atEnd, -⟩ | ⟨word, place, begins⟩
  · exact absurd atEnd inside
  · have longer := List.length_pos_iff.mpr begins.1
    rw [remaining, place, List.length_append] at fits
    omega

theorem Below.takeRaw {stream : Stream} (below : stream.Below count) :
    stream.takeRaw.2.Below count := by
  rw [takeRaw_eq rfl]
  apply Below.readFrom
  have split := congrArg List.length (spanRaw_append 0 false stream.start.rest)
  have fits := below.fits
  rw [List.length_append] at split
  rw [remaining] at fits
  rw [Cursor.upTo_rest]
  omega

end Stream

namespace Parser

variable {α β : Type}

theorem lasting_below (count : Nat) : Lasting (Stream.Below count) where
  advance stream below := by
    rcases below.standing.cases with ⟨place, -, atEnd⟩ | ⟨word, place, -⟩
    · apply Stream.Below.readFrom
      have fits := below.fits
      rwa [Stream.remaining, place, ← atEnd] at fits
    · apply Stream.Below.readFrom
      have fits := below.fits
      rw [Stream.remaining, place, List.length_append] at fits
      omega
  takeRaw _ below := below.takeRaw
  report _ _ _ below := ⟨⟨below.standing.visible, below.standing.reads⟩, below.fits⟩

/-- Streams come to the end of the text where they were. -/
theorem lasting_suffix (text : List Char) :
    Lasting fun stream => stream.Standing ∧ stream.start.rest <:+ text where
  advance stream := by
    rintro ⟨standing, suffix⟩
    refine ⟨stream.standing_advance, (Stream.isSuffix_seek _ _ _).trans (.trans ?_ suffix)⟩
    rcases standing.cases with ⟨-, -, atEnd⟩ | ⟨word, place, -⟩
    · rw [atEnd]
      exact List.nil_suffix
    · exact ⟨word, place.symm⟩
  takeRaw stream := by
    rintro ⟨-, suffix⟩
    rw [Stream.takeRaw_eq rfl]
    refine ⟨Stream.standing_readFrom _ _, (Stream.isSuffix_seek _ _ _).trans (.trans ?_ suffix)⟩
    exact ⟨_, spanRaw_append 0 false stream.start.rest⟩
  report _ _ _ := by
    rintro ⟨standing, suffix⟩
    exact ⟨⟨standing.visible, standing.reads⟩, suffix⟩

/-- A parser and a twin that do the same on the streams of a domain. -/
structure Agree (domain : Stream → Prop) (parser twin : Parser α) : Prop where
  tame : Tame parser
  agrees : ∀ stream, domain stream → parser.runOn stream = twin.runOn stream

namespace Agree

variable {domain : Stream → Prop} {count : Nat}

theorem refl {parser : Parser α} (tame : Tame parser) : Agree domain parser parser :=
  ⟨tame, fun _ _ => rfl⟩

/-- No stream is below zero. -/
theorem of_tame {parser twin : Parser α} (tame : Tame parser) :
    Agree (Stream.Below 0) parser twin :=
  ⟨tame, fun _ below => absurd below.fits (Nat.not_lt_zero _)⟩

theorem pure (value : α) : Agree domain (Pure.pure value : Parser α) (Pure.pure value) :=
  refl (.pure value)

theorem fail (fault : Fault) :
    Agree domain (Parser.fail fault : Parser α) (Parser.fail fault) :=
  refl (.fail fault)

theorem narrow {narrow : Stream → Prop} {parser twin : Parser α}
    (agree : Agree domain parser twin) (within : ∀ stream, narrow stream → domain stream) :
    Agree narrow parser twin :=
  ⟨agree.tame, fun stream admitted => agree.agrees stream (within stream admitted)⟩

/-! ## Looking at the stream -/

theorem current_bind {second secondTwin : Token → Parser β}
    (agree : ∀ token, Agree (fun stream => domain stream ∧ stream.current = token) (second token)
      (secondTwin token)) :
    Agree domain (current >>= second) (current >>= secondTwin) where
  tame := .current_bind fun token => (agree token).tame
  agrees stream admitted := (agree stream.current).agrees stream ⟨admitted, rfl⟩

theorem get_bind {second secondTwin : Stream → Parser β}
    (agree : ∀ stream, Agree domain (second stream) (secondTwin stream)) :
    Agree domain (get >>= second) (get >>= secondTwin) where
  tame := .get_bind fun stream => (agree stream).tame
  agrees stream admitted := (agree stream).agrees stream admitted

theorem isAt_bind (token : Token) {second secondTwin : Bool → Parser β}
    (agree : ∀ found, Agree domain (second found) (secondTwin found)) :
    Agree domain (isAt token >>= second) (isAt token >>= secondTwin) :=
  current_bind fun found => (agree (found == token)).narrow fun _ => And.left

/-! ## Sequences -/

/-- Behind a parser that both have in common. -/
theorem bind_same {first firstTwin : Parser α} {second : α → Parser β}
    (agree : Agree domain first firstTwin) (tame : ∀ value, Tame (second value)) :
    Agree domain (first >>= second) (firstTwin >>= second) where
  tame := agree.tame.bind tame
  agrees stream admitted := by rw [runOn_bind, runOn_bind, agree.agrees stream admitted]

/-- Behind a token that is stepped over, fewer characters are left. -/
theorem advance_bind {token : Token} (inside : token ≠ .endOfInput)
    {second secondTwin : Unit → Parser β}
    (agree : Agree (Stream.Below count) (second ()) (secondTwin ())) :
    Agree (fun stream => stream.Below (count + 1) ∧ stream.current = token) (advance >>= second)
      (advance >>= secondTwin) where
  tame := Tame.advance.bind fun _ => agree.tame
  agrees := by
    rintro stream ⟨below, rfl⟩
    exact agree.agrees stream.advance (below.advance inside)

/-- A token that is stepped over if it is there. -/
theorem accept_bind {token : Token} (inside : token ≠ .endOfInput)
    {second secondTwin : Bool → Parser β}
    (accepted : Agree (Stream.Below count) (second true) (secondTwin true))
    (refused : Agree (Stream.Below (count + 1)) (second false) (secondTwin false)) :
    Agree (Stream.Below (count + 1)) (accept token >>= second) (accept token >>= secondTwin) := by
  rw [accept_bind_eq, accept_bind_eq]
  apply current_bind
  intro found
  split
  · rename_i isFound
    subst isFound
    exact advance_bind inside accepted
  · exact refused.narrow fun _ => And.left

section Lasting

variable (lasting : Lasting domain)

include lasting

theorem bind {first firstTwin : Parser α} {second secondTwin : α → Parser β}
    (agree : Agree domain first firstTwin)
    (thenAgree : ∀ value, Agree domain (second value) (secondTwin value)) :
    Agree domain (first >>= second) (firstTwin >>= secondTwin) where
  tame := agree.tame.bind fun value => (thenAgree value).tame
  agrees := by
    intro stream admitted
    rw [runOn_bind, runOn_bind, ← agree.agrees stream admitted]
    cases ran : first.runOn stream with
    | mk outcome after =>
      cases outcome with
      | error error => rfl
      | ok value => exact (thenAgree value).agrees after (agree.tame.kept lasting ran admitted)

theorem expect_bind (token : Token) (expectation : Expectation)
    {second secondTwin : Unit → Parser β}
    (agree : Agree domain (second ()) (secondTwin ())) :
    Agree domain (expect token expectation >>= second)
      (expect token expectation >>= secondTwin) :=
  bind lasting (refl (.expect token expectation)) fun _ => agree

variable {step stepTwin : α → Parser (Option α)}
  (agree : ∀ value, Agree domain (step value) (stepTwin value))

include agree

theorem repeatUpTo (bound : Nat) (value : α) :
    Agree domain (Parser.repeatUpTo step bound value) (Parser.repeatUpTo stepTwin bound value) := by
  induction bound generalizing value with
  | zero => exact pure value
  | succ bound ih =>
    apply bind lasting (agree value)
    rintro (_ | next)
    · exact pure value
    · exact ih next

theorem loop (value : α) : Agree domain (Parser.loop step value) (Parser.loop stepTwin value) := by
  apply bind lasting (agree value)
  rintro (_ | next)
  · exact pure value
  · exact get_bind fun stream => repeatUpTo lasting agree (stream.remaining + 1) next

end Lasting

end Agree

end Parser

end EventScript
