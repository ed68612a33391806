import EventScript.Proofs.Lexing.Twins
import EventScript.Proofs.Parser.Tame

/-!
# Parsers on texts with different endings

`Follows` relates a parser in front of one ending to a twin in front of other
endings: what the parser reads of the text without findings, the twin reads as
well, and both come to the same place.  The only exception is a parser that gets
behind the first mark of its ending.  The relation is built along the parser,
so it is stated once for each way to put parsers together.
-/

namespace EventScript.Parser

variable {α β : Type}
variable {token : Token} {domain : List Char → Prop} {first parser twin : Parser α}

/-- There is no way back in front of an ending. -/
theorem lasting_past (ending : Ending) : Lasting ending.Past where
  advance _ past := past.advance
  takeRaw _ past := past.takeRaw
  report _ finding _ past := past.report finding

/-! ## Following -/

/-- A value is read from one place of a text to another, where the stream in
front of the ending is now; a twin reads it in front of every other ending, apart
from one that begins with a parenthesis. -/
structure Arrives (ending : Ending) (twin : Parser α) (common rest : List Char) (value : α)
    (after : Stream) : Prop where
  suffix : rest <:+ common
  here : after.InFrontOf (ending.behind rest)
  there : ∀ other : Ending, other.token ≠ .symbol .closeParen → ∀ stream : Stream,
    stream.InFrontOf (other.behind common) → ∃ twinAfter : Stream,
      twin.runOn stream = (.ok value, twinAfter) ∧ twinAfter.findings = stream.findings ∧
        twinAfter.InFrontOf (other.behind rest)

theorem Arrives.bind {ending : Ending} {second : α → Parser β} {common middle rest : List Char}
    {value : α} {result : β} {between after : Stream}
    (arrives : Arrives ending first common middle value between)
    (thenArrives : Arrives ending (second value) middle rest result after) :
    Arrives ending (first >>= second) common rest result after where
  suffix := thenArrives.suffix.trans arrives.suffix
  here := thenArrives.here
  there := by
    intro other allowed stream inFront
    obtain ⟨twinBetween, ran, clean, inFrontMiddle⟩ := arrives.there other allowed stream inFront
    obtain ⟨twinAfter, thenRan, thenClean, inFrontRest⟩ :=
      thenArrives.there other allowed twinBetween inFrontMiddle
    refine ⟨twinAfter, ?_, thenClean.trans clean, inFrontRest⟩
    rw [runOn_bind, ran]
    exact thenRan

/-- What is known of the place in a text where a value leads to, from the place
where it was read. -/
abbrev Way (α : Type) :=
  α → List Char → List Char → Prop

/-- Nothing is known of the way. -/
abbrev Anywhere : Way α :=
  fun _ _ _ => True

/-- At least one character is taken. -/
abbrev Takes : Way α :=
  fun _ common rest => rest.length < common.length

/-- At least one character is taken, unless there was nothing to read. -/
abbrev TakesSome : Way (Option α) :=
  fun outcome common rest => outcome.isSome = true → rest.length < common.length

theorem TakesSome.of_takes (outcome : Option α) (common rest : List Char)
    (shorter : Takes outcome common rest) : TakesSome outcome common rest :=
  fun _ => shorter

/-- At least one character is taken, or the place is one to halt at. -/
abbrev TakesUntil (halts : List Char → Prop) : Way (Option α) :=
  fun outcome common rest => TakesSome outcome common rest ∧ (outcome = none → halts rest)

/-- What a parser reads in front of an ending without findings, its twin reads in
front of other endings, or the parser is lost.  The relation is claimed for the
parts of a text in `domain`, and `way` is what is known of the way taken. -/
structure Follows (ending : Ending) (domain : List Char → Prop) (parser twin : Parser α)
    (way : Way α) (lost : List Char → α → Stream → Prop) : Prop where
  tame : Tame parser
  follows : ∀ {common : List Char} {stream after : Stream} {value : α}, domain common →
    stream.InFrontOf (ending.behind common) → parser.runOn stream = (.ok value, after) →
      after.findings = stream.findings → lost common value after ∨
        ∃ rest, way value common rest ∧ Arrives ending twin common rest value after

/-- What is lost in a part of a text is lost in the text. -/
def Widens (lost : List Char → α → Stream → Prop) : Prop :=
  ∀ common rest value after, rest <:+ common → lost rest value after → lost common value after

/-- The parts of a text with fewer characters than a bound. -/
def Within (count : Nat) (common : List Char) : Prop :=
  common.length < count

/-- A text within a bound that goes on. -/
abbrev Inside (count : Nat) (common : List Char) : Prop :=
  Within count common ∧ common ≠ []

namespace Follows

variable {ending : Ending} {domain : List Char → Prop}
variable {way : Way α} {lost : List Char → α → Stream → Prop}

theorem mono {narrow : List Char → Prop} {vague : Way α} {lost more : List Char → α → Stream → Prop}
    (follows : Follows ending domain parser twin way lost)
    (within : ∀ common, narrow common → domain common)
    (less : ∀ value common rest, way value common rest → vague value common rest)
    (weaker : ∀ common value after, lost common value after → more common value after) :
    Follows ending narrow parser twin vague more where
  tame := follows.tame
  follows := by
    intro common stream after value admitted inFront run clean
    rcases follows.follows (within _ admitted) inFront run clean with isLost | ⟨rest, goes, arrives⟩
    · exact Or.inl (weaker _ _ _ isLost)
    · exact Or.inr ⟨rest, less _ _ _ goes, arrives⟩

/-- Parsers one after the other.  The domain of the second and what it loses may
depend on the value read. -/
theorem bind_of_resumes {firstTwin : Parser α} {second secondTwin : α → Parser β}
    (later : α → List Char → Prop) (thenWay : Way β) {whole : Way β}
    {thenLost : α → List Char → β → Stream → Prop}
    {wholeLost : List Char → β → Stream → Prop}
    (follows : Follows ending domain first firstTwin way lost)
    (thenFollows : ∀ value, Follows ending (later value) (second value) (secondTwin value)
      thenWay (thenLost value))
    (stays : ∀ {common rest : List Char} {value : α}, domain common → rest <:+ common →
      way value common rest → later value rest)
    (joins : ∀ {common middle rest : List Char} {value : α} {result : β}, middle <:+ common →
      rest <:+ middle → way value common middle → thenWay result middle rest →
        whole result common rest)
    (settles : ∀ {common : List Char} {value : α} {middle after : Stream} {result : β},
      lost common value middle → (second value).runOn middle = (.ok result, after) →
        wholeLost common result after)
    (resumes : ∀ {common rest : List Char} {value : α} {middle after : Stream} {result : β},
      Arrives ending firstTwin common rest value middle → thenLost value rest result after →
        wholeLost common result after) :
    Follows ending domain (first >>= second) (firstTwin >>= secondTwin) whole wholeLost where
  tame := follows.tame.bind fun value => (thenFollows value).tame
  follows := by
    intro common stream after result admitted inFront run clean
    obtain ⟨value, middle, ran, run⟩ := exists_of_runOn_bind run
    obtain ⟨cleanFirst, cleanSecond⟩ :=
      findings_eq_of_between (follows.tame.findings_grow ran)
        ((thenFollows value).tame.findings_grow run) clean
    rcases follows.follows admitted inFront ran cleanFirst with isLost | ⟨place, goes, arrives⟩
    · exact Or.inl (settles isLost run)
    · rcases (thenFollows value).follows (stays admitted arrives.suffix goes)
        arrives.here run cleanSecond with isLost | ⟨rest, goesOn, thenArrives⟩
      · exact Or.inl (resumes arrives isLost)
      · exact Or.inr ⟨rest, joins arrives.suffix thenArrives.suffix goes goesOn,
          arrives.bind thenArrives⟩

theorem bind {firstTwin : Parser α} {second secondTwin : α → Parser β}
    (later : α → List Char → Prop) (thenWay : Way β) {whole : Way β}
    {thenLost : List Char → β → Stream → Prop}
    (follows : Follows ending domain first firstTwin way lost)
    (thenFollows : ∀ value, Follows ending (later value) (second value) (secondTwin value)
      thenWay thenLost)
    (stays : ∀ {common rest : List Char} {value : α}, domain common → rest <:+ common →
      way value common rest → later value rest)
    (joins : ∀ {common middle rest : List Char} {value : α} {result : β}, middle <:+ common →
      rest <:+ middle → way value common middle → thenWay result middle rest →
        whole result common rest)
    (settles : ∀ {common : List Char} {value : α} {middle after : Stream} {result : β},
      lost common value middle → (second value).runOn middle = (.ok result, after) →
        thenLost common result after) (widens : Widens thenLost) :
    Follows ending domain (first >>= second) (firstTwin >>= secondTwin) whole thenLost :=
  bind_of_resumes later thenWay follows thenFollows stays joins settles
    fun arrives isLost => widens _ _ _ _ arrives.suffix isLost

/-- A domain in two parts. -/
theorem of_cases (part : List Char → Prop)
    (inPart : Follows ending (fun common => domain common ∧ part common) parser twin way lost)
    (outside : Follows ending (fun common => domain common ∧ ¬part common) parser twin way lost) :
    Follows ending domain parser twin way lost where
  tame := inPart.tame
  follows := by
    intro common stream after value admitted inFront run clean
    by_cases isPart : part common
    · exact inPart.follows ⟨admitted, isPart⟩ inFront run clean
    · exact outside.follows ⟨admitted, isPart⟩ inFront run clean

/-- A parser that is always lost. -/
theorem of_lost (tame : Tame parser)
    (loses : ∀ {common : List Char} {stream after : Stream} {value : α}, domain common →
      stream.InFrontOf (ending.behind common) → parser.runOn stream = (.ok value, after) →
        after.findings = stream.findings → lost common value after) :
    Follows ending domain parser twin way lost where
  tame := tame
  follows admitted inFront run clean := Or.inl (loses admitted inFront run clean)

theorem of_error (tame : Tame parser)
    (fails : ∀ stream, ∃ error after, parser.runOn stream = (.error error, after)) :
    Follows ending domain parser twin way lost where
  tame := tame
  follows := by
    intro common stream after value _ _ run _
    obtain ⟨error, failed, runs⟩ := fails stream
    rw [runs] at run
    cases run

theorem fail (fault : Fault) :
    Follows ending domain (Parser.fail fault) twin way lost :=
  of_error (.fail fault) fun _ => ⟨_, _, rfl⟩

theorem pure_of_way (value : α)
    (stays : ∀ common, domain common → way value common common) :
    Follows ending domain (Pure.pure value) (Pure.pure value) way lost where
  tame := .pure value
  follows := by
    rintro common stream _ _ admitted inFront ⟨rfl, rfl⟩ _
    refine Or.inr ⟨common, stays common admitted, List.suffix_refl _, inFront, ?_⟩
    intro other _ twin twinInFront
    exact ⟨twin, rfl, rfl, twinInFront⟩

theorem pure (value : α) :
    Follows ending domain (Pure.pure value) (Pure.pure value) Anywhere lost :=
  pure_of_way value fun _ _ => trivial

/-- Nothing more to read. -/
theorem pure_none {lost : List Char → Option α → Stream → Prop} :
    Follows ending domain (Pure.pure none) (Pure.pure none) TakesSome lost :=
  pure_of_way none fun _ _ => nofun

/-- A parser that takes a part of the text reads nothing at its end. -/
theorem of_takes {other : Parser α}
    (follows : Follows ending domain parser twin Takes lost) :
    Follows ending (fun common => domain common ∧ common = []) parser other way lost where
  tame := follows.tame
  follows := by
    rintro common stream after value ⟨admitted, rfl⟩ inFront run clean
    rcases follows.follows admitted inFront run clean with isLost | ⟨rest, shorter, -⟩
    · exact Or.inl isLost
    · cases shorter

/-! ### Looking at the stream -/

/-- Inside the text the streams are at the same token, at its end at those of the
endings. -/
theorem current_bind_of_resumes {second secondTwin : Token → Parser β} {way : Way β}
    {lostInside : Token → List Char → β → Stream → Prop} {lost : List Char → β → Stream → Prop}
    (inside : ∀ token, Follows ending
      (fun common => (domain common ∧ common ≠ []) ∧ ∃ rest, Ending.Opens common token rest) (second token)
      (secondTwin token) way (lostInside token))
    (resumes : ∀ {common : List Char} {token : Token} {value : β} {after : Stream},
      (∃ rest, Ending.Opens common token rest) → lostInside token common value after →
        lost common value after)
    (atEnd : ∀ other : Ending, other.token ≠ .symbol .closeParen →
      Follows ending (fun common => domain common ∧ common = []) (second ending.token)
        (secondTwin other.token) way lost) :
    Follows ending domain (current >>= second) (current >>= secondTwin) way lost where
  tame := .current_bind fun token => (inside token).tame
  follows := by
    intro common stream after value admitted inFront run clean
    by_cases nonempty : common = []
    · subst nonempty
      change (second stream.current).runOn stream = _ at run
      rw [inFront.reads_marks.1] at run
      rw [or_iff_not_imp_left]
      intro notLost
      have arrives (other : Ending) (allowed : other.token ≠ .symbol .closeParen) :
          way value [] [] ∧ Arrives ending (secondTwin other.token) [] [] value after := by
        rcases (atEnd other allowed).follows ⟨admitted, rfl⟩ inFront run clean with
          isLost | ⟨rest, goes, arrives⟩
        · exact absurd isLost notLost
        · have isEnd := List.suffix_nil.mp arrives.suffix
          subst isEnd
          exact ⟨goes, arrives⟩
      obtain ⟨goes, arrivesAtEnd⟩ := arrives [] (by rintro ⟨⟩)
      refine ⟨[], goes, arrivesAtEnd.suffix, arrivesAtEnd.here, ?_⟩
      intro other allowed twin twinInFront
      have there := (arrives other allowed).2.there other allowed twin twinInFront
      rw [runOn_bind, runOn_current, Stream.InFrontOf.reads_marks twinInFront |>.1]
      exact there
    · obtain ⟨left, opens⟩ := Ending.exists_opens inFront nonempty
      rcases (inside stream.current).follows ⟨⟨admitted, nonempty⟩, left, opens⟩ inFront run clean
        with isLost | ⟨rest, goes, arrives⟩
      · exact Or.inl (resumes ⟨left, opens⟩ isLost)
      · refine Or.inr ⟨rest, goes, arrives.suffix, arrives.here, ?_⟩
        intro other allowed twin twinInFront
        rw [runOn_bind, runOn_current, opens.current twinInFront]
        exact arrives.there other allowed twin twinInFront

theorem current_bind {second secondTwin : Token → Parser β} {way : Way β}
    {lost : List Char → β → Stream → Prop}
    (inside : ∀ token, Follows ending (fun common => domain common ∧ common ≠ []) (second token)
      (secondTwin token) way lost)
    (atEnd : ∀ other : Ending, other.token ≠ .symbol .closeParen →
      Follows ending (fun common => domain common ∧ common = []) (second ending.token)
        (secondTwin other.token) way lost) :
    Follows ending domain (current >>= second) (current >>= secondTwin) way lost :=
  current_bind_of_resumes
    (fun token => (inside token).mono (fun _ => And.left) (fun _ _ _ => id) fun _ _ _ => id)
    (fun _ isLost => isLost) atEnd

/-- Inside the text only the same tokens count. -/
theorem current_bind_inside {second secondTwin : Token → Parser β} {way : Way β}
    {lost : List Char → β → Stream → Prop} (nonempty : ∀ common, domain common → common ≠ [])
    (inside : ∀ token, Follows ending domain (second token) (secondTwin token) way lost) :
    Follows ending domain (current >>= second) (current >>= secondTwin) way lost := by
  apply current_bind
  · exact fun token => (inside token).mono (fun _ => And.left) (fun _ _ _ => id) fun _ _ _ => id
  · intro other _
    refine ⟨(inside ending.token).tame, ?_⟩
    rintro common stream after value ⟨admitted, atEnd⟩
    exact absurd atEnd (nonempty common admitted)

/-- Every stream has at least the characters of the text left. -/
theorem remaining_bind {second secondTwin : Nat → Parser β} {way : Way β}
    {lost : List Char → β → Stream → Prop}
    (follows : ∀ count twinCount, Follows ending
      (fun common => domain common ∧ common.length < count ∧ common.length < twinCount)
      (second count) (secondTwin twinCount) way lost) :
    Follows ending domain (get >>= fun stream => second (stream.remaining + 1))
      (get >>= fun stream => secondTwin (stream.remaining + 1)) way lost where
  tame := .get_bind fun stream => (follows _ 0).tame
  follows := by
    have enough {common : List Char} {other : Ending} {twin : Stream}
        (inFront : twin.InFrontOf (other.behind common)) : common.length < twin.remaining + 1 := by
      rw [Stream.remaining, inFront.place]
      cases common with
      | nil => exact Nat.succ_pos _
      | cons =>
        rw [Ending.behind, List.length_append]
        omega
    intro common stream after value admitted inFront run clean
    rw [or_iff_not_imp_left]
    intro notLost
    have arrives (twinCount : Nat) (fits : common.length < twinCount) :
        ∃ rest, way value common rest ∧
          Arrives ending (secondTwin twinCount) common rest value after := by
      rcases (follows (stream.remaining + 1) twinCount).follows
        ⟨admitted, enough inFront, fits⟩ inFront run clean with isLost | arrives
      · exact absurd isLost notLost
      · exact arrives
    obtain ⟨rest, goes, arrivesHere⟩ := arrives _ (Nat.lt_succ_self _)
    refine ⟨rest, goes, arrivesHere.suffix, arrivesHere.here, ?_⟩
    intro other allowed twin twinInFront
    obtain ⟨twinRest, -, arrivesThere⟩ := arrives _ (enough twinInFront)
    have samePlace : twinRest = rest :=
      ending.behind_injective (arrivesThere.here.place.symm.trans arrivesHere.here.place)
    subst samePlace
    exact arrivesThere.there other allowed twin twinInFront

theorem advance :
    Follows ending (fun common => common ≠ []) Parser.advance Parser.advance Takes
      fun _ _ _ => False where
  tame := .advance
  follows := by
    rintro common stream _ _ nonempty inFront ⟨rfl, rfl⟩ clean
    obtain ⟨left, opens⟩ := Ending.exists_opens inFront nonempty
    obtain ⟨seen, skipped, here, there⟩ := opens.exists_advance inFront clean
    obtain ⟨suffix, shorter⟩ := opens.shorter skipped
    refine Or.inr ⟨seen, shorter, suffix, here, ?_⟩
    intro other _ twin twinInFront
    obtain ⟨next, twinClean⟩ := there other twin twinInFront
    exact ⟨twin.advance, rfl, twinClean, next⟩

/-- Stepping over a token that is not the last one of the text. -/
theorem advance_of_opens :
    Follows ending
      (fun common => ∃ rest, Ending.Opens common token rest ∧ skipGap .blanks rest ≠ .ok [])
      Parser.advance Parser.advance
      (fun _ common rest => rest.length < common.length ∧ rest ≠ []) fun _ _ _ => False where
  tame := .advance
  follows := by
    rintro common stream _ _ ⟨left, opens, noGap⟩ inFront ⟨rfl, rfl⟩ clean
    obtain ⟨seen, skipped, here, there⟩ := opens.exists_advance inFront clean
    obtain ⟨suffix, shorter⟩ := opens.shorter skipped
    have inside : seen ≠ [] := by
      rintro rfl
      exact noGap skipped
    refine Or.inr ⟨seen, ⟨shorter, inside⟩, suffix, here, ?_⟩
    intro other _ twin twinInFront
    obtain ⟨next, twinClean⟩ := there other twin twinInFront
    exact ⟨twin.advance, rfl, twinClean, next⟩

/-- An unquoted argument may run over the ending. -/
theorem takeRaw :
    Follows ending domain Parser.takeRaw Parser.takeRaw Anywhere fun common argument after =>
      LeavesOpen common ∧ argument = ending.overrun common ∧ ending.Past after where
  tame := .takeRaw
  follows := by
    intro common stream after argument _ inFront run clean
    rw [runOn_takeRaw] at run
    obtain ⟨isArgument, isAfter⟩ := Prod.mk.inj run
    rw [← isAfter] at clean ⊢
    rw [← Except.ok.inj isArgument]
    rcases Ending.exists_takeRaw inFront clean with ⟨seen, suffix, here, there⟩ | runsOver
    · refine Or.inr ⟨seen, trivial, suffix, here, ?_⟩
      intro other _ twin twinInFront
      obtain ⟨sameArgument, next, twinClean⟩ := there other twin twinInFront
      exact ⟨twin.takeRaw.2, by rw [runOn_takeRaw, sameArgument], twinClean, next⟩
    · exact Or.inl runsOver

/-! ### Steps -/

section Steps

variable {count : Nat} {way : Way β} {lost : List Char → β → Stream → Prop}
  (widens : Widens lost)

include widens

theorem advance_bind {second secondTwin : Unit → Parser β}
    (follows : Follows ending (Within count) (second ()) (secondTwin ()) Anywhere lost) :
    Follows ending (Inside (count + 1))
      (Parser.advance >>= second) (Parser.advance >>= secondTwin) Takes lost := by
  refine bind (fun _ => Within count) Anywhere
    (advance.mono (fun _ => And.right) (fun _ _ _ => id) fun _ _ _ => id) (fun _ => follows) ?_
    (fun _ suffix shorter _ => Nat.lt_of_le_of_lt suffix.length_le shorter) False.elim widens
  intro common rest _ fits _ shorter
  exact Nat.lt_of_lt_of_le shorter (Nat.le_of_lt_succ fits.1)

/-- Stepping over a token that no ending begins with. -/
theorem accept_bind {token : Token} (noEnding : Ending.beginsWith token = false)
    (ofTakes : ∀ value common rest, Takes value common rest → way value common rest)
    {second secondTwin : Bool → Parser β}
    (accepted : Follows ending (Within count) (second true) (secondTwin true) Anywhere lost)
    (refused : Follows ending (Within (count + 1)) (second false) (secondTwin false) way lost) :
    Follows ending (Within (count + 1)) (accept token >>= second) (accept token >>= secondTwin)
      way lost := by
  rw [accept_bind_eq, accept_bind_eq]
  apply current_bind
  · intro found
    by_cases isFound : found = token
    · rw [if_pos isFound, if_pos isFound]
      exact (advance_bind widens accepted).mono (fun _ => id) ofTakes fun _ _ _ => id
    · rw [if_neg isFound, if_neg isFound]
      exact refused.mono (fun _ => And.left) (fun _ _ _ => id) fun _ _ _ => id
  · intro other _
    rw [if_neg (ending.token_ne noEnding), if_neg (other.token_ne noEnding)]
    exact refused.mono (fun _ => And.left) (fun _ _ _ => id) fun _ _ _ => id

end Steps

/-! ### Loops -/

section Loops

variable {count : Nat} {step stepTwin : α → Parser (Option α)} {halts : List Char → Prop}
  {lost : List Char → Option α → Stream → Prop} {thenLost : List Char → α → Stream → Prop}
  (steps : ∀ value, Follows ending (Within count) (step value) (stepTwin value)
    (TakesUntil halts) lost)
  (settles : ∀ {common : List Char} {next result : α} {bound : Nat} {middle after : Stream},
    lost common (some next) middle →
      (Parser.repeatUpTo step bound next).runOn middle = (.ok result, after) →
        thenLost common result after)
  (stops : ∀ {common : List Char} {middle : Stream} (value : α),
    lost common none middle → thenLost common value middle)
  (widens : Widens thenLost)

include steps settles stops widens

/-- Every step that goes on takes a character, so neither bound is reached, and
the loop ends where its step halts. -/
theorem repeatUpTo (bound twinBound : Nat) (value : α) :
    Follows ending (fun common => Within count common ∧ common.length < bound ∧
        common.length < twinBound)
      (Parser.repeatUpTo step bound value) (Parser.repeatUpTo stepTwin twinBound value)
      (fun _ _ rest => halts rest) thenLost := by
  induction bound generalizing twinBound value with
  | zero =>
    refine ⟨.pure value, ?_⟩
    rintro _ _ _ _ ⟨-, impossible, -⟩
    cases impossible
  | succ bound ih =>
    cases twinBound with
    | zero =>
      refine ⟨.repeatUpTo (fun value => (steps value).tame) _ value, ?_⟩
      rintro _ _ _ _ ⟨-, -, impossible⟩
      cases impossible
    | succ twinBound =>
      refine bind (fun outcome common => Within count common ∧
          (outcome = none → halts common) ∧
          (outcome.isSome = true → common.length < bound ∧ common.length < twinBound))
        (fun _ _ rest => halts rest)
        ((steps value).mono (fun _ => And.left) (fun _ _ _ => id) fun _ _ _ => id) ?_ ?_
        (fun _ _ _ => id) ?_ widens
      · rintro (_ | next)
        · exact pure_of_way value fun common admitted => admitted.2.1 rfl
        · refine (ih twinBound next).mono ?_ (fun _ _ _ => id) fun _ _ _ => id
          rintro common ⟨fits, -, enough⟩
          exact ⟨fits, enough rfl⟩
      · rintro common rest outcome ⟨fits, enough, twinEnough⟩ suffix ⟨shorter, atHalt⟩
        refine ⟨Nat.lt_of_le_of_lt suffix.length_le fits, atHalt, fun goesOn => ?_⟩
        have shorter := shorter goesOn
        omega
      · rintro common (_ | next) middle after result isLost run
        · cases run
          exact stops value isLost
        · exact settles isLost run

theorem loop (value : α) :
    Follows ending (Within count) (Parser.loop step value) (Parser.loop stepTwin value)
      (fun _ _ rest => halts rest) thenLost := by
  refine bind (fun outcome common => Within count common ∧ (outcome = none → halts common))
    (fun _ _ rest => halts rest) (steps value) ?_ ?_ (fun _ _ _ => id) ?_ widens
  · rintro (_ | next)
    · exact pure_of_way value fun common admitted => admitted.2 rfl
    · refine Follows.mono (remaining_bind fun bound twinBound =>
        repeatUpTo steps settles stops widens bound twinBound next) ?_ (fun _ _ _ => id)
        fun _ _ _ => id
      exact fun _ => And.left
  · rintro common rest outcome fits suffix ⟨-, atHalt⟩
    exact ⟨Nat.lt_of_le_of_lt suffix.length_le fits, atHalt⟩
  · rintro common (_ | next) middle after result isLost run
    · cases run
      exact stops value isLost
    · exact settles isLost run

end Loops

/-- A loop of which nothing is known where it ends. -/
theorem loop_anywhere {count : Nat} {step stepTwin : α → Parser (Option α)}
    {lost : List Char → Option α → Stream → Prop} {thenLost : List Char → α → Stream → Prop}
    (steps : ∀ value, Follows ending (Within count) (step value) (stepTwin value) TakesSome lost)
    (settles : ∀ {common : List Char} {next result : α} {bound : Nat} {middle after : Stream},
      lost common (some next) middle →
        (Parser.repeatUpTo step bound next).runOn middle = (.ok result, after) →
          thenLost common result after)
    (stops : ∀ {common : List Char} {middle : Stream} (value : α),
      lost common none middle → thenLost common value middle)
    (widens : Widens thenLost) (value : α) :
    Follows ending (Within count) (Parser.loop step value) (Parser.loop stepTwin value) Anywhere
      thenLost := by
  have stepsUntil (value : α) : Follows ending (Within count) (step value) (stepTwin value)
      (TakesUntil fun _ => True) lost :=
    (steps value).mono (fun _ => id) (fun _ _ _ takes => ⟨takes, fun _ => trivial⟩)
      fun _ _ _ => id
  exact loop stepsUntil settles stops widens value

end Follows

/-! ## Tracking -/

/-- What a parser reads of at most so many characters in front of an ending
without findings, its twin reads in front of other endings, unless the parser
gets behind a parenthesis that the ending begins with. -/
abbrev Tracks (ending : Ending) (domain : List Char → Prop) (parser twin : Parser α)
    (way : Way α) : Prop :=
  Follows ending domain parser twin way fun _ _ after => ending.Lost after

namespace Tracks

variable {ending : Ending} {count : Nat}
variable {way : Way α}

theorem weaken {narrow : List Char → Prop} {vague : Way α}
    (tracks : Tracks ending domain parser twin way)
    (within : ∀ common, narrow common → domain common)
    (less : ∀ value common rest, way value common rest → vague value common rest) :
    Tracks ending narrow parser twin vague :=
  tracks.mono within less fun _ _ _ => id

theorem anywhere (tracks : Tracks ending domain parser twin way) :
    Tracks ending domain parser twin Anywhere :=
  tracks.weaken (fun _ => id) fun _ _ _ _ => trivial

theorem narrow {narrow : List Char → Prop} (tracks : Tracks ending domain parser twin way)
    (within : ∀ common, narrow common → domain common) : Tracks ending narrow parser twin way :=
  tracks.weaken within fun _ _ _ => id

theorem inside {parser twin : Parser α} {way : Way α}
    (tracks : Tracks ending (Within count) parser twin way) :
    Tracks ending (Inside count) parser twin way :=
  tracks.narrow fun _ => And.left

theorem fewer (tracks : Tracks ending (Within (count + 1)) parser twin way) :
    Tracks ending (Within count) parser twin way :=
  tracks.narrow fun _ => Nat.lt_succ_of_lt

theorem lost_of_run (tame : Tame parser) {stream after : Stream} {outcome : Except ScriptError α}
    (isLost : ending.Lost stream) (run : parser.runOn stream = (outcome, after)) :
    ending.Lost after :=
  ⟨isLost.1, tame.kept (lasting_past ending) run isLost.2⟩

section Sequences

variable {first firstTwin : Parser α} {second secondTwin : α → Parser β} {way : Way α}
  {thenWay : Way β}

theorem bind (tracks : Tracks ending (Within count) first firstTwin way)
    (thenTracks : ∀ value, Tracks ending (Within count) (second value) (secondTwin value)
      thenWay) :
    Tracks ending (Within count) (first >>= second) (firstTwin >>= secondTwin) Anywhere :=
  Follows.bind (fun _ => Within count) thenWay tracks thenTracks
    (fun fits suffix _ => Nat.lt_of_le_of_lt suffix.length_le fits) (fun _ _ _ _ => trivial)
    (fun isLost run => lost_of_run (thenTracks _).tame isLost run) fun _ _ _ _ _ => id

theorem bind_return (tracks : Tracks ending domain first firstTwin way) (function : α → β) :
    Tracks ending domain (first >>= fun value => Pure.pure (function value))
      (firstTwin >>= fun value => Pure.pure (function value)) Anywhere :=
  Follows.bind (fun _ _ => True) Anywhere tracks (fun _ => Follows.pure _) (fun _ _ _ => trivial)
    (fun _ _ _ _ => trivial) (fun isLost run => lost_of_run (.pure _) isLost run)
    fun _ _ _ _ _ => id

theorem bind_left (tracks : Tracks ending (Within count) first firstTwin Takes)
    (thenTracks : ∀ value, Tracks ending (Within count) (second value) (secondTwin value)
      thenWay) :
    Tracks ending (Within count) (first >>= second) (firstTwin >>= secondTwin) Takes :=
  Follows.bind (fun _ => Within count) thenWay tracks thenTracks
    (fun fits suffix _ => Nat.lt_of_le_of_lt suffix.length_le fits)
    (fun _ suffix shorter _ => Nat.lt_of_le_of_lt suffix.length_le shorter)
    (fun isLost run => lost_of_run (thenTracks _).tame isLost run) fun _ _ _ _ _ => id

end Sequences

section Steps

variable {way : Way β}

theorem advance_bind {second secondTwin : Unit → Parser β}
    (tracks : Tracks ending (Within count) (second ()) (secondTwin ()) Anywhere) :
    Tracks ending (Inside (count + 1))
      (Parser.advance >>= second) (Parser.advance >>= secondTwin) Takes :=
  Follows.advance_bind (fun _ _ _ _ _ => id) tracks

theorem advance_bind_fewer {second secondTwin : Unit → Parser β}
    (tracks : Tracks ending (Within count) (second ()) (secondTwin ()) Anywhere) :
    Tracks ending (Inside count) (Parser.advance >>= second)
      (Parser.advance >>= secondTwin) Takes :=
  (advance_bind tracks).narrow fun _ admitted => ⟨Nat.lt_succ_of_lt admitted.1, admitted.2⟩

theorem advance_pure (value : β) :
    Tracks ending (Inside count)
      (Parser.advance >>= fun _ => Pure.pure value) (Parser.advance >>= fun _ => Pure.pure value)
      Takes :=
  advance_bind_fewer (Follows.pure value)

/-- A test for a token that no ending begins with. -/
theorem isAt_bind (noEnding : Ending.beginsWith token = false) {second secondTwin : Bool → Parser β}
    (found : Tracks ending (Inside count) (second true)
      (secondTwin true) way)
    (missing : Tracks ending (Within count) (second false) (secondTwin false) way) :
    Tracks ending (Within count) (isAt token >>= second) (isAt token >>= secondTwin) way := by
  rw [isAt_bind_eq, isAt_bind_eq]
  apply Follows.current_bind
  · intro current
    cases current == token with
    | true => exact found
    | false => exact missing.inside
  · intro other _
    rw [beq_eq_false_iff_ne.mpr (ending.token_ne noEnding),
      beq_eq_false_iff_ne.mpr (other.token_ne noEnding)]
    exact missing.narrow fun _ => And.left

theorem accept_bind (noEnding : Ending.beginsWith token = false)
    (ofTakes : ∀ value common rest, Takes value common rest → way value common rest)
    {second secondTwin : Bool → Parser β}
    (accepted : Tracks ending (Within count) (second true) (secondTwin true) Anywhere)
    (refused : Tracks ending (Within (count + 1)) (second false) (secondTwin false) way) :
    Tracks ending (Within (count + 1)) (accept token >>= second) (accept token >>= secondTwin)
      way :=
  Follows.accept_bind (fun _ _ _ _ _ => id) noEnding ofTakes accepted refused

/-- A required token that is none of the ending, unless it is a parenthesis. -/
theorem expect_bind (expectation : Expectation)
    (closes : ending.token = token → token = .symbol .closeParen)
    {second secondTwin : Unit → Parser β}
    (tracks : Tracks ending (Within count) (second ()) (secondTwin ()) Anywhere) :
    Tracks ending (Within count) (expect token expectation >>= second)
      (expect token expectation >>= secondTwin) Takes := by
  rw [expect_bind_eq, expect_bind_eq]
  apply Follows.current_bind
  · intro found
    by_cases isFound : found = token
    · rw [if_pos isFound, if_pos isFound]
      exact advance_bind_fewer tracks
    · rw [if_neg isFound, if_neg isFound]
      exact Follows.fail _
  · intro other _
    by_cases isFound : ending.token = token
    · rw [if_pos isFound]
      refine ⟨Tame.bind .advance fun _ => tracks.tame, ?_⟩
      rintro common stream after value ⟨-, rfl⟩ inFront run clean
      have past : ending.Past stream.advance :=
        ⟨ending.tail, List.suffix_refl _, inFront.advance_marks.1⟩
      exact Or.inl (lost_of_run tracks.tame ⟨isFound.trans (closes isFound), past⟩ run)
    · rw [if_neg isFound]
      exact Follows.fail _

theorem expect (expectation : Expectation)
    (closes : ending.token = token → token = .symbol .closeParen) :
    Tracks ending (Within count) (Parser.expect token expectation)
      (Parser.expect token expectation) Takes := by
  have tracks : Tracks ending (Within count) (Parser.expect token expectation >>= Pure.pure)
      (Parser.expect token expectation >>= Pure.pure) Takes :=
    expect_bind expectation closes (Follows.pure ())
  rwa [bind_pure] at tracks

end Steps

end Tracks

end EventScript.Parser
