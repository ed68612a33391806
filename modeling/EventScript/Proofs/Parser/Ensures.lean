import EventScript.Proofs.Lexing.Endings
import EventScript.Proofs.Parser.Progress

/-!
# What parsers take and return

A parser takes tokens and unquoted arguments from the stream, one after the
other.  `Ensures count starts parser property` says that every value a parser
returns has a property together with what was taken for it, and that the same
value is returned wherever the same is taken.  This holds on any text, with or
without findings; only the token behind what was taken counts, and the marks of
endings count alike.
-/

namespace EventScript

/-- What is taken from a stream in one step: its token, or the unquoted argument
that begins at its token. -/
inductive Taken where
  | token (token : Token)
  | raw (seen : Token) (argument : String)

namespace Taken

/-- The token of the stream. -/
def seen : Taken → Token
  | .token found => found
  | .raw seen _ => seen

end Taken

/-- Tokens are the same, or both are those of an ending. -/
def Token.Alike (first second : Token) : Prop :=
  first = second ∨ ∃ ending other : Ending, first = ending.token ∧ second = other.token

namespace Stream

/-- What a stream gives on the way to another one. -/
def Gives (stream : Stream) : List Taken → Stream → Prop
  | [], after => after = stream
  | .token token :: others, after => stream.current = token ∧ stream.advance.Gives others after
  | .raw seen argument :: others, after =>
    stream.current = seen ∧ stream.takeRaw.1 = argument ∧ stream.takeRaw.2.Gives others after

variable {stream after : Stream} {taken : List Taken}

theorem gives_append {first second : List Taken} : stream.Gives (first ++ second) after ↔
    ∃ middle : Stream, stream.Gives first middle ∧ middle.Gives second after := by
  induction first generalizing stream with
  | nil => exact ⟨fun gives => ⟨stream, rfl, gives⟩, fun ⟨_, same, gives⟩ => same ▸ gives⟩
  | cons item others ih => cases item <;> simp [Gives, ih, and_assoc]

theorem Gives.current_eq {item : Taken} (gives : stream.Gives (item :: taken) after) :
    stream.current = item.seen := by
  cases item <;> exact gives.1

/-- What the single steps keep is kept on the way, and what they show is what is
taken. -/
theorem Gives.kept {invariant : Stream → Prop} {token : Token → Prop} {raw : String → Prop}
    (steady : Parser.Steady invariant token raw) (gives : stream.Gives taken after)
    (holds : invariant stream) :
    invariant after ∧ (∀ found, .token found ∈ taken → token found) ∧
      ∀ seen argument, .raw seen argument ∈ taken → raw argument := by
  induction taken generalizing stream with
  | nil =>
    cases gives
    exact ⟨holds, by simp, by simp⟩
  | cons item others ih =>
    cases item with
    | token found =>
      obtain ⟨rfl, gives⟩ := gives
      obtain ⟨kept, tokens, arguments⟩ := ih gives (steady.advance stream holds)
      refine ⟨kept, fun found member => ?_, by simpa using arguments⟩
      rcases List.mem_cons.mp member with same | member
      · cases same
        exact steady.current stream holds
      · exact tokens found member
    | raw seen argument =>
      obtain ⟨-, rfl, gives⟩ := gives
      obtain ⟨keptRaw, isRaw⟩ := steady.takeRaw stream holds
      obtain ⟨kept, tokens, arguments⟩ := ih gives keptRaw
      refine ⟨kept, by simpa using tokens, fun seen argument member => ?_⟩
      rcases List.mem_cons.mp member with same | member
      · cases same
        exact isRaw
      · exact arguments seen argument member

theorem Gives.lasts {invariant : Stream → Prop} (lasting : Parser.Lasting invariant)
    (gives : stream.Gives taken after) (holds : invariant stream) : invariant after :=
  (gives.kept lasting.steady holds).1

theorem Gives.standing (gives : stream.Gives taken after) (standing : stream.Standing) :
    after.Standing :=
  (gives.lasts (Parser.lasting_suffix stream.start.rest) ⟨standing, List.suffix_refl _⟩).1

theorem Gives.findings_grow (gives : stream.Gives taken after) :
    stream.findings <+: after.findings :=
  gives.lasts (Parser.lasting_findings stream.findings) (List.prefix_refl _)

/-- Streams that give the same begin alike if they end alike. -/
theorem Gives.alike {other otherAfter : Stream} (gives : stream.Gives taken after)
    (otherGives : other.Gives taken otherAfter)
    (alike : after.current.Alike otherAfter.current) : stream.current.Alike other.current := by
  cases taken with
  | nil =>
    cases gives
    cases otherGives
    exact alike
  | cons => exact .inl (gives.current_eq.trans otherGives.current_eq.symm)

end Stream

namespace Parser

variable {α β : Type} {count : Nat} {starts : Token → Prop}
variable {parser : Parser α}

/-- On every stream with fewer characters left than a bound, at a token to start
with, a value that is returned has a property together with what was taken for
it, and it is returned from every stream that gives the same. -/
def Ensures (count : Nat) (starts : Token → Prop) (parser : Parser α)
    (property : List Taken → α → Prop) : Prop :=
  ∀ (stream after : Stream) (value : α), stream.Below count → starts stream.current →
    parser.runOn stream = (.ok value, after) →
      ∃ taken, stream.Gives taken after ∧ property taken value ∧
        ∀ other otherAfter : Stream, other.Standing → other.Gives taken otherAfter →
          after.current.Alike otherAfter.current → parser.runOn other = (.ok value, otherAfter)

/-- Every token is one to start with. -/
abbrev Anything (_ : Token) : Prop :=
  True

namespace Ensures

theorem weaken {strong weak : List Taken → α → Prop} (ensures : Ensures count starts parser strong)
    (implied : ∀ taken value, strong taken value → weak taken value) :
    Ensures count starts parser weak := by
  intro stream after value below started run
  obtain ⟨taken, gives, holds, again⟩ := ensures stream after value below started run
  exact ⟨taken, gives, implied _ _ holds, again⟩

theorem anywhere {property : List Taken → α → Prop}
    (ensures : Ensures count Anything parser property) : Ensures count starts parser property :=
  fun stream after value below _ => ensures stream after value below trivial

theorem pure {property : List Taken → α → Prop} {value : α} (holds : property [] value) :
    Ensures count starts (Pure.pure value : Parser α) property := by
  rintro stream _ _ - - ⟨rfl, rfl⟩
  refine ⟨[], rfl, holds, ?_⟩
  rintro other _ - rfl -
  rfl

theorem fail (fault : Fault) (property : List Taken → α → Prop) :
    Ensures count starts (Parser.fail fault : Parser α) property := by
  rintro stream _ _ - - ⟨⟩

theorem refuse (property : List Taken → α → Prop) :
    Ensures count starts (Parser.refuse : Parser α) property := by
  rintro stream _ _ - - ⟨⟩

theorem bind {first : Parser α} {second : α → Parser β} {middle : List Taken → α → Prop}
    {property : List Taken → β → Prop} (ensures : Ensures count starts first middle)
    (thenEnsures : ∀ taken value, middle taken value →
      Ensures count Anything (second value) fun others => property (taken ++ others)) :
    Ensures count starts (first >>= second) property := by
  intro stream after result below started run
  obtain ⟨value, between, ran, thenRan⟩ := exists_of_runOn_bind run
  obtain ⟨taken, gives, holds, again⟩ := ensures _ _ _ below started ran
  obtain ⟨others, givesOthers, holdsBoth, thenAgain⟩ := thenEnsures _ _ holds _ _ _
    (gives.lasts (lasting_below count) below) trivial thenRan
  refine ⟨taken ++ others, Stream.gives_append.mpr ⟨between, gives, givesOthers⟩, holdsBoth, ?_⟩
  intro other otherAfter standing otherGives alike
  obtain ⟨otherBetween, givesTaken, givesRest⟩ := Stream.gives_append.mp otherGives
  rw [runOn_bind, again _ _ standing givesTaken (givesOthers.alike givesRest alike)]
  exact thenAgain _ _ (givesTaken.standing standing) givesRest alike

theorem bind_return {function : α → β} {middle : List Taken → α → Prop}
    {property : List Taken → β → Prop} (ensures : Ensures count starts parser middle)
    (implied : ∀ taken value, middle taken value → property taken (function value)) :
    Ensures count starts (parser >>= fun value => Pure.pure (function value)) property :=
  bind ensures fun taken value holds => pure (by simpa using implied taken value holds)

/-- Looking at the current token.  If nothing is taken, no mark of an ending may
make a difference. -/
theorem current_bind {second : Token → Parser β} {property : List Taken → β → Prop}
    (ensures : ∀ token, token.Valid → Ensures count (· = token) (second token) property)
    (blind : ∀ value, property [] value →
      ∀ mark : ClosingMark, second (.symbol mark.symbol) = second .endOfInput) :
    Ensures count Anything (current >>= second) property := by
  intro stream after value below _ run
  obtain ⟨taken, gives, holds, again⟩ :=
    ensures stream.current below.standing.valid _ _ _ below rfl run
  refine ⟨taken, gives, holds, fun other otherAfter standing otherGives alike => ?_⟩
  have same : second other.current = second stream.current := by
    cases taken with
    | cons => rw [gives.current_eq, otherGives.current_eq]
    | nil =>
      have atMarks (ending : Ending) : second ending.token = second .endOfInput := by
        cases ending with
        | nil => rfl
        | cons mark others => exact blind value holds mark
      rcases gives.alike otherGives alike with same | ⟨ending, other, isMark, isOther⟩
      · rw [same]
      · rw [isMark, isOther, atMarks, atMarks]
  rw [runOn_bind, runOn_current]
  change (second other.current).runOn other = _
  rw [same]
  exact again other otherAfter standing otherGives alike

/-- The first item was taken at the token where the parser started. -/
theorem at_token {token : Token} {property : List Taken → α → Prop}
    (ensures : Ensures count (· = token) parser property) :
    Ensures count (· = token) parser fun taken value =>
      property taken value ∧ ∀ item ∈ taken.head?, item.seen = token := by
  intro stream after value below started run
  obtain ⟨taken, gives, holds, again⟩ := ensures stream after value below started run
  refine ⟨taken, gives, ⟨holds, fun item isHead => ?_⟩, again⟩
  cases taken with
  | nil => cases isHead
  | cons =>
    cases isHead
    exact gives.current_eq.symm.trans started

/-! ## Steps -/

theorem advance_bind {token : Token} (inside : token ≠ .endOfInput) {second : Unit → Parser β}
    {property : List Taken → β → Prop}
    (ensures : Ensures count Anything (second ()) fun taken => property (.token token :: taken)) :
    Ensures (count + 1) (· = token) (Parser.advance >>= second) property := by
  rintro stream after value below rfl run
  obtain ⟨taken, gives, holds, again⟩ :=
    ensures stream.advance after value (below.advance inside) trivial run
  refine ⟨.token stream.current :: taken, ⟨rfl, gives⟩, holds, ?_⟩
  intro other otherAfter _ otherGives alike
  exact again _ _ other.standing_advance otherGives.2 alike

theorem takeRaw_bind {second : String → Parser β} {property : List Taken → β → Prop}
    (ensures : ∀ seen argument, starts seen →
      Ensures count Anything (second argument) fun taken => property (.raw seen argument :: taken)) :
    Ensures count starts (Parser.takeRaw >>= second) property := by
  intro stream after value below started run
  obtain ⟨taken, gives, holds, again⟩ := ensures stream.current stream.takeRaw.1 started
    stream.takeRaw.2 after value below.takeRaw trivial run
  refine ⟨.raw stream.current stream.takeRaw.1 :: taken, ⟨rfl, rfl, gives⟩, holds, ?_⟩
  rintro other otherAfter - ⟨-, sameArgument, otherGives⟩ alike
  rw [runOn_bind, runOn_takeRaw, sameArgument]
  exact again _ _ other.standing_takeRaw otherGives alike

/-- Behind a token that is stepped over, no more characters are left. -/
theorem fewer {property : List Taken → α → Prop}
    (ensures : Ensures (count + 1) starts parser property) : Ensures count starts parser property :=
  fun stream after value below =>
    ensures stream after value ⟨below.standing, Nat.lt_succ_of_lt below.fits⟩

theorem expect_bind {token : Token} {expectation : Expectation} (inside : token ≠ .endOfInput)
    {second : Unit → Parser β} {property : List Taken → β → Prop}
    (ensures : Ensures count Anything (second ()) fun taken => property (.token token :: taken)) :
    Ensures count Anything (Parser.expect token expectation >>= second) property := by
  have takes : Ensures count Anything (Parser.expect token expectation >>= second)
      fun taken value => taken ≠ [] ∧ property taken value := by
    rw [expect_bind_eq]
    refine current_bind (fun found _ => ?_) fun _ holds => absurd rfl holds.1
    split
    · rename_i isFound
      subst isFound
      exact (advance_bind inside (ensures.weaken fun _ _ holds =>
        ⟨List.cons_ne_nil _ _, holds⟩)).fewer
    · exact fail _ _
  exact takes.weaken fun _ _ => And.right

/-- A token of no ending that is stepped over if it is there. -/
theorem accept_bind {token : Token} (noEnding : Ending.beginsWith token = false)
    {second : Bool → Parser β} {property : List Taken → β → Prop}
    (accepted : Ensures count Anything (second true) fun taken =>
      property (.token token :: taken))
    (refused : Ensures (count + 1) Anything (second false) property) :
    Ensures (count + 1) Anything (Parser.accept token >>= second) property := by
  rw [accept_bind_eq]
  refine current_bind (fun found _ => ?_) fun _ _ mark => ?_
  · split
    · rename_i isFound
      subst isFound
      refine advance_bind ?_ accepted
      rintro rfl
      cases noEnding
    · exact refused.anywhere
  · have atMark := Ending.token_ne [mark] noEnding
    have atEnd := Ending.token_ne [] noEnding
    exact (if_neg atMark).trans (if_neg atEnd).symm

/-! ## Loops -/

/-- What every step of a loop keeps, together with what was taken.  The last step
takes nothing. -/
def Keeps (invariant : List Taken → α → Prop) (taken others : List Taken) : Option α → Prop
  | none => others = []
  | some next => invariant (taken ++ others) next

variable {step : α → Parser (Option α)} {invariant : List Taken → α → Prop}
  (keeps : ∀ taken value, invariant taken value →
    Ensures count Anything (step value) (Keeps invariant taken))

include keeps

/-- Streams that give the same run through the same steps. -/
theorem iterates {taken : List Taken} {value result : α} {stream after : Stream}
    (initially : invariant taken value) (below : stream.Below count)
    (iterates : Iterates step value stream (.ok result) after) :
    ∃ others, stream.Gives others after ∧ invariant (taken ++ others) result ∧
      ∀ other otherAfter : Stream, other.Standing → other.Gives others otherAfter →
        after.current.Alike otherAfter.current →
          Iterates step value other (.ok result) otherAfter := by
  generalize isOk : Except.ok result = outcome at iterates
  induction iterates generalizing taken with
  | fails => cases isOk
  | stops run =>
    cases isOk
    obtain ⟨_, gives, rfl, again⟩ := keeps _ _ initially _ _ _ below trivial run
    refine ⟨[], gives, by rwa [List.append_nil], fun other otherAfter standing otherGives alike => ?_⟩
    exact .stops (again other otherAfter standing otherGives alike)
  | goesOn run _ ih =>
    obtain ⟨first, gives, kept, again⟩ := keeps _ _ initially _ _ _ below trivial run
    obtain ⟨others, givesOthers, holds, thenAgain⟩ :=
      ih kept (gives.lasts (lasting_below count) below) isOk
    refine ⟨first ++ others, Stream.gives_append.mpr ⟨_, gives, givesOthers⟩, ?_, ?_⟩
    · rwa [← List.append_assoc]
    · intro other otherAfter standing otherGives alike
      obtain ⟨between, givesFirst, givesRest⟩ := Stream.gives_append.mp otherGives
      exact .goesOn (again _ _ standing givesFirst (givesOthers.alike givesRest alike))
        (thenAgain _ _ (givesFirst.standing standing) givesRest alike)

theorem loop (advances : Advances step) {taken : List Taken} {value : α}
    (initially : invariant taken value) :
    Ensures count Anything (Parser.loop step value) fun others => invariant (taken ++ others) := by
  intro stream after result below _ run
  have ran := iterates_loop advances below.standing value
  rw [run] at ran
  obtain ⟨others, gives, holds, again⟩ := iterates keeps initially below ran
  refine ⟨others, gives, holds, fun other otherAfter standing otherGives alike => ?_⟩
  exact (again other otherAfter standing otherGives alike).runOn_loop advances standing

end Ensures

end Parser

end EventScript
