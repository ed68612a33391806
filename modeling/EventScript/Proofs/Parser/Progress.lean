import EventScript.Proofs.Parser.Agreement

/-!
# Parsers that make progress

No parser leaves more characters than it found.  A parser `Consumes` if it leaves
fewer wherever it returns a value, and the step of a loop `Advances` if it leaves
fewer wherever the loop goes on.  Such a loop comes to an end after finitely many
steps, and the bound that it is run with is never reached.
-/

namespace EventScript.Parser

variable {α β : Type} {stream after : Stream}
variable {outcome : Except ScriptError α}

/-- A tame parser keeps the stream at a token and leaves no more characters. -/
theorem Tame.remaining_le {parser : Parser α} (tame : Tame parser)
    (run : parser.runOn stream = (outcome, after)) (standing : stream.Standing) :
    after.Standing ∧ after.remaining ≤ stream.remaining := by
  have below := tame.kept (lasting_below (stream.remaining + 1)) run
    ⟨standing, Nat.lt_succ_self _⟩
  exact ⟨below.standing, Nat.le_of_lt_succ below.fits⟩

/-! ## Parsers -/

/-- Wherever a parser returns a value that counts, on a stream of a domain, it has
passed at least one character. -/
structure Consumes (domain : Stream → Prop) (parser : Parser α) (counts : α → Prop) : Prop where
  tame : Tame parser
  shorter : ∀ {stream after : Stream} {value : α}, stream.Standing → domain stream →
    parser.runOn stream = (.ok value, after) → counts value → after.remaining < stream.remaining

/-- Every value that a parser returns is behind at least one character. -/
abbrev AlwaysConsumes (parser : Parser α) : Prop :=
  Consumes (fun _ => True) parser fun _ => True

namespace Consumes

variable {domain : Stream → Prop} {counts : β → Prop}
variable {token : Token} {parser : Parser β}

theorem narrow {narrow : Stream → Prop} (consumes : Consumes domain parser counts)
    (within : ∀ stream, narrow stream → domain stream) :
    Consumes narrow parser counts where
  tame := consumes.tame
  shorter standing admitted run counted :=
    consumes.shorter standing (within _ admitted) run counted

theorem of_always (consumes : AlwaysConsumes parser) :
    Consumes domain parser counts where
  tame := consumes.tame
  shorter standing _ run _ := consumes.shorter standing trivial run trivial

theorem pure {value : β} (uncounted : ¬counts value) : Consumes domain (Pure.pure value) counts where
  tame := .pure value
  shorter := by
    rintro _ _ _ _ _ ⟨⟩ counted
    exact absurd counted uncounted

theorem refuse : Consumes domain Parser.refuse counts where
  tame := .refuse
  shorter := by rintro _ _ _ _ _ ⟨⟩

theorem get_bind {second : Stream → Parser β}
    (consumes : ∀ found, Consumes domain (second found) counts) :
    Consumes domain (get >>= second) counts where
  tame := .get_bind fun found => (consumes found).tame
  shorter {stream _ _} standing admitted run counted :=
    (consumes stream).shorter standing admitted run counted

theorem current_bind {second : Token → Parser β}
    (consumes : ∀ token, Consumes (fun stream => domain stream ∧ stream.current = token)
      (second token) counts) : Consumes domain (current >>= second) counts where
  tame := .current_bind fun token => (consumes token).tame
  shorter {stream _ _} standing admitted run counted :=
    (consumes stream.current).shorter standing ⟨admitted, rfl⟩ run counted

theorem advance_bind (inside : token ≠ .endOfInput) {second : Unit → Parser β}
    (tame : Tame (second ())) :
    Consumes (fun stream => domain stream ∧ stream.current = token) (advance >>= second) counts where
  tame := Tame.advance.bind fun _ => tame
  shorter := by
    rintro stream after value standing ⟨-, rfl⟩ run -
    have below : stream.Below (stream.remaining + 1) := ⟨standing, Nat.lt_succ_self _⟩
    have next := below.advance inside
    have behind := (tame.remaining_le run next.standing).2
    exact Nat.lt_of_le_of_lt behind next.fits

theorem of_startsBehind (inside : token ≠ .endOfInput) (starts : Tame.StartsBehind parser) :
    Consumes (fun stream => domain stream ∧ stream.current = token) parser counts := by
  obtain ⟨second, rfl, tame⟩ := starts
  exact advance_bind inside tame

theorem accept_bind (inside : token ≠ .endOfInput) {second : Bool → Parser β}
    (tame : Tame (second true)) (refused : Consumes domain (second false) counts) :
    Consumes domain (accept token >>= second) counts := by
  rw [accept_bind_eq]
  apply current_bind
  intro found
  split
  · rename_i isFound
    subst isFound
    exact advance_bind inside tame
  · exact refused.narrow fun _ => And.left

theorem bind {first : Parser α} {second : α → Parser β}
    (consumes : Consumes domain first fun _ => True) (tame : ∀ value, Tame (second value)) :
    Consumes domain (first >>= second) counts where
  tame := consumes.tame.bind tame
  shorter := by
    intro stream after result standing admitted run _
    obtain ⟨value, middle, ran, run⟩ := exists_of_runOn_bind run
    have fewer := consumes.shorter standing admitted ran trivial
    have reached := (consumes.tame.remaining_le ran standing).1
    have behind := ((tame value).remaining_le run reached).2
    omega

end Consumes

/-! ## Loops -/

/-- Wherever a loop goes on behind a step, the step has passed at least one
character. -/
abbrev Advances (step : α → Parser (Option α)) : Prop :=
  ∀ value, Consumes (fun _ => True) (step value) fun outcome => outcome.isSome = true

/-- A loop without a bound: steps one after the other, up to one that ends the
loop or fails. -/
inductive Iterates (step : α → Parser (Option α)) :
    α → Stream → Except ScriptError α → Stream → Prop
  | stops {value : α} {stream after : Stream}
      (run : (step value).runOn stream = (.ok none, after)) :
      Iterates step value stream (.ok value) after
  | fails {value : α} {stream after : Stream} {error : ScriptError}
      (run : (step value).runOn stream = (.error error, after)) :
      Iterates step value stream (.error error) after
  | goesOn {value next : α} {stream middle after : Stream} {outcome : Except ScriptError α}
      (run : (step value).runOn stream = (.ok (some next), middle))
      (others : Iterates step next middle outcome after) :
      Iterates step value stream outcome after

section

variable {step : α → Parser (Option α)}
variable {value : α}

theorem iterates_repeatUpTo (advances : Advances step) {bound : Nat} (standing : stream.Standing)
    (enough : stream.remaining < bound) (value : α) :
    Iterates step value stream ((repeatUpTo step bound value).runOn stream).1
      ((repeatUpTo step bound value).runOn stream).2 := by
  induction bound generalizing stream value with
  | zero => cases enough
  | succ bound ih =>
    rw [repeatUpTo, runOn_bind]
    cases ran : (step value).runOn stream with
    | mk outcome middle =>
      rcases outcome with error | _ | next
      · exact .fails ran
      · exact .stops ran
      · have fewer := (advances value).shorter standing trivial ran rfl
        have behind := ((advances value).tame.remaining_le ran standing).1
        exact .goesOn ran (ih behind (by omega) _)

/-- A loop comes to an end after finitely many steps. -/
theorem iterates_loop (advances : Advances step) (standing : stream.Standing) (value : α) :
    Iterates step value stream ((loop step value).runOn stream).1
      ((loop step value).runOn stream).2 := by
  rw [loop, runOn_bind]
  cases ran : (step value).runOn stream with
  | mk outcome middle =>
    rcases outcome with error | _ | next
    · exact .fails ran
    · exact .stops ran
    · have behind := ((advances value).tame.remaining_le ran standing).1
      exact .goesOn ran (iterates_repeatUpTo advances behind (Nat.lt_succ_self _) _)

theorem Iterates.findings_grow (iterates : Iterates step value stream outcome after)
    (tame : ∀ value, Tame (step value)) : stream.findings <+: after.findings := by
  induction iterates with
  | stops run | fails run => exact (tame _).findings_grow run
  | goesOn run _ ih => exact ((tame _).findings_grow run).trans ih

/-- The steps of a loop determine where it ends. -/
theorem Iterates.eq {other : Except ScriptError α} {otherAfter : Stream}
    (iterates : Iterates step value stream outcome after)
    (others : Iterates step value stream other otherAfter) :
    other = outcome ∧ otherAfter = after := by
  induction iterates with
  | stops run =>
    cases others with
    | stops otherRun => exact ⟨rfl, (Prod.mk.inj (otherRun.symm.trans run)).2⟩
    | fails otherRun | goesOn otherRun _ => cases otherRun.symm.trans run
  | fails run =>
    cases others with
    | stops otherRun => cases otherRun.symm.trans run
    | fails otherRun => cases otherRun.symm.trans run; exact ⟨rfl, rfl⟩
    | goesOn otherRun _ => cases otherRun.symm.trans run
  | goesOn run _ ih =>
    cases others with
    | stops otherRun | fails otherRun => cases otherRun.symm.trans run
    | goesOn otherRun rest =>
      cases otherRun.symm.trans run
      exact ih rest

theorem Iterates.runOn_loop (iterates : Iterates step value stream outcome after)
    (advances : Advances step) (standing : stream.Standing) :
    (loop step value).runOn stream = (outcome, after) := by
  obtain ⟨sameOutcome, sameStream⟩ := iterates.eq (iterates_loop advances standing value)
  exact Prod.ext sameOutcome sameStream

end

/-! ## Parsers that never fail -/

/-- A parser that returns a value on every stream. -/
def Returns (parser : Parser α) : Prop :=
  ∀ stream, ∃ value after, parser.runOn stream = (.ok value, after)

namespace Returns

theorem pure (value : α) : Returns (Pure.pure value : Parser α) :=
  fun stream => ⟨value, stream, rfl⟩

theorem advance : Returns Parser.advance :=
  fun stream => ⟨(), stream.advance, rfl⟩

theorem report (error : ScriptError) : Returns (Parser.report error) :=
  fun stream => ⟨(), stream.report error.finding, rfl⟩

theorem attempt (parser : Parser α) : Returns (Parser.attempt parser) :=
  fun stream => ⟨_, _, runOn_attempt parser stream⟩

theorem get_bind {second : Stream → Parser β} (returns : ∀ found, Returns (second found)) :
    Returns (get >>= second) :=
  fun stream => returns stream stream

theorem current_bind {second : Token → Parser β} (returns : ∀ token, Returns (second token)) :
    Returns (current >>= second) :=
  fun stream => returns stream.current stream

theorem bind {first : Parser α} {second : α → Parser β} (returns : Returns first)
    (secondReturns : ∀ value, Returns (second value)) : Returns (first >>= second) := by
  intro stream
  obtain ⟨value, middle, run⟩ := returns stream
  rw [runOn_bind, run]
  exact secondReturns value middle

theorem repeatUpTo {step : α → Parser (Option α)} (returns : ∀ value, Returns (step value))
    (bound : Nat) (value : α) : Returns (Parser.repeatUpTo step bound value) := by
  induction bound generalizing value with
  | zero => exact .pure value
  | succ bound ih =>
    apply (returns value).bind
    rintro (_ | next)
    · exact .pure value
    · exact ih next

theorem loop {step : α → Parser (Option α)} (returns : ∀ value, Returns (step value))
    (value : α) : Returns (Parser.loop step value) := by
  apply (returns value).bind
  rintro (_ | next)
  · exact .pure value
  · exact .get_bind fun _ => .repeatUpTo returns _ next

end Returns

end EventScript.Parser
