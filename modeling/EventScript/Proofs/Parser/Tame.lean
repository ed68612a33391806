import EventScript.Proofs.Lexing.Streams
import EventScript.Proofs.Parser.Upholds

/-!
# What every parser keeps

All rules of the grammar change the stream by the same few steps: they go to the
next token, read an unquoted argument, or report an error on the line of the
current token.  An invariant that these steps keep is kept by every rule, and
every rule that fails does so on the line of the token where it stops.
-/

namespace EventScript.Parser

variable {α β : Type}
variable (token : Token)

/-- An invariant of streams that every step keeps. -/
structure Lasting (invariant : Stream → Prop) : Prop where
  advance : ∀ stream, invariant stream → invariant stream.advance
  takeRaw : ∀ stream, invariant stream → invariant stream.takeRaw.2
  report : ∀ stream finding, finding.line = stream.line → invariant stream →
    invariant (stream.report finding)

theorem Lasting.steady {invariant : Stream → Prop} (lasting : Lasting invariant) :
    Steady invariant (fun _ => True) fun _ => True where
  current _ _ := trivial
  advance := lasting.advance
  takeRaw stream holds := ⟨lasting.takeRaw stream holds, trivial⟩

/-- Findings are only added. -/
theorem lasting_findings (findings : List Finding) :
    Lasting fun stream => findings <+: stream.findings where
  advance _ added := added.trans (Stream.findings_prefix_seek _ _ _)
  takeRaw _ added := added.trans (Stream.findings_prefix_seek _ _ _)
  report _ _ _ added := added.trans (List.prefix_append _ _)

/-- A parser that changes the stream by steps alone, and that fails on the line
of the token where it stops. -/
structure Tame (parser : Parser α) : Prop where
  upholds : ∀ {invariant : Stream → Prop}, Lasting invariant →
    Upholds invariant parser fun _ => True
  dated : ∀ {stream after : Stream} {error : ScriptError},
    parser.runOn stream = (.error error, after) → error.line = after.line

/-! ## Steps in front of a parser -/

theorem isAt_bind_eq (second : Bool → Parser β) :
    isAt token >>= second = current >>= fun found => second (found == token) :=
  rfl

/-- A parser that runs as one that looks at the current token is that one. -/
theorem eq_current_bind {parser : Parser β} {second : Token → Parser β}
    (runs : ∀ stream : Stream, parser.runOn stream = (second stream.current).runOn stream) :
    parser = current >>= second :=
  funext runs

theorem accept_bind_eq (second : Bool → Parser β) :
    accept token >>= second =
      current >>= fun found =>
        if found = token then advance >>= fun _ => second true else second false := by
  refine eq_current_bind fun stream => ?_
  rw [runOn_bind, runOn_accept]
  by_cases found : stream.current = token
  · rw [if_pos found, if_pos found]
    rfl
  · rw [if_neg found, if_neg found]

theorem expect_bind_eq (expectation : Expectation) (second : Unit → Parser β) :
    expect token expectation >>= second =
      current >>= fun found =>
        if found = token then advance >>= second else fail (.missing expectation) := by
  refine eq_current_bind fun stream => ?_
  rw [runOn_bind, runOn_expect]
  by_cases found : stream.current = token
  · rw [if_pos found, if_pos found]
    rfl
  · rw [if_neg found, if_neg found]
    rfl

namespace Tame

variable (token : Token)

theorem pure (value : α) : Tame (Pure.pure value : Parser α) where
  upholds _ := Upholds.pure trivial
  dated := by rintro _ _ _ ⟨⟩

theorem get_bind {second : Stream → Parser β} (tame : ∀ stream, Tame (second stream)) :
    Tame (get >>= second) where
  upholds lasting := Upholds.get_bind fun stream => (tame stream).upholds lasting
  dated {stream _ _} run := (tame stream).dated run

theorem current_bind {second : Token → Parser β} (tame : ∀ token, Tame (second token)) :
    Tame (current >>= second) :=
  get_bind fun stream => tame stream.current

theorem fail (fault : Fault) : Tame (Parser.fail fault : Parser α) where
  upholds _ := Upholds.fail fault _
  dated := by
    rintro _ _ _ ⟨rfl, rfl⟩
    rfl

theorem refuse : Tame (Parser.refuse : Parser α) :=
  current_bind fun _ => fail _

/-- Failing at the end of a construct that is not closed. -/
theorem breakOff (construct : Construct) :
    Tame (get >>= fun stream => throw (.unterminated stream.line construct) : Parser α) where
  upholds _ stream kept := ⟨kept, by rintro _ ⟨⟩⟩
  dated := by
    rintro _ _ _ ⟨rfl, rfl⟩
    rfl

theorem bind {first : Parser α} {second : α → Parser β} (tame : Tame first)
    (thenTame : ∀ value, Tame (second value)) : Tame (first >>= second) where
  upholds lasting := Upholds.bind (tame.upholds lasting) fun value _ =>
    (thenTame value).upholds lasting
  dated := by
    intro stream after error run
    rw [runOn_bind] at run
    cases ran : first.runOn stream with
    | mk outcome middle =>
      rw [ran] at run
      cases outcome with
      | error failure =>
        cases run
        exact tame.dated ran
      | ok value => exact (thenTame value).dated run

theorem map {parser : Parser α} (tame : Tame parser) (function : α → β) :
    Tame (function <$> parser) := by
  rw [← bind_pure_comp]
  exact tame.bind fun _ => pure _

theorem advance : Tame Parser.advance where
  upholds lasting := Upholds.advance lasting.steady
  dated := by rintro _ _ _ ⟨⟩

theorem takeRaw : Tame Parser.takeRaw where
  upholds lasting := Upholds.takeRaw lasting.steady
  dated := by rintro _ _ _ ⟨⟩

theorem isAt_bind {second : Bool → Parser β} (tame : ∀ found, Tame (second found)) :
    Tame (isAt token >>= second) := by
  rw [isAt_bind_eq]
  exact current_bind fun found => tame (found == token)

theorem accept : Tame (Parser.accept token) := by
  apply isAt_bind
  rintro (_ | _)
  · exact pure false
  · exact advance.bind fun _ => pure true

theorem expect (expectation : Expectation) : Tame (Parser.expect token expectation) := by
  apply (accept token).bind
  rintro (_ | _)
  · exact fail _
  · exact pure ()

/-- Reporting a fault of the current token. -/
theorem report_bind (fault : Fault) {second : Unit → Parser β} (tame : Tame (second ())) :
    Tame (get >>= fun stream => report (.invalid stream.line fault) >>= second) where
  upholds lasting stream holds := tame.upholds lasting _ (lasting.report stream _ rfl holds)
  dated run := tame.dated run

/-- Reporting why a parser has failed, and going on. -/
theorem recover {parser : Parser α} {second : Except ScriptError α → Parser β}
    {afterwards : ScriptError → Parser β} (tame : Tame parser)
    (returned : ∀ value, Tame (second (.ok value)))
    (failed : ∀ error, second (.error error) = report error >>= fun _ => afterwards error)
    (thenTame : ∀ error, Tame (afterwards error)) : Tame (attempt parser >>= second) := by
  have runs (stream : Stream) : (attempt parser >>= second).runOn stream =
      (second (parser.runOn stream).1).runOn (parser.runOn stream).2 := rfl
  constructor
  · intro invariant lasting stream holds
    have kept := (tame.upholds lasting stream holds).1
    rw [runs]
    cases ran : parser.runOn stream with
    | mk outcome after =>
      rw [ran] at kept
      cases outcome with
      | ok value => exact (returned value).upholds lasting after kept
      | error error =>
        rw [failed]
        refine (thenTame error).upholds lasting _ (lasting.report after _ ?_ kept)
        rw [ScriptError.finding_line]
        exact tame.dated ran
  · intro stream after error run
    rw [runs] at run
    cases ran : parser.runOn stream with
    | mk outcome middle =>
      rw [ran] at run
      cases outcome with
      | ok value => exact (returned value).dated run
      | error failure =>
        rw [failed] at run
        exact (thenTame failure).dated run

theorem repeatUpTo {step : α → Parser (Option α)} (tame : ∀ value, Tame (step value))
    (bound : Nat) (value : α) : Tame (Parser.repeatUpTo step bound value) := by
  induction bound generalizing value with
  | zero => exact pure value
  | succ bound ih =>
    apply bind (tame value)
    rintro (_ | next)
    · exact pure value
    · exact ih next

theorem loop {step : α → Parser (Option α)} (tame : ∀ value, Tame (step value)) (value : α) :
    Tame (Parser.loop step value) := by
  apply bind (tame value)
  rintro (_ | next)
  · exact pure value
  · exact get_bind fun _ => repeatUpTo tame _ next

/-- A tame parser that begins with a step over the current token. -/
def StartsBehind (parser : Parser α) : Prop :=
  ∃ second : Unit → Parser α, parser = (Parser.advance >>= second) ∧ Tame (second ())

theorem StartsBehind.tame {parser : Parser α} (starts : StartsBehind parser) : Tame parser := by
  obtain ⟨second, rfl, thenTame⟩ := starts
  exact advance.bind fun _ => thenTame

theorem StartsBehind.bind {first : Parser α} {second : α → Parser β} (starts : StartsBehind first)
    (thenTame : ∀ value, Tame (second value)) : StartsBehind (first >>= second) := by
  obtain ⟨others, rfl, tame⟩ := starts
  exact ⟨fun _ => others () >>= second, bind_assoc _ _ _, tame.bind thenTame⟩

variable {parser : Parser α} {stream after : Stream} {outcome : Except ScriptError α}

theorem kept (tame : Tame parser) {invariant : Stream → Prop} (lasting : Lasting invariant)
    (run : parser.runOn stream = (outcome, after)) (holds : invariant stream) :
    invariant after := by
  have kept := (tame.upholds lasting stream holds).1
  rwa [run] at kept

theorem findings_grow (tame : Tame parser) (run : parser.runOn stream = (outcome, after)) :
    stream.findings <+: after.findings :=
  tame.kept (lasting_findings stream.findings) run (List.prefix_refl _)

end Tame

/-- Where nothing is found from a stream to a later one, nothing is found in
between. -/
theorem findings_eq_of_between {first middle last : Stream}
    (added : first.findings <+: middle.findings) (addedLater : middle.findings <+: last.findings)
    (clean : last.findings = first.findings) :
    middle.findings = first.findings ∧ last.findings = middle.findings := by
  rw [clean] at addedLater
  have same := added.eq_of_length_le addedLater.length_le
  exact ⟨same.symm, clean.trans same⟩

end EventScript.Parser
