import EventScript.Proofs.Lexing.Streams
import EventScript.Proofs.Parser.Run

/-!
# Parsers that read given tokens

`Reads parser tokens rest value` says that a parser, in front of some tokens
with others behind them, returns a value and has passed exactly the former
tokens, without findings.  The rules below compose such statements along the
structure of parsers; a loop is followed with `Steps`.
-/

namespace EventScript

variable {tokens rest : List Token}

namespace Stream

/-- Pass several tokens. -/
def skip : Nat → Stream → Stream
  | 0, stream => stream
  | count + 1, stream => stream.advance.skip count

theorem skip_add (first second : Nat) (stream : Stream) :
    stream.skip (first + second) = (stream.skip first).skip second := by
  induction first generalizing stream with
  | zero => rw [Nat.zero_add]; rfl
  | succ first ih =>
    rw [Nat.succ_add]
    exact ih stream.advance

theorem At.skip {stream : Stream} (standing : stream.At (tokens ++ rest)) :
    (stream.skip tokens.length).At rest := by
  induction tokens generalizing stream with
  | nil => exact standing
  | cons token others ih => exact ih standing.advance

theorem At.findings_skip {stream : Stream} (standing : stream.At (tokens ++ rest)) :
    (stream.skip tokens.length).findings = stream.findings := by
  induction tokens generalizing stream with
  | nil => rfl
  | cons token others ih =>
    exact (ih standing.advance).trans standing.findings_advance

end Stream

namespace Parser

variable {α β : Type}
variable {first : Parser α} {value : α} {step : α → Parser (Option α)}

/-- A parser that, in front of `tokens` with `rest` behind them, returns a value
and has passed exactly `tokens`. -/
def Reads (parser : Parser α) (tokens rest : List Token) (value : α) : Prop :=
  ∀ stream : Stream, stream.At (tokens ++ rest) →
    parser.runOn stream = (.ok value, stream.skip tokens.length)

theorem Reads.pure (value : α) (rest : List Token) :
    Reads (Pure.pure value : Parser α) [] rest value := by
  intro stream _
  rfl

/-- Two parsers in a row read one part of the tokens each. -/
theorem Reads.bind {second : α → Parser β} {firstTokens others : List Token} {result : β}
    (readFirst : Reads first firstTokens (others ++ rest) value)
    (readSecond : Reads (second value) others rest result) :
    Reads (first >>= second) (firstTokens ++ others) rest result := by
  intro stream standing
  rw [List.append_assoc] at standing
  rw [runOn_bind, readFirst stream standing, List.length_append, Stream.skip_add]
  exact readSecond _ standing.skip

/-- A first step that reads nothing. -/
theorem Reads.bind_of_nil {second : α → Parser β} {result : β}
    (readFirst : Reads first [] (tokens ++ rest) value)
    (readSecond : Reads (second value) tokens rest result) :
    Reads (first >>= second) tokens rest result :=
  Reads.bind readFirst readSecond

/-- A second step that reads nothing. -/
theorem Reads.bind_nil {second : α → Parser β} {result : β}
    (readFirst : Reads first tokens rest value) (readSecond : Reads (second value) [] rest result) :
    Reads (first >>= second) tokens rest result := by
  rw [← List.append_nil tokens]
  exact Reads.bind readFirst readSecond

/-- A last step that reads nothing. -/
theorem Reads.map (readFirst : Reads first tokens rest value) (function : α → β) :
    Reads (first >>= fun value => Pure.pure (function value)) tokens rest (function value) :=
  Reads.bind_nil readFirst (Reads.pure (function value) rest)

variable {tokens rest : List Token} {token : Token} {result : β}

theorem Reads.get_bind {second : Stream → Parser β}
    (read : ∀ stream : Stream, stream.At (tokens ++ rest) →
      Reads (second stream) tokens rest result) :
    Reads (get >>= second) tokens rest result := by
  intro stream standing
  rw [runOn_bind, runOn_get]
  exact read stream standing stream standing

theorem Reads.current_bind {second : Token → Parser β}
    (read : Reads (second ((tokens ++ rest).headD .endOfInput)) tokens rest result) :
    Reads (current >>= second) tokens rest result := by
  intro stream standing
  rw [runOn_bind, runOn_current, standing.current_eq]
  exact read stream standing

theorem Reads.of_current_bind {second : Token → Parser β}
    (read : Reads (current >>= second) tokens rest result) :
    Reads (second ((tokens ++ rest).headD .endOfInput)) tokens rest result := by
  intro stream standing
  have run := read stream standing
  rwa [runOn_bind, runOn_current, standing.current_eq] at run

theorem Reads.isAt_bind {second : Bool → Parser β}
    (read : Reads (second ((tokens ++ rest).headD .endOfInput == token)) tokens rest result) :
    Reads (isAt token >>= second) tokens rest result := by
  intro stream standing
  rw [runOn_bind, runOn_isAt, standing.current_eq]
  exact read stream standing

theorem Reads.advance_bind {second : Unit → Parser β}
    (read : Reads (second ()) tokens rest result) :
    Reads (advance >>= second) (token :: tokens) rest result := by
  intro stream standing
  rw [runOn_bind, runOn_advance]
  exact read _ standing.advance

theorem Reads.accept_bind {second : Bool → Parser β}
    (read : Reads (second true) tokens rest result) :
    Reads (accept token >>= second) (token :: tokens) rest result := by
  intro stream standing
  rw [runOn_bind, runOn_accept, if_pos standing.1]
  exact read _ standing.advance

theorem Reads.accept_bind_of_ne {second : Bool → Parser β}
    (other : (tokens ++ rest).headD .endOfInput ≠ token)
    (read : Reads (second false) tokens rest result) :
    Reads (accept token >>= second) tokens rest result := by
  intro stream standing
  rw [runOn_bind, runOn_accept, if_neg (by rw [standing.current_eq]; exact other)]
  exact read _ standing

theorem Reads.expect_bind {expectation : Expectation} {second : Unit → Parser β}
    (read : Reads (second ()) tokens rest result) :
    Reads (expect token expectation >>= second) (token :: tokens) rest result := by
  intro stream standing
  rw [runOn_bind, runOn_expect, if_pos standing.1]
  exact read _ standing.advance

theorem Reads.attempt {parser : Parser α} (read : Reads parser tokens rest value) :
    Reads (Parser.attempt parser) tokens rest (.ok value) := by
  intro stream standing
  rw [runOn_attempt, read stream standing]

theorem Reads.fmap {parser : Parser α} (read : Reads parser tokens rest value) (function : α → β) :
    Reads (function <$> parser) tokens rest (function value) := by
  rw [← bind_pure_comp]
  exact Reads.map read function

/-! ## Loops -/

/-- Repeated steps that lead from one value to another and pass given tokens,
at least one in each step. -/
inductive Steps (step : α → Parser (Option α)) : α → List Token → List Token → α → Prop
  | refl (value : α) (rest : List Token) : Steps step value [] rest value
  | next {value middle result : α} {first others rest : List Token}
      (read : Reads (step value) first (others ++ rest) (some middle)) (nonempty : first ≠ [])
      (later : Steps step middle others rest result) :
      Steps step value (first ++ others) rest result

theorem Steps.single {result : α} (read : Reads (step value) tokens rest (some result))
    (nonempty : tokens ≠ []) : Steps step value tokens rest result := by
  rw [← List.append_nil tokens]
  exact .next read nonempty (.refl result rest)

theorem Steps.trans {middle result : α} {first others : List Token}
    (earlier : Steps step value first (others ++ rest) middle)
    (later : Steps step middle others rest result) :
    Steps step value (first ++ others) rest result := by
  generalize behind : others ++ rest = whole at earlier
  induction earlier with
  | refl => exact later
  | next read nonempty _ ih =>
    subst behind
    rw [List.append_assoc]
    exact .next (by rwa [List.append_assoc]) nonempty (ih later rfl)

theorem Steps.reads_repeatUpTo {result : α} {bound : Nat}
    (steps : Steps step value tokens rest result) (stop : Reads (step result) [] rest none)
    (enough : tokens.length < bound) : Reads (repeatUpTo step bound value) tokens rest result := by
  induction steps generalizing bound with
  | refl value rest =>
    cases bound with
    | zero => cases enough
    | succ bound =>
      rw [repeatUpTo]
      exact Reads.bind_of_nil stop (Reads.pure value rest)
  | @next value middle result first others rest read nonempty later ih =>
    cases bound with
    | zero => cases enough
    | succ bound =>
      have positive := List.length_pos_iff.mpr nonempty
      rw [List.length_append] at enough
      exact Reads.bind read (ih stop (by omega))

/-- A loop reads what its steps read, up to a place where there is no further
step. -/
theorem Steps.reads_loop {result : α} (steps : Steps step value tokens rest result)
    (stop : Reads (step result) [] rest none) : Reads (loop step value) tokens rest result := by
  cases steps with
  | refl =>
    rw [loop]
    exact Reads.bind_of_nil stop (Reads.pure value rest)
  | next read nonempty later =>
    refine Reads.bind read (Reads.get_bind ?_)
    intro stream standing
    have bounded := standing.length_le_remaining
    rw [List.length_append] at bounded
    exact later.reads_repeatUpTo stop (by omega)

end Parser

end EventScript
