import EventScript.Expr.Parse

/-!
# Running parsers

What each step on a stream does, one equation for each step, and how a
sequence of two parsers runs.
-/

namespace EventScript.Parser

variable {α β : Type}
variable {stream : Stream}

@[simp]
theorem runOn_pure (value : α) (stream : Stream) :
    (pure value : Parser α).runOn stream = (.ok value, stream) :=
  rfl

/-- The second parser runs where the first one stopped, unless that failed. -/
theorem runOn_bind (first : Parser α) (second : α → Parser β) (stream : Stream) :
    (first >>= second).runOn stream =
      match first.runOn stream with
      | (.ok value, after) => (second value).runOn after
      | (.error error, after) => (.error error, after) := by
  change (ExceptT.bindCont second (first stream).1) (first stream).2 = _
  change _ = match first stream with
    | (.ok value, after) => (second value).runOn after
    | (.error error, after) => (.error error, after)
  rcases first stream with ⟨_ | value, after⟩ <;> rfl

/-- A sequence returns a value only if both parsers do. -/
theorem exists_of_runOn_bind {first : Parser α} {second : α → Parser β} {after : Stream}
    {result : β} (run : (first >>= second).runOn stream = (.ok result, after)) :
    ∃ value middle, first.runOn stream = (.ok value, middle) ∧
      (second value).runOn middle = (.ok result, after) := by
  rw [runOn_bind] at run
  rcases ran : first.runOn stream with ⟨error | value, middle⟩
  · rw [ran] at run
    cases run
  · rw [ran] at run
    exact ⟨value, middle, rfl, run⟩

@[simp]
theorem runOn_get (stream : Stream) : (get : Parser Stream).runOn stream = (.ok stream, stream) :=
  rfl

@[simp]
theorem runOn_current (stream : Stream) : current.runOn stream = (.ok stream.current, stream) :=
  rfl

@[simp]
theorem runOn_advance (stream : Stream) : advance.runOn stream = (.ok (), stream.advance) :=
  rfl

@[simp]
theorem runOn_throw (error : ScriptError) (stream : Stream) :
    (throw error : Parser α).runOn stream = (.error error, stream) :=
  rfl

@[simp]
theorem runOn_fail (fault : Fault) (stream : Stream) :
    (fail fault : Parser α).runOn stream = (.error (.invalid stream.line fault), stream) :=
  rfl

@[simp]
theorem runOn_refuse (stream : Stream) :
    (refuse : Parser α).runOn stream =
      (.error (.invalid stream.line (.notAnOperand stream.current)), stream) :=
  rfl

@[simp]
theorem runOn_report (error : ScriptError) (stream : Stream) :
    (report error).runOn stream = (.ok (), stream.report error.finding) :=
  rfl

@[simp]
theorem runOn_isAt (token : Token) (stream : Stream) :
    (isAt token).runOn stream = (.ok (stream.current == token), stream) :=
  rfl

@[simp]
theorem runOn_takeRaw (stream : Stream) :
    takeRaw.runOn stream = (.ok stream.takeRaw.1, stream.takeRaw.2) :=
  rfl

@[simp]
theorem runOn_attempt (parser : Parser α) (stream : Stream) :
    (attempt parser).runOn stream = (.ok (parser.runOn stream).1, (parser.runOn stream).2) :=
  rfl

theorem runOn_accept (token : Token) (stream : Stream) :
    (accept token).runOn stream =
      if stream.current = token then (.ok true, stream.advance) else (.ok false, stream) := by
  simp only [accept, runOn_bind, runOn_isAt, beq_iff_eq]
  split <;> rfl

theorem runOn_expect (token : Token) (expectation : Expectation) (stream : Stream) :
    (expect token expectation).runOn stream =
      if stream.current = token then (.ok (), stream.advance)
      else (.error (.invalid stream.line (.missing expectation)), stream) := by
  simp only [expect, runOn_bind, runOn_accept]
  by_cases found : stream.current = token
  · rw [if_pos found, if_pos found]
    rfl
  · rw [if_neg found, if_neg found]
    rfl

/-- A loop ends where its step has nothing more to read. -/
theorem runOn_repeatUpTo_of_none {step : α → Parser (Option α)} {value : α}
    (stops : (step value).runOn stream = (.ok none, stream)) (bound : Nat) :
    (repeatUpTo step bound value).runOn stream = (.ok value, stream) := by
  cases bound with
  | zero => rfl
  | succ bound =>
    rw [repeatUpTo, runOn_bind, stops]
    rfl

theorem runOn_loop_of_none {step : α → Parser (Option α)} {value : α}
    (stops : (step value).runOn stream = (.ok none, stream)) :
    (loop step value).runOn stream = (.ok value, stream) := by
  rw [loop, runOn_bind, stops]
  rfl

end EventScript.Parser
