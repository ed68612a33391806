import EventScript.Stream

/-!
# Parsers

A parser works on a token stream and either returns a value or fails; the
stream keeps its place in both cases, so a caller can go on behind a failure.
Besides the steps on single tokens there is one way to repeat, `loop`, which
is bounded by the characters that are left.
-/

namespace EventScript

/-- A computation on a token stream that can fail. -/
abbrev Parser := ExceptT ScriptError (StateM Stream)

namespace Parser

/-- Run a parser on a stream. -/
def runOn {α : Type} (parser : Parser α) (stream : Stream) : Except ScriptError α × Stream :=
  StateT.run (ExceptT.run parser) stream

/-- The token the stream stands at. -/
def current : Parser Token := do
  return (← get).current

/-- Step to the next token. -/
def advance : Parser Unit :=
  modify Stream.advance

/-- Fail with a fault on the line of the current token. -/
def fail {α : Type} (fault : Fault) : Parser α := do
  throw (.invalid (← get).line fault)

/-- Add a finding for an error. -/
def report (error : ScriptError) : Parser Unit :=
  modify fun stream => stream.report error.finding

/-- Whether the stream stands at a token. -/
def isAt (token : Token) : Parser Bool := do
  return (← current) == token

/-- Step over a token if the stream stands at it. -/
def accept (token : Token) : Parser Bool := do
  if ← isAt token then
    advance
    return true
  else
    return false

/-- Step over a token that the grammar requires. -/
def expect (token : Token) (expectation : Expectation) : Parser Unit := do
  unless ← accept token do
    fail (.missing expectation)

/-- Read an unquoted argument from the current token on. -/
def takeRaw : Parser String := do
  let (argument, stream) := (← get).takeRaw
  set stream
  return argument

/-- Run a parser and return its failure as a value. -/
def attempt {α : Type} (parser : Parser α) : Parser (Except ScriptError α) :=
  ExceptT.lift (ExceptT.run parser)

/-- Repeat a step until it returns nothing, at most `bound` times. -/
def repeatUpTo {α : Type} (step : α → Parser (Option α)) : Nat → α → Parser α
  | 0, value => return value
  | bound + 1, value => do
    match ← step value with
    | some value => repeatUpTo step bound value
    | none => return value

/-- Repeat a step until it returns nothing.  A step that returns a value has
passed at least one character, so the characters that are left behind the first
step bound the others. -/
def loop {α : Type} (step : α → Parser (Option α)) (value : α) : Parser α := do
  match ← step value with
  | some value => repeatUpTo step ((← get).remaining + 1) value
  | none => return value

end Parser

end EventScript
