import EventScript.Cursor

/-!
# Token streams

A `Stream` stands at one token of a script and remembers where that token
begins and where the text behind it begins, so the text of the token can be
read again as an unquoted argument.  Errors in the text between tokens are
collected as findings; the stream itself always stands at a token.
-/

namespace EventScript

/-- A script being read, standing at one of its tokens. -/
structure Stream where
  /-- The token the stream stands at. -/
  current : Token
  /-- Where that token begins. -/
  start : Cursor
  /-- Where the text behind that token begins. -/
  next : Cursor
  /-- What was found wrong so far, in order. -/
  findings : List Finding

namespace Stream

/-- Read from a place to the next token and collect the errors in between.
The first argument bounds the number of errors. -/
def seek : Nat → Cursor → List Finding → Stream
  | 0, cursor, findings => ⟨.endOfInput, cursor, cursor, findings⟩
  | bound + 1, cursor, findings =>
    let scanned := cursor.scan
    match scanned.outcome with
    | .ok token => ⟨token, scanned.start, scanned.next, findings⟩
    | .error error => seek bound scanned.next (findings ++ [error.finding])

/-- Read from a place to the next token.  Every error passes at least one
character, so there are no more errors than characters. -/
def readFrom (cursor : Cursor) (findings : List Finding) : Stream :=
  seek (cursor.rest.length + 1) cursor findings

/-- The stream at the first token of a text. -/
def ofText (text : List Char) : Stream :=
  readFrom (.ofText text) []

/-- Step to the next token. -/
def advance (stream : Stream) : Stream :=
  readFrom stream.next stream.findings

/-- The token behind the current one, or the end of the input if an error comes
first. -/
def following (stream : Stream) : Token :=
  match stream.next.scan.outcome with
  | .ok token => token
  | .error _ => .endOfInput

/-- The line of the current token. -/
def line (stream : Stream) : Nat :=
  stream.start.line

/-- The number of characters from the current token to the end. -/
def remaining (stream : Stream) : Nat :=
  stream.start.rest.length

/-- Read the text from the current token on as an unquoted argument and step to
the token behind it. -/
def takeRaw (stream : Stream) : String × Stream :=
  let (argument, behind) := stream.start.rawArgument
  (argument, readFrom behind stream.findings)

/-- Add a finding. -/
def report (stream : Stream) (finding : Finding) : Stream :=
  { stream with findings := stream.findings ++ [finding] }

end Stream

end EventScript
