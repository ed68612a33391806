import EventScript.Fault
import EventScript.Text.Blank

/-!
# Reading tokens from a text

A `Cursor` is a place in a script text: what is left of the text, the byte
offset and the line.  `Cursor.scan` steps over a gap of blanks and comments and
reads one token.  Each kind of token is recognised by a function from the
remaining characters to the token and what remains behind it; offset and line
are then computed from the characters passed, in one function.
-/

namespace EventScript

/-- A place in a script text. -/
structure Cursor where
  /-- The characters from here to the end of the text. -/
  rest : List Char
  /-- The number of bytes in front, in the UTF-8 encoding. -/
  offset : Nat
  /-- The line, counted from one. -/
  line : Nat
  deriving DecidableEq, Repr

/-- The number of bytes of a text in the UTF-8 encoding. -/
def byteLength (text : List Char) : Nat :=
  text.foldr (fun character bytes => character.utf8Size + bytes) 0

@[simp]
theorem byteLength_nil : byteLength [] = 0 :=
  rfl

@[simp]
theorem byteLength_cons (character : Char) (text : List Char) :
    byteLength (character :: text) = character.utf8Size + byteLength text :=
  rfl

@[simp]
theorem byteLength_append (first second : List Char) :
    byteLength (first ++ second) = byteLength first + byteLength second := by
  induction first with
  | nil => simp
  | cons character text ih => simp [ih, Nat.add_assoc]

namespace Cursor

/-- The beginning of a text. -/
def ofText (text : List Char) : Cursor :=
  ⟨text, 0, 1⟩

/-- Step over the characters in front of `rest`, which is taken to be what a
reader left of the remaining text. -/
def upTo (cursor : Cursor) (rest : List Char) : Cursor :=
  let passed := cursor.rest.take (cursor.rest.length - rest.length)
  ⟨rest, cursor.offset + byteLength passed, cursor.line + passed.count '\n'⟩

/-- Drop whole characters until `bytes` bytes are dropped. -/
def dropBytes : Nat → List Char → List Char
  | _, [] => []
  | bytes, character :: rest =>
    if bytes = 0 then character :: rest
    else dropBytes (bytes - character.utf8Size) rest

/-- The place at a byte offset of a text, or its end if the text is shorter.
The line is the caller's. -/
def atOffset (text : List Char) (offset line : Nat) : Cursor :=
  ⟨dropBytes offset text, min offset (byteLength text), line⟩

/-- Stepping over a known part of the text adds its bytes and its line
feeds. -/
theorem upTo_of_rest_eq_append {cursor : Cursor} {passed rest : List Char}
    (split : cursor.rest = passed ++ rest) :
    cursor.upTo rest =
      ⟨rest, cursor.offset + byteLength passed, cursor.line + passed.count '\n'⟩ := by
  have taken : cursor.rest.take (cursor.rest.length - rest.length) = passed := by
    rw [split]
    simp
  simp [upTo, taken]

@[simp]
theorem upTo_rest (cursor : Cursor) (rest : List Char) : (cursor.upTo rest).rest = rest :=
  rfl

end Cursor

/-! ## Gaps between tokens -/

/-- What surrounds a character in the gap in front of a token. -/
inductive Gap where
  | blanks
  | lineComment
  /-- A comment between marks, with the text from its opening mark. -/
  | comment (opening : List Char)

/-- What remains behind a gap, or the text from the opening mark of the comment
that is never closed. -/
def skipGap : Gap → List Char → Except (List Char) (List Char)
  | .blanks, '/' :: '/' :: rest => skipGap .lineComment rest
  | .blanks, '/' :: '*' :: rest => skipGap (.comment ('/' :: '*' :: rest)) rest
  | .blanks, character :: rest =>
    if Text.isBlank character then skipGap .blanks rest else .ok (character :: rest)
  | .lineComment, character :: rest =>
    if character == '\n' then skipGap .blanks rest else skipGap .lineComment rest
  | .comment _, '*' :: '/' :: rest => skipGap .blanks rest
  | .comment opening, _ :: rest => skipGap (.comment opening) rest
  | .comment opening, [] => .error opening
  | _, [] => .ok []

/-! ## The shapes of tokens -/

/-- Characters of a name. -/
def isNameChar (character : Char) : Bool :=
  character.isAlphanum || character == '_'

/-- Characters that begin a name. -/
def isNameStart (character : Char) : Bool :=
  character.isAlpha || character == '_'

/-- Whether a text begins with a letter. -/
def startsWithLetter : List Char → Bool
  | character :: _ => character.isAlpha
  | [] => false

/-- Whether a text begins with a digit. -/
def startsWithDigit : List Char → Bool
  | character :: _ => character.isDigit
  | [] => false

/-- Split a number off the front of a text.  It has at most one point, and a
point in front of a letter belongs to what follows. -/
def spanNumber : (pointSeen : Bool) → List Char → List Char × List Char
  | _, [] => ([], [])
  | pointSeen, character :: rest =>
    if character.isDigit then
      let (number, left) := spanNumber pointSeen rest
      (character :: number, left)
    else if character == '.' && !pointSeen && !startsWithLetter rest then
      let (number, left) := spanNumber true rest
      (character :: number, left)
    else ([], character :: rest)

/-- The character that an escape stands for. -/
def unescape : Char → Char
  | 'n' => '\n'
  | 't' => '\t'
  | 'r' => '\r'
  | character => character

/-- Read a quoted text from behind its opening quote: its value and what
remains behind the closing quote, if there is one. -/
def readQuoted : List Char → Option (List Char × List Char)
  | [] => none
  | '"' :: rest => some ([], rest)
  | '\\' :: character :: rest =>
    (readQuoted rest).map fun (value, left) => (unescape character :: value, left)
  | character :: rest =>
    (readQuoted rest).map fun (value, left) => (character :: value, left)

/-- Read a symbol that begins with a given character, two characters long if
that is possible. -/
def readSymbol (character : Char) (rest : List Char) : Option (Symbol × List Char) :=
  match rest with
  | [] => (Symbol.ofChar? character).map fun mark => (mark, [])
  | second :: left =>
    match Symbol.ofPair? character second with
    | some mark => some (mark, left)
    | none => (Symbol.ofChar? character).map fun mark => (mark, rest)

/-- Read the token at the front of a text that does not begin with a gap, and
what remains behind it.  After an unexpected character reading can go on; an
open quoted text takes all that is left. -/
def readToken (text : List Char) : Except Fault Token × List Char :=
  match text with
  | [] => (.ok .endOfInput, [])
  | character :: rest =>
    if character.isDigit || (character == '.' && startsWithDigit rest) then
      let (number, left) := spanNumber false text
      (.ok (.number (String.ofList number)), left)
    else if isNameStart character then
      (.ok (.ofWord (String.ofList (text.takeWhile isNameChar))), text.dropWhile isNameChar)
    else if character == '"' then
      match readQuoted rest with
      | some (value, left) => (.ok (.text (String.ofList value)), left)
      | none => (.error (.unterminated .text), [])
    else
      match readSymbol character rest with
      | some (mark, left) => (.ok (.symbol mark), left)
      | none => (.error (.unexpectedCharacter character), rest)

/-- Split an unquoted argument off the front of a text.  It ends before a
comma, semicolon, closing parenthesis or closing brace that is nested neither
in parentheses nor in quotes. -/
def spanRaw : (depth : Nat) → (quoted : Bool) → List Char → List Char × List Char
  | _, _, [] => ([], [])
  | depth, true, '\\' :: character :: rest =>
    let (argument, left) := spanRaw depth true rest
    ('\\' :: character :: argument, left)
  | depth, true, character :: rest =>
    let (argument, left) := spanRaw depth (character != '"') rest
    (character :: argument, left)
  | depth, false, character :: rest =>
    if depth == 0 && (character == ',' || character == ';' || character == ')' ||
        character == '}') then
      ([], character :: rest)
    else
      let inner := if character == '(' then depth + 1
        else if character == ')' then depth - 1
        else depth
      let (argument, left) := spanRaw inner (character == '"') rest
      (character :: argument, left)

/-! ## Scanning -/

/-- The error for a fault at a place. -/
def Fault.atLine (line : Nat) : Fault → ScriptError
  | .unterminated construct => .unterminated line construct
  | fault => .invalid line fault

/-- The outcome of reading one token. -/
structure Scan where
  /-- The token, or why there is none. -/
  outcome : Except ScriptError Token
  /-- Where the token begins. -/
  start : Cursor
  /-- Where reading goes on. -/
  next : Cursor

namespace Cursor

/-- Read the next token.  An unclosed comment or quoted text is reported on the
line where it begins and takes all that is left. -/
def scan (cursor : Cursor) : Scan :=
  match skipGap .blanks cursor.rest with
  | .error opening =>
    let start := cursor.upTo opening
    ⟨.error (.unterminated start.line .comment), start, cursor.upTo []⟩
  | .ok rest =>
    let start := cursor.upTo rest
    let (outcome, left) := readToken rest
    ⟨outcome.mapError (Fault.atLine start.line), start, start.upTo left⟩

/-- Read an unquoted argument from here, without the blanks around it. -/
def rawArgument (cursor : Cursor) : String × Cursor :=
  let (argument, left) := spanRaw 0 false cursor.rest
  (String.ofList (Text.trimChars argument), cursor.upTo left)

/-- Read tokens up to and including the end of the text, keeping errors in
place.  The first argument bounds the number of tokens. -/
def scanAll : Nat → Cursor → List Scan
  | 0, _ => []
  | bound + 1, cursor =>
    let scanned := cursor.scan
    match scanned.outcome with
    | .ok .endOfInput => [scanned]
    | _ => scanned :: scanAll bound scanned.next

end Cursor

/-- Every token of a text with its place, the last one being the end of the
text.  A text has at most one token per character besides its end. -/
def tokens (text : String) : List Scan :=
  Cursor.scanAll (text.toList.length + 1) (.ofText text.toList)

end EventScript
