/-!
# JSON documents

A reader for the JSON grammar.  A number is recognised but not valued, since no
option is a number.  A text with an unpaired surrogate escape has no value and
is accepted where its value does not matter.
-/

namespace EventScript

/-- A JSON document. -/
inductive JsonValue where
  | null
  | bool (value : Bool)
  | number
  /-- A text, with its value if it has one. -/
  | text (value : Option String)
  | array (items : List JsonValue)
  | object (members : List (Option String × JsonValue))

namespace JsonValue

/-- The white space of JSON. -/
def isSpace (character : Char) : Bool :=
  character == ' ' || character == '\n' || character == '\t' || character == '\r'

/-- Drop the white space in front of a text. -/
def dropSpace (text : List Char) : List Char :=
  text.dropWhile isSpace

/-! ## Texts -/

/-- A piece of a text: a character, or a code unit written as an escape. -/
inductive Piece where
  | character (value : Char)
  | unit (value : Nat)
  deriving DecidableEq, Repr

/-- The value of a hexadecimal digit. -/
def hexDigit? (character : Char) : Option Nat :=
  if character.isDigit then some (character.toNat - '0'.toNat)
  else if 'a' ≤ character && character ≤ 'f' then some (character.toNat - 'a'.toNat + 10)
  else if 'A' ≤ character && character ≤ 'F' then some (character.toNat - 'A'.toNat + 10)
  else none

/-- The code unit of four hexadecimal digits. -/
def unit? (first second third fourth : Char) : Option Nat := do
  let first ← hexDigit? first
  let second ← hexDigit? second
  let third ← hexDigit? third
  let fourth ← hexDigit? fourth
  return 4096 * first + 256 * second + 16 * third + fourth

/-- The character of an escape of one letter. -/
def escape? : Char → Option Char
  | '"' => some '"'
  | '\\' => some '\\'
  | '/' => some '/'
  | 'b' => some '\x08'
  | 'f' => some '\x0c'
  | 'n' => some '\n'
  | 'r' => some '\r'
  | 't' => some '\t'
  | _ => none

/-- Read a text from behind its opening quote: its pieces and what remains
behind the closing quote. -/
def readPieces : List Char → Option (List Piece × List Char)
  | [] => none
  | '"' :: rest => some ([], rest)
  | '\\' :: 'u' :: first :: second :: third :: fourth :: rest =>
    match unit? first second third fourth with
    | some value =>
      (readPieces rest).map fun (pieces, left) => (.unit value :: pieces, left)
    | none => none
  | '\\' :: letter :: rest =>
    match escape? letter with
    | some value =>
      (readPieces rest).map fun (pieces, left) => (.character value :: pieces, left)
    | none => none
  | character :: rest =>
    if character.toNat < 0x20 || character == '\\' then none
    else (readPieces rest).map fun (pieces, left) => (.character character :: pieces, left)

/-- Whether a code unit is the first half of a surrogate pair. -/
def isLeading (value : Nat) : Bool :=
  0xD800 ≤ value && value < 0xDC00

/-- Whether a code unit is the second half of a surrogate pair. -/
def isTrailing (value : Nat) : Bool :=
  0xDC00 ≤ value && value < 0xE000

/-- The characters of pieces, if every surrogate is paired. -/
def decode : List Piece → Option (List Char)
  | [] => some []
  | .character value :: rest => (decode rest).map (value :: ·)
  | .unit leading :: .unit trailing :: rest =>
    if isLeading leading && isTrailing trailing then
      let code := 0x10000 + (leading - 0xD800) * 0x400 + (trailing - 0xDC00)
      (decode rest).map (Char.ofNat code :: ·)
    else if isLeading leading || isTrailing leading then none
    else (decode (.unit trailing :: rest)).map (Char.ofNat leading :: ·)
  | .unit value :: rest =>
    if isLeading value || isTrailing value then none
    else (decode rest).map (Char.ofNat value :: ·)

/-- Read a text from behind its opening quote: its value, if it has one, and
what remains. -/
def readText (text : List Char) : Option (Option String × List Char) :=
  (readPieces text).map fun (pieces, left) => ((decode pieces).map String.ofList, left)

/-! ## Numbers -/

/-- Step over one or more digits. -/
def skipDigits (text : List Char) : Option (List Char) :=
  match text with
  | character :: rest => if character.isDigit then some (rest.dropWhile Char.isDigit) else none
  | [] => none

/-- Step over the exponent of a number, if there is one. -/
def skipExponent (text : List Char) : Option (List Char) :=
  match text with
  | mark :: rest =>
    if mark == 'e' || mark == 'E' then
      match rest with
      | '+' :: digits => skipDigits digits
      | '-' :: digits => skipDigits digits
      | digits => skipDigits digits
    else some text
  | [] => some []

/-- Step over the fraction and the exponent of a number, if there are any. -/
def skipFraction : List Char → Option (List Char)
  | '.' :: rest => (skipDigits rest).bind skipExponent
  | content => skipExponent content

/-- Step over a number without a sign.  A leading zero stands alone. -/
def skipUnsigned : List Char → Option (List Char)
  | '0' :: rest =>
    match rest with
    | character :: _ => if character.isDigit then none else skipFraction rest
    | [] => some []
  | content => (skipDigits content).bind skipFraction

/-- Step over a number. -/
def skipNumber : List Char → Option (List Char)
  | '-' :: rest => skipUnsigned rest
  | content => skipUnsigned content

/-! ## Values -/

mutual

/-- Read a value.  The first argument bounds the steps. -/
def readValue : Nat → List Char → Option (JsonValue × List Char)
  | 0, _ => none
  | bound + 1, content =>
    match dropSpace content with
    | 'n' :: 'u' :: 'l' :: 'l' :: rest => some (null, rest)
    | 't' :: 'r' :: 'u' :: 'e' :: rest => some (bool true, rest)
    | 'f' :: 'a' :: 'l' :: 's' :: 'e' :: rest => some (bool false, rest)
    | '"' :: rest => (readText rest).map fun (value, left) => (text value, left)
    | '[' :: rest =>
      match dropSpace rest with
      | ']' :: left => some (array [], left)
      | inside => (readItems bound inside).map fun (items, left) => (array items, left)
    | '{' :: rest =>
      match dropSpace rest with
      | '}' :: left => some (object [], left)
      | inside => (readMembers bound inside).map fun (members, left) => (object members, left)
    | other => (skipNumber other).map fun left => (number, left)

/-- Read the items of an array up to its closing bracket. -/
def readItems : Nat → List Char → Option (List JsonValue × List Char)
  | 0, _ => none
  | bound + 1, content => do
    let (item, behind) ← readValue bound content
    match dropSpace behind with
    | ']' :: left => some ([item], left)
    | ',' :: rest =>
      (readItems bound rest).map fun (items, left) => (item :: items, left)
    | _ => none

/-- Read the members of an object up to its closing brace. -/
def readMembers : Nat → List Char → Option (List (Option String × JsonValue) × List Char)
  | 0, _ => none
  | bound + 1, content =>
    match dropSpace content with
    | '"' :: rest => do
      let (key, behind) ← readText rest
      match dropSpace behind with
      | ':' :: behind => do
        let (value, behind) ← readValue bound behind
        match dropSpace behind with
        | '}' :: left => some ([(key, value)], left)
        | ',' :: rest =>
          (readMembers bound rest).map fun (members, left) =>
            ((key, value) :: members, left)
        | _ => none
      | _ => none
    | _ => none

end

/-- Read a whole document.  Every second step passes a character. -/
def parse? (document : String) : Option JsonValue := do
  let content := document.toList
  let (value, left) ← readValue (2 * content.length + 2) content
  if (dropSpace left).isEmpty then some value else none

end JsonValue

end EventScript
