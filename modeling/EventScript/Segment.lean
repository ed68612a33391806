import EventScript.Text.Blank
import EventScript.Vocabulary.Property

/-!
# Segments of a property string

A text of the script language is literal text mixed with property codes.  This
module splits it into segments.  A doubled number sign stands for one, and a
number sign that begins no code stands for itself.
-/

namespace EventScript

/-- A piece of a property string. -/
inductive Segment where
  | text (content : String)
  /-- A code with its slot number and its argument, if it has them. -/
  | code (letter : Char) (slot argument : Option String)
  deriving DecidableEq, Repr

namespace Segment

/-- Read a parenthesised argument from behind its opening parenthesis: the text
up to the parenthesis that closes it, and what remains behind that.  Quoted
texts inside do not count. -/
def readBalanced : (depth : Nat) → (quoted : Bool) → List Char → Option (List Char × List Char)
  | _, _, [] => none
  | depth, true, '\\' :: character :: rest =>
    (readBalanced depth true rest).map fun (argument, left) =>
      ('\\' :: character :: argument, left)
  | depth, true, character :: rest =>
    (readBalanced depth (character != '"') rest).map fun (argument, left) =>
      (character :: argument, left)
  | depth, false, character :: rest =>
    if character == ')' && depth == 0 then some ([], rest)
    else
      let inner := if character == '(' then depth + 1
        else if character == ')' then depth - 1
        else depth
      (readBalanced inner (character == '"') rest).map fun (argument, left) =>
        (character :: argument, left)

/-- Read an argument in parentheses. -/
def readArgument : List Char → Option (String × List Char)
  | '(' :: rest =>
    (readBalanced 0 false rest).map fun (argument, left) => (String.ofList argument, left)
  | _ => none

/-- Read an argument in parentheses if there is one. -/
def readOptionalArgument (text : List Char) : Option String × List Char :=
  match readArgument text with
  | some (argument, left) => (some argument, left)
  | none => (none, text)

/-- The digits at the front of a text, at most two. -/
def readSlot (most : Nat) (text : List Char) : Option (String × List Char) :=
  let digits := (text.take most).takeWhile Char.isDigit
  if digits.isEmpty then none else some (String.ofList digits, text.drop digits.length)

/-- Read a code from behind its number sign. -/
def readCode : List Char → Option (Segment × List Char)
  | [] => none
  | letter :: rest =>
    if letter == 'C' || letter == 'P' then
      (readSlot (if letter == 'C' then 1 else 2) rest).map fun (slot, behind) =>
        let (argument, left) := readOptionalArgument behind
        (code letter (some slot) argument, left)
    else if expressionCodes.contains letter then
      (readArgument rest).map fun (argument, left) => (code letter none (some argument), left)
    else if ownerCodes.contains letter then
      let (argument, left) := readOptionalArgument rest
      some (code letter none argument, left)
    else none

/-- Whether a character ends literal text. -/
def isMark (character : Char) : Bool :=
  character == '#'

/-- Read one segment. -/
def read : List Char → Segment × List Char
  | '#' :: '#' :: rest => (text "#", rest)
  | '#' :: rest => (readCode rest).getD (text "#", rest)
  | content =>
    (text (String.ofList (content.takeWhile fun character => !isMark character)),
      content.dropWhile fun character => !isMark character)

/-- Read segments, at most as many as the first argument says. -/
def readUpTo : Nat → List Char → List Segment
  | 0, _ => []
  | _, [] => []
  | bound + 1, character :: rest =>
    let (segment, left) := read (character :: rest)
    segment :: readUpTo bound left

/-- The text that a segment other than a doubled number sign was read from. -/
def source : Segment → String
  | text content => content
  | code letter slot argument =>
    "#" ++ letter.toString ++ slot.getD "" ++
      match argument with
      | some content => "(" ++ content ++ ")"
      | none => ""

end Segment

/-- The segments of a property string.  Every segment takes at least one
character. -/
def segments (content : String) : List Segment :=
  Segment.readUpTo content.toList.length content.toList

/-- Split an argument at its commas outside parentheses and quotes.  Here a
quote always opens or closes, also behind a backslash. -/
def splitParts : (depth : Nat) → (quoted : Bool) → List Char → List (List Char)
  | _, _, [] => [[]]
  | depth, quoted, character :: rest =>
    if character == ',' && !quoted && depth == 0 then [] :: splitParts depth quoted rest
    else
      let inner := if quoted then depth
        else if character == '(' then depth + 1
        else if character == ')' then depth - 1
        else depth
      match splitParts inner (quoted != (character == '"')) rest with
      | first :: others => (character :: first) :: others
      | [] => [[character]]

/-- The parts of an argument between its commas, without blanks around them. -/
def argumentParts (argument : String) : List String :=
  (splitParts 0 false argument.toList).map fun part => String.ofList (Text.trimChars part)

end EventScript
