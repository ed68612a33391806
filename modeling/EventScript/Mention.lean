/-!
# Names in generated code

Whether generated code uses a word as a bare name: outside its string literals,
not as a member and not as a part of a longer name.  The text is taken as the
bytes of its UTF-8 encoding.
-/

namespace EventScript

/-- The bytes of a text. -/
def utf8Bytes (text : String) : List UInt8 :=
  text.toList.flatMap String.utf8EncodeChar

/-- Bytes of a name. -/
def isNameByte (byte : UInt8) : Bool :=
  (0x30 ≤ byte && byte ≤ 0x39) || (0x41 ≤ byte && byte ≤ 0x5A) ||
    (0x61 ≤ byte && byte ≤ 0x7A) || byte == 0x5F

/-- The double quote. -/
def quoteByte : UInt8 :=
  0x22

/-- The backslash. -/
def escapeByte : UInt8 :=
  0x5C

/-- The point in front of a member. -/
def pointByte : UInt8 :=
  0x2E

/-- Whether a bare name can begin behind a byte. -/
def canBegin : Option UInt8 → Bool
  | some byte => !isNameByte byte && byte != pointByte
  | none => true

/-- Whether a bare name can end in front of a text. -/
def canEnd : List UInt8 → Bool
  | byte :: _ => !isNameByte byte
  | [] => true

/-- Whether a word begins at the front of a text, as a bare name. -/
def namedHere (word : List UInt8) (previous : Option UInt8) (text : List UInt8) : Bool :=
  word.isPrefixOf text && canBegin previous && canEnd (text.drop word.length)

/-- Whether a word occurs as a bare name in a text behind a given byte, inside
or outside a string literal. -/
def mentionedFrom (word : List UInt8) :
    (previous : Option UInt8) → (quoted : Bool) → List UInt8 → Bool
  | _, _, [] => false
  | _, true, byte :: rest =>
    if byte == escapeByte then
      match rest with
      | escaped :: rest => mentionedFrom word (some escaped) true rest
      | [] => false
    else mentionedFrom word (some byte) (byte != quoteByte) rest
  | previous, false, byte :: rest =>
    if byte == quoteByte then mentionedFrom word (some byte) true rest
    else namedHere word previous (byte :: rest) || mentionedFrom word (some byte) false rest

/-- Whether code uses a word as a bare name outside its string literals. -/
def mentions (code word : String) : Bool :=
  mentionedFrom (utf8Bytes word) none false (utf8Bytes code)

end EventScript
