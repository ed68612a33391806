/-!
# Property codes

Inside a text a number sign and a letter or digit stand for a property of an
object or for the value of an expression.
-/

namespace EventScript

/-- The property that a code without a slot stands for. -/
def propertyName? : Char → Option String
  | 'a' => some "account"
  | 'n' => some "nick"
  | 'g' => some "guild"
  | 'f' => some "image"
  | 'c' => some "chat"
  | 'L' => some "level.name"
  | '1' => some "sword"
  | '2' => some "shield"
  | '3' => some "head"
  | '5' => some "horse"
  | '7' => some "ani"
  | '8' => some "body"
  | _ => none

/-- Codes that may name an owner; for one of them it is a weapon. -/
def ownerCodes : List Char :=
  ['a', 'n', 'g', 'f', 'c', 'L', '1', '2', '3', '5', '7', '8', 'w']

/-- Codes that need an argument. -/
def expressionCodes : List Char :=
  ['v', 's', 't', 'e']

/-- The property of a code with an optional slot: a color, an attribute, or a
named property. -/
def slotProperty? (letter : Char) (slot : Option String) : Option String :=
  match letter, slot with
  | 'C', some number => some ("colors[" ++ number ++ "]")
  | 'P', some number => some ("attr[" ++ number ++ "]")
  | _, _ => propertyName? letter

end EventScript
