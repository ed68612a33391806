import EventScript.Text.Printable

/-!
# Quoted texts

A text is put between double quotes in two ways.  `quote` writes a string
literal of the generated code: the two characters that would end or escape are
escaped, and so are line feeds, tabs and carriage returns, so a literal always
stays on one line.  `shown` writes a text for a message and replaces every
character that is not visible by its code.
-/

namespace EventScript.Text

/-- The spelling of one character inside a generated literal. -/
def escape : Char → List Char
  | '\\' => ['\\', '\\']
  | '"' => ['\\', '"']
  | '\n' => ['\\', 'n']
  | '\t' => ['\\', 't']
  | '\r' => ['\\', 'r']
  | character => [character]

/-- The characters of the literal for a text, with both quotes. -/
def quoteChars (text : List Char) : List Char :=
  '"' :: (text.flatMap escape ++ ['"'])

/-- The literal for a text in generated code. -/
def quote (text : String) : String :=
  String.ofList (quoteChars text.toList)

/-- The spelling of one character inside a text that a message shows. -/
def reveal (character : Char) : List Char :=
  match character with
  | '\x00' => ['\\', '0']
  | '\t' => ['\\', 't']
  | '\r' => ['\\', 'r']
  | '\n' => ['\\', 'n']
  | '"' => ['\\', '"']
  | '\\' => ['\\', '\\']
  | _ =>
    if isHidden character then
      ['\\', 'u', '\x7b'] ++ Nat.toDigits 16 character.toNat ++ ['\x7d']
    else [character]

/-- A text as a message shows it, with both quotes. -/
def shown (text : String) : String :=
  String.ofList ('"' :: (text.toList.flatMap reveal ++ ['"']))

@[simp]
theorem quoteChars_nil : quoteChars [] = ['"', '"'] :=
  rfl

/-- The spelling of a character is never empty. -/
theorem escape_ne_nil (character : Char) : escape character ≠ [] := by
  unfold escape
  split <;> simp

/-- No spelling holds a line feed. -/
theorem lineFeed_notMem_escape (character : Char) : '\n' ∉ escape character := by
  unfold escape
  split
  all_goals simp
  · rename_i notLineFeed _ _
    exact fun equal => notLineFeed equal.symm

end EventScript.Text
