/-!
# Blank characters

Scripts, options and arguments are laid out with the white-space characters
of the Unicode standard.  This module holds that character class and the two
one-sided trims and the two-sided trim built from it.
-/

namespace EventScript.Text

/-- The white-space characters of the Unicode standard: the five controls from
tab to carriage return, the space, and the Latin-1, general-punctuation and
ideographic spaces. -/
def isBlank (character : Char) : Bool :=
  let code := character.toNat
  (0x09 ≤ code && code ≤ 0x0D) || code == 0x20 || code == 0x85 || code == 0xA0 ||
    code == 0x1680 || (0x2000 ≤ code && code ≤ 0x200A) || code == 0x2028 ||
    code == 0x2029 || code == 0x202F || code == 0x205F || code == 0x3000

/-- Drop the blanks in front of a text. -/
def trimStart (text : List Char) : List Char :=
  text.dropWhile isBlank

/-- Drop the blanks behind a text. -/
def trimEnd (text : List Char) : List Char :=
  (text.reverse.dropWhile isBlank).reverse

/-- Drop the blanks on both sides of a text. -/
def trimChars (text : List Char) : List Char :=
  trimEnd (trimStart text)

/-- Drop the blanks on both sides of a string. -/
def trim (text : String) : String :=
  String.ofList (trimChars text.toList)

@[simp]
theorem trimStart_nil : trimStart [] = [] :=
  rfl

@[simp]
theorem trimEnd_nil : trimEnd [] = [] :=
  rfl

@[simp]
theorem trimChars_nil : trimChars [] = [] :=
  rfl

/-- A line feed is blank, so the end of a line never ends a gap. -/
@[simp]
theorem isBlank_lineFeed : isBlank '\n' = true :=
  rfl

/-- Trimming at the front leaves a suffix of the text. -/
theorem trimStart_isSuffix (text : List Char) : trimStart text <:+ text :=
  List.dropWhile_suffix isBlank

/-- Trimming at the back leaves a prefix of the text. -/
theorem trimEnd_isPrefix (text : List Char) : trimEnd text <+: text := by
  obtain ⟨dropped, split⟩ := List.dropWhile_suffix isBlank (l := text.reverse)
  refine ⟨dropped.reverse, ?_⟩
  rw [trimEnd, ← List.reverse_append, split, List.reverse_reverse]

end EventScript.Text
