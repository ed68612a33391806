/-!
# Lines of a text

A line ends with a line feed or with a carriage return and a line feed; the
last line need not end.  `block` writes a text of several lines at an
indentation and leaves empty lines empty.
-/

namespace EventScript.Text

/-- The lines of a text, without their ends. -/
def lines : List Char → List (List Char)
  | [] => []
  | '\n' :: rest => [] :: lines rest
  | '\r' :: '\n' :: rest => [] :: lines rest
  | character :: rest =>
    match lines rest with
    | [] => [[character]]
    | first :: others => (character :: first) :: others

/-- The blanks in front of a line at a depth. -/
def indentation (depth : Nat) : List Char :=
  List.replicate (2 * depth) ' '

/-- A line at a depth, with its end. -/
def line (depth : Nat) (content : List Char) : List Char :=
  indentation depth ++ content ++ ['\n']

/-- A line at a depth, unless it is empty. -/
def blockLine (depth : Nat) (content : List Char) : List Char :=
  if content.isEmpty then ['\n'] else line depth content

/-- A text of several lines at a depth. -/
def block (depth : Nat) (text : String) : String :=
  String.ofList ((lines text.toList).flatMap (blockLine depth))

@[simp]
theorem lines_nil : lines [] = [] :=
  rfl

/-- No line holds a line feed. -/
theorem lineFeed_notMem_of_mem_lines {text content : List Char} (member : content ∈ lines text) :
    '\n' ∉ content := by
  fun_induction lines text generalizing content with
  | case1 => simp at member
  | case2 rest ih =>
    rcases List.mem_cons.mp member with rfl | inRest
    · simp
    · exact ih inRest
  | case3 rest ih =>
    rcases List.mem_cons.mp member with rfl | inRest
    · simp
    · exact ih inRest
  | case4 character rest notLineFeed _ noLines _ =>
    have equal : content = [character] := by simpa using member
    subst equal
    simp only [List.mem_singleton]
    exact fun lineFeed => notLineFeed lineFeed.symm
  | case5 character rest notLineFeed _ first others found ih =>
    rw [found] at ih
    rcases List.mem_cons.mp member with rfl | inRest
    · simp only [List.mem_cons, not_or]
      exact ⟨fun lineFeed => notLineFeed lineFeed.symm, ih (by simp)⟩
    · exact ih (List.mem_cons_of_mem _ inRest)

end EventScript.Text
