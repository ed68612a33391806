import EventScript.Buffer
import EventScript.Proofs.Lexing.Streams
import EventScript.Proofs.Text.Blocks

/-!
# Literals in generated code

Quoting a text and reading the literal are written apart, character by character.
They are inverse to each other: whatever follows it, the literal for a text is
read as that text, and reading goes on right behind its closing quote.

A literal holds neither line feeds nor carriage returns.  In a block of lines it
therefore stays in one piece, and what is written around it does not depend on
its text.
-/

namespace EventScript.Text

/-! ## Characters of a literal -/

/-- No spelling holds a carriage return. -/
theorem carriageReturn_notMem_escape (character : Char) : '\r' ∉ escape character := by
  unfold escape
  split
  all_goals simp
  · rename_i notReturn
    exact fun equal => notReturn equal.symm

/-- A literal holds its quotes and the spellings of its characters. -/
theorem notMem_quote {character : Char} (notQuote : character ≠ '"')
    (notSpelled : ∀ quoted, character ∉ escape quoted) (text : String) :
    character ∉ (quote text).toList := by
  intro member
  rw [quote, quoteChars, String.toList_ofList, List.mem_cons, List.mem_append,
    List.mem_flatMap, List.mem_singleton] at member
  rcases member with isQuote | ⟨quoted, -, spelled⟩ | isQuote
  · exact notQuote isQuote
  · exact notSpelled quoted spelled
  · exact notQuote isQuote

/-- Content of a line: no end of a line is in it, nor the beginning of one. -/
structure Inline (content : List Char) : Prop where
  nonempty : content ≠ []
  noFeed : '\n' ∉ content
  noReturn : '\r' ∉ content

theorem inline_quote (text : String) : Inline (quote text).toList where
  nonempty := by simp [quote, quoteChars]
  noFeed := notMem_quote (by decide) lineFeed_notMem_escape text
  noReturn := notMem_quote (by decide) carriageReturn_notMem_escape text

/-! ## Lines around content -/

/-- A character that neither is a line feed nor begins the end of a line goes to
the line behind it. -/
theorem lines_cons {character : Char} {rest first : List Char} {others : List (List Char)}
    (notFeed : character ≠ '\n') (notEnd : ∀ behind, character = '\r' → rest ≠ '\n' :: behind)
    (split : lines rest = first :: others) :
    lines (character :: rest) = (character :: first) :: others := by
  rw [lines, split]
  · exact notFeed
  · exact notEnd

/-- Content goes in front of the first line of what follows it. -/
theorem lines_inline_append {content : List Char} (inline : Inline content) (after : List Char) :
    lines (content ++ after) =
      (content ++ (lines after).headD []) :: (lines after).tail := by
  obtain ⟨nonempty, noFeed, noReturn⟩ := inline
  induction content with
  | nil => exact absurd rfl nonempty
  | cons character others ih =>
    rw [List.mem_cons, not_or] at noFeed noReturn
    have notEnd (rest behind : List Char) (isReturn : character = '\r') : rest ≠ '\n' :: behind :=
      absurd isReturn.symm noReturn.1
    cases others with
    | cons next more =>
      exact lines_cons (Ne.symm noFeed.1) (notEnd _)
        (ih (List.cons_ne_nil _ _) noFeed.2 noReturn.2)
    | nil =>
      cases found : lines after with
      | cons first below => exact lines_cons (Ne.symm noFeed.1) (notEnd _) found
      | nil =>
        cases after with
        | nil => exact lines_of_no_lineFeed (by simp) (by simpa using noFeed.1)
        | cons next more => exact absurd found (lines_ne_nil (List.cons_ne_nil _ _))

/-- The line that a text leaves unfinished. -/
def openLine : List Char → List Char
  | [] => []
  | character :: rest => if '\n' ∈ character :: rest then openLine rest else character :: rest

theorem openLine_of_noFeed {text : List Char} (noFeed : '\n' ∉ text) : openLine text = text := by
  cases text with
  | nil => rfl
  | cons character rest => rw [openLine, if_neg noFeed]

theorem openLine_cons_of_feed {text : List Char} (character : Char) (feed : '\n' ∈ text) :
    openLine (character :: text) = openLine text := by
  rw [openLine, if_pos (.tail _ feed)]

/-- The lines of a text in front of content are those that are over; the content
goes on with the one that is left unfinished. -/
theorem exists_lines_append (before : List Char) :
    ∃ above, (above = [] ↔ '\n' ∉ before) ∧
      ∀ {rest first : List Char} {others : List (List Char)}, rest.head? ≠ some '\n' →
        lines rest = first :: others →
          lines (before ++ rest) = above ++ (openLine before ++ first) :: others := by
  fun_induction lines before with
  | case1 => exact ⟨[], by simp, fun _ split => split⟩
  | case2 before ih =>
    obtain ⟨above, -, spelled⟩ := ih
    refine ⟨[] :: above, by simp, fun notFeed split => ?_⟩
    rw [List.cons_append, lines, spelled notFeed split, openLine, if_pos List.mem_cons_self,
      List.cons_append]
  | case3 before ih =>
    obtain ⟨above, -, spelled⟩ := ih
    refine ⟨[] :: above, by simp, fun notFeed split => ?_⟩
    rw [List.cons_append, List.cons_append, lines, spelled notFeed split,
      openLine_cons_of_feed _ List.mem_cons_self, openLine, if_pos List.mem_cons_self,
      List.cons_append]
  | case4 character before notFeed notEnd _ ih
  | case5 character before notFeed notEnd _ _ _ ih =>
    obtain ⟨above, noneOver, spelled⟩ := ih
    have inLine {rest first : List Char} {others : List (List Char)}
        (goesOn : rest.head? ≠ some '\n') (split : lines (before ++ rest) = first :: others) :
        lines (character :: (before ++ rest)) = (character :: first) :: others := by
      refine lines_cons notFeed (fun behind isReturn begins => ?_) split
      cases before with
      | nil =>
        rw [List.nil_append] at begins
        rw [begins] at goesOn
        exact goesOn rfl
      | cons next more =>
        exact notEnd more isReturn (congrArg (· :: more) (List.cons.inj begins).1)
    by_cases feed : '\n' ∈ before
    · obtain ⟨line, above, rfl⟩ := List.exists_cons_of_ne_nil fun none => noneOver.mp none feed
      refine ⟨(character :: line) :: above, by simp [feed], fun goesOn split => ?_⟩
      rw [openLine_cons_of_feed character feed]
      exact inLine goesOn (spelled goesOn split)
    · obtain rfl := noneOver.mpr feed
      have stillOpen : '\n' ∉ character :: before := by simp [feed, Ne.symm notFeed]
      refine ⟨[], by simp [stillOpen], fun goesOn split => ?_⟩
      rw [openLine_of_noFeed stillOpen]
      rw [openLine_of_noFeed feed] at spelled
      exact inLine goesOn (spelled goesOn split)

/-- Content stays in one line of a block, and what is written around it depends
only on what stands around it. -/
theorem exists_block_inline (depth : Nat) (before after : String) :
    ∃ above : List (List Char), ∀ {content : String}, Inline content.toList →
      (block depth (before ++ content ++ after)).toList =
        above.flatMap (blockLine depth) ++
          (indentation depth ++ (openLine before.toList ++ content.toList ++
            (lines after.toList).headD []) ++ ['\n']) ++
          (lines after.toList).tail.flatMap (blockLine depth) := by
  obtain ⟨above, -, spelled⟩ := exists_lines_append before.toList
  refine ⟨above, fun {content} inline => ?_⟩
  have opens : (content.toList ++ after.toList).head? ≠ some '\n' := by
    obtain ⟨character, rest, begins⟩ := List.exists_cons_of_ne_nil inline.nonempty
    have noFeed := inline.noFeed
    rw [begins, List.mem_cons, not_or] at noFeed
    simp [begins, Ne.symm noFeed.1]
  have split := spelled opens (lines_inline_append inline after.toList)
  have visible : (openLine before.toList ++ (content.toList ++
      (lines after.toList).headD [])).isEmpty = false := by
    simp [inline.nonempty]
  rw [block, String.toList_ofList, String.toList_append, String.toList_append, List.append_assoc,
    split, List.flatMap_append, List.flatMap_cons, blockLine, visible, if_neg Bool.false_ne_true,
    line]
  simp only [List.append_assoc]

/-! ## Literals -/

/-- A cursor in front of a literal reads its text and goes on right behind it. -/
theorem scan_quote {cursor : Cursor} {text : String} {behind : List Char}
    (place : cursor.rest = (quote text).toList ++ behind) :
    cursor.scan = ⟨.ok (.text text), cursor,
      ⟨behind, cursor.offset + byteLength (quote text).toList, cursor.line⟩⟩ := by
  have begun := begins_quote text behind
  have visible := begun.visible
  rw [← place] at visible
  have here : cursor.upTo cursor.rest = cursor := by
    rw [@Cursor.upTo_of_rest_eq_append cursor [] cursor.rest rfl]
    rfl
  have next := Cursor.upTo_of_rest_eq_append place
  rw [List.count_eq_zero_of_not_mem (inline_quote text).noFeed, Nat.add_zero] at next
  rw [Cursor.scan_of_readToken visible (place ▸ begun.reads), here, next]

/-- Reading undoes quoting, whatever follows the literal and wherever it stands:
the text is read and reading goes on right behind the literal, in the same line.
A literal holds neither a line feed nor a carriage return, so a block of lines
keeps it in one piece: the same characters are written in front of and behind it
whatever its text is, and its line is indented in front of what stands before it. -/
theorem scan_quote_and_block_quote :
    (∀ (text : String) (behind : List Char) (offset line : Nat),
      Cursor.scan ⟨(quote text).toList ++ behind, offset, line⟩ =
          ⟨.ok (.text text), ⟨(quote text).toList ++ behind, offset, line⟩,
            ⟨behind, offset + byteLength (quote text).toList, line⟩⟩ ∧
        '\n' ∉ (quote text).toList ∧ '\r' ∉ (quote text).toList) ∧
      ∀ (buffer : Buffer) (depth : Nat) (before after : String),
        ∃ above below : List Char, ∀ text : String,
          (buffer.writeBlock depth (before ++ quote text ++ after)).text.toList =
            buffer.text.toList ++ (above ++ indentation depth ++ openLine before.toList ++
              (quote text).toList ++ (lines after.toList).headD [] ++ '\n' :: below) := by
  constructor
  · intro text behind offset line
    obtain ⟨-, noFeed, noReturn⟩ := inline_quote text
    exact ⟨scan_quote rfl, noFeed, noReturn⟩
  · intro buffer depth before after
    obtain ⟨above, spelled⟩ := exists_block_inline depth before after
    refine ⟨above.flatMap (blockLine depth),
      (lines after.toList).tail.flatMap (blockLine depth), fun text => ?_⟩
    rw [Buffer.writeBlock, Buffer.text_write, String.toList_append, spelled (inline_quote text)]
    simp only [List.append_assoc, List.singleton_append]

end EventScript.Text
