import EventScript.Proofs.Text.Bytes
import EventScript.Text.Blank
import EventScript.Text.Search

/-!
# Blocks of lines

Which lines a text has and what `Text.block` makes of them.
-/

namespace EventScript.Text

variable {pattern : List Char}

/-- A text that is not empty has a line. -/
theorem lines_ne_nil {text : List Char} (nonempty : text ≠ []) : lines text ≠ [] := by
  fun_cases lines text with
  | case1 => contradiction
  | case2 rest => simp
  | case3 rest => simp
  | case4 character rest _ _ found => simp
  | case5 character rest _ _ first others found => simp

/-- A line is never empty, since it has an end. -/
theorem blockLine_ne_nil (depth : Nat) (content : List Char) : blockLine depth content ≠ [] := by
  unfold blockLine line
  split <;> simp

/-- The block of a text that is not empty is not empty. -/
theorem block_ne_empty (depth : Nat) {text : String} (nonempty : text ≠ "") :
    block depth text ≠ "" := by
  intro empty
  have noLines : (lines text.toList).flatMap (blockLine depth) = [] := by
    simpa [block] using congrArg String.toList empty
  cases found : lines text.toList with
  | nil => exact lines_ne_nil (by simpa using nonempty) found
  | cons first others =>
    rw [found, List.flatMap_cons] at noLines
    exact blockLine_ne_nil depth first (List.append_eq_nil_iff.mp noLines).1

/-- A text without a line feed is one line. -/
theorem lines_of_no_lineFeed {text : List Char} (nonempty : text ≠ []) (noFeed : '\n' ∉ text) :
    lines text = [text] := by
  fun_induction lines text with
  | case1 => contradiction
  | case2 rest _ => simp at noFeed
  | case3 rest _ => simp at noFeed
  | case4 character rest _ _ found ih =>
    cases rest with
    | nil => rfl
    | cons next others => exact absurd found (lines_ne_nil (List.cons_ne_nil _ _))
  | case5 character rest _ _ first others found ih =>
    cases rest with
    | nil => cases found
    | cons next more =>
      have same := ih (List.cons_ne_nil _ _)
        (fun member => noFeed (List.mem_cons_of_mem _ member))
      rw [found, List.cons.injEq] at same
      rw [same.1, same.2]

/-- A text without a line feed. -/
def OneLine (text : String) : Prop :=
  '\n' ∉ text.toList

instance (text : String) : Decidable (OneLine text) :=
  decidable_of_iff (0x0A ∉ text.toByteArray.data.toList)
    (not_congr (mem_bytes_iff '\n' (by decide) text))

@[simp]
theorem oneLine_append (first second : String) :
    OneLine (first ++ second) ↔ OneLine first ∧ OneLine second := by
  simp [OneLine]

/-- Texts with a mark between each two, character by character. -/
theorem toList_intercalate_cons (mark first : String) (others : List String) :
    (mark.intercalate (first :: others)).toList =
      first.toList ++ others.flatMap fun text => mark.toList ++ text.toList := by
  induction others generalizing first with
  | nil => simp
  | cons second others ih =>
    rw [String.intercalate_cons_cons, String.toList_append, String.toList_append,
      ih, List.flatMap_cons, List.append_assoc, List.append_assoc]

theorem oneLine_intercalate {mark : String} {texts : List String} (oneLineMark : OneLine mark)
    (oneLine : ∀ text ∈ texts, OneLine text) : OneLine (mark.intercalate texts) := by
  cases texts with
  | nil => simp [OneLine]
  | cons first others =>
    rw [List.forall_mem_cons] at oneLine
    rw [OneLine, toList_intercalate_cons]
    simp only [List.mem_append, List.mem_flatMap, not_or, not_exists, not_and]
    exact ⟨oneLine.1, fun text member => ⟨oneLineMark, oneLine.2 text member⟩⟩

/-- The block of a text without a line feed is one indented line. -/
theorem toList_block_of_oneLine (depth : Nat) {text : String} (nonempty : text ≠ "")
    (oneLine : OneLine text) :
    (block depth text).toList = indentation depth ++ (text.toList ++ ['\n']) := by
  have notNil : text.toList ≠ [] := by simpa using nonempty
  rw [block, lines_of_no_lineFeed notNil oneLine, String.toList_ofList, List.flatMap_singleton,
    blockLine, if_neg (by simpa using nonempty), line, List.append_assoc]

/-- Indentation is blank. -/
theorem isBlank_of_mem_indentation {depth : Nat} {character : Char}
    (member : character ∈ indentation depth) : isBlank character = true := by
  rw [indentation, List.mem_replicate] at member
  rw [member.2]
  decide

/-! ## Replacing inside lines -/

/-- A pattern without a line feed that begins in a line is found in that line. -/
theorem isPrefixOf_line (noFeed : '\n' ∉ pattern) (content rest : List Char) :
    pattern.isPrefixOf (content ++ '\n' :: rest) = pattern.isPrefixOf content := by
  rw [Bool.eq_iff_iff, List.isPrefixOf_iff_prefix, List.isPrefixOf_iff_prefix]
  constructor
  · intro begins
    rcases List.prefix_or_prefix_of_prefix begins (List.prefix_append content _) with
      within | ⟨others, rfl⟩
    · exact within
    · rw [List.prefix_append_right_inj] at begins
      cases others with
      | nil => simp
      | cons character more =>
        rw [(List.cons_prefix_cons.mp begins).1] at noFeed
        exact absurd (List.mem_append_right _ List.mem_cons_self) noFeed
  · intro within
    exact within.trans (List.prefix_append content _)

/-- Replacing a pattern without a line feed goes on anew behind each line. -/
theorem replaceFrom_line (noFeed : '\n' ∉ pattern) (nonempty : pattern ≠ [])
    (replacement : List Char) {skip : Nat} {content : List Char} (bounded : skip ≤ content.length)
    (rest : List Char) :
    replaceFrom pattern replacement skip (content ++ '\n' :: rest) =
      replaceFrom pattern replacement skip content ++
        '\n' :: replaceFrom pattern replacement 0 rest := by
  induction content generalizing skip with
  | nil =>
    obtain rfl : skip = 0 := Nat.le_zero.mp bounded
    have notHere : pattern.isPrefixOf ('\n' :: rest) = false := by
      have line := isPrefixOf_line noFeed [] rest
      rw [List.nil_append] at line
      rw [line]
      cases pattern with
      | nil => exact absurd rfl nonempty
      | cons _ _ => rfl
    change replaceFrom pattern replacement 0 ('\n' :: rest) =
      '\n' :: replaceFrom pattern replacement 0 rest
    rw [replaceFrom, notHere, if_neg Bool.false_ne_true]
  | cons character others ih =>
    cases skip with
    | succ skip => exact ih (Nat.le_of_succ_le_succ bounded)
    | zero =>
      have found := isPrefixOf_line noFeed (character :: others) rest
      rw [List.cons_append] at found ⊢
      rw [replaceFrom, replaceFrom, found]
      split
      · rename_i begins
        have fits := (List.isPrefixOf_iff_prefix.mp begins).length_le
        rw [List.length_cons] at fits
        rw [ih (by omega), List.append_assoc]
      · rw [ih (Nat.zero_le _), List.cons_append]

/-- Replacing in whole lines is replacing in each of them. -/
theorem replaceFrom_lines (noFeed : '\n' ∉ pattern) (nonempty : pattern ≠ [])
    (replacement : List Char) (contents : List (List Char)) :
    replaceFrom pattern replacement 0 (contents.flatMap (line 0)) =
      (contents.map (replaceFrom pattern replacement 0)).flatMap (line 0) := by
  have line_zero (content : List Char) : line 0 content = content ++ ['\n'] := rfl
  induction contents with
  | nil => rfl
  | cons first others ih =>
    rw [List.flatMap_cons, List.map_cons, List.flatMap_cons, line_zero, line_zero,
      List.append_assoc, List.append_assoc, List.singleton_append, List.singleton_append,
      replaceFrom_line noFeed nonempty replacement (Nat.zero_le _), ih]

/-- What stands in front of the first character of the pattern is kept. -/
theorem replaceFrom_append_of_notMem {first : Char} {front : List Char} (absent : first ∉ front)
    (pattern replacement rest : List Char) :
    replaceFrom (first :: pattern) replacement 0 (front ++ rest) =
      front ++ replaceFrom (first :: pattern) replacement 0 rest := by
  induction front with
  | nil => rfl
  | cons character others ih =>
    rw [List.mem_cons, not_or] at absent
    have kept : (first :: pattern).isPrefixOf (character :: (others ++ rest)) = false := by
      rw [Bool.eq_false_iff, ne_eq, List.isPrefixOf_iff_prefix]
      exact fun begins => absent.1 (List.cons_prefix_cons.mp begins).1
    rw [List.cons_append, replaceFrom, kept, if_neg Bool.false_ne_true,
      ih absent.2, List.cons_append]

/-- Replaced text holds characters of the text and of the replacement. -/
theorem mem_replaceFrom {replacement : List Char} {skip : Nat} {text : List Char} {character : Char}
    (member : character ∈ replaceFrom pattern replacement skip text) :
    character ∈ replacement ∨ character ∈ text := by
  fun_induction replaceFrom pattern replacement skip text with
  | case1 => cases member
  | case2 skip _ rest ih =>
    exact (ih member).imp_right (List.mem_cons_of_mem _)
  | case3 first rest _ ih =>
    rcases List.mem_append.mp member with inside | later
    · exact .inl inside
    · exact (ih later).imp_right (List.mem_cons_of_mem _)
  | case4 first rest _ ih =>
    rcases List.mem_cons.mp member with rfl | later
    · exact .inr List.mem_cons_self
    · exact (ih later).imp_right (List.mem_cons_of_mem _)

end EventScript.Text
