import EventScript.Proofs.Segments.Pieces

/-!
# Doubled number signs

A number sign is doubled to take its meaning from it.  Doubling every number sign
of a text is a complete escape: the text is then read as literal text, whatever
stands behind it, and what stands behind it is read as if it stood alone.

Literal text may be read in several segments.  The segments that matter are the
merged ones, in which no text follows another.
-/

namespace EventScript

/-- A text with every number sign doubled. -/
def doubleMarks (content : String) : String :=
  String.ofList (content.toList.flatMap fun character =>
    if Segment.isMark character then ['#', '#'] else [character])

namespace Segment

variable {content : List Char}

/-! ## Merged segments -/

/-- Put literal text in front of segments: it joins the text at their front, or
is a new segment unless it is empty. -/
def prepend (content : String) : List Segment → List Segment
  | text first :: rest => text (content ++ first) :: rest
  | segments => if content = "" then segments else text content :: segments

/-- Join the texts that follow each other. -/
def merge : List Segment → List Segment
  | [] => []
  | text content :: rest => prepend content (merge rest)
  | code letter slot argument :: rest => code letter slot argument :: merge rest

@[simp]
theorem prepend_empty (segments : List Segment) : prepend "" segments = segments := by
  fun_cases prepend "" segments with
  | case1 => rw [String.empty_append]
  | case2 => rfl
  | case3 nonempty => contradiction

theorem prepend_prepend (front content : String) (segments : List Segment) :
    prepend front (prepend content segments) = prepend (front ++ content) segments := by
  rcases segments with _ | ⟨_ | _, rest⟩
  case cons.text => simp [prepend, String.append_assoc]
  all_goals
    by_cases isEmpty : content = ""
    · simp [isEmpty]
    · simp [prepend, isEmpty]

/-- The code for segments is the code for the merged ones, with the literal text
in front of them. -/
theorem concatenation_prepend
    (code : Char → Option String → Option String → Emission (Option String))
    (literal content : String) (segments : List Segment) :
    concatenation code literal (prepend content segments) =
      concatenation code (literal ++ content) segments := by
  fun_cases prepend content segments with
  | case1 => simp [concatenation, String.append_assoc]
  | case2 _ _ isEmpty => rw [isEmpty, String.append_empty]
  | case3 => rfl

theorem concatenation_merge (code : Char → Option String → Option String → Emission (Option String))
    (literal : String) (segments : List Segment) :
    concatenation code literal (merge segments) = concatenation code literal segments := by
  induction segments generalizing literal with
  | nil => rfl
  | cons segment rest ih =>
    cases segment with
    | text content =>
      rw [merge, concatenation_prepend, ih, concatenation]
    | code letter slot argument =>
      rw [merge, concatenation, concatenation]
      simp only [ih]

/-! ## Reading on -/

theorem readUpTo_of_read {bound : Nat} {left : List Char} {segment : Segment}
    (nonempty : content ≠ []) (read : read content = (segment, left)) :
    readUpTo (bound + 1) content = segment :: readUpTo bound left := by
  obtain ⟨first, rest, rfl⟩ := List.exists_cons_of_ne_nil nonempty
  rw [readUpTo, read]

/-- Where the bound suffices, it does not matter. -/
theorem readUpTo_eq {bound : Nat} (enough : content.length ≤ bound) :
    readUpTo bound content = readUpTo content.length content := by
  induction bound using Nat.strongRecOn generalizing content with
  | ind bound ih =>
    cases content with
    | nil => cases bound <;> rfl
    | cons first rest =>
      obtain ⟨bound, rfl⟩ := Nat.exists_eq_add_one_of_ne_zero (n := bound)
        (by rintro rfl; exact absurd enough (by simp))
      obtain ⟨segment, piece, left, read, split, nonempty, -, -⟩ :=
        exists_read (List.cons_ne_nil first rest)
      have shorter := length_lt_of_split split nonempty
      rw [List.length_cons] at enough shorter ⊢
      rw [readUpTo_of_read (List.cons_ne_nil _ _) read,
        readUpTo_of_read (List.cons_ne_nil _ _) read,
        ih bound (by omega) (by omega),
        ih rest.length (by omega) (by omega)]

/-- The merged segments of a text. -/
def merged (content : List Char) : List Segment :=
  merge (readUpTo content.length content)

theorem merged_of_read {left : List Char} {front : String} (nonempty : content ≠ [])
    (read : read content = (text front, left)) (shorter : left.length < content.length) :
    merged content = prepend front (merged left) := by
  obtain ⟨less, length⟩ :=
    Nat.exists_eq_add_one_of_ne_zero (Nat.ne_of_gt (Nat.zero_lt_of_lt shorter))
  rw [merged, length, readUpTo_of_read nonempty read, readUpTo_eq (by omega), merge, merged]

/-- The text in front of the first number sign is literal. -/
theorem merged_front (content : List Char) :
    merged content =
      prepend (String.ofList (content.takeWhile fun character => !isMark character))
        (merged (content.dropWhile fun character => !isMark character)) := by
  cases content with
  | nil => rfl
  | cons first rest =>
    by_cases marked : first = '#'
    · simp [marked, isMark]
    · refine merged_of_read (List.cons_ne_nil _ _) ?_ ?_
      · rw [read]
        · exact fun _ doubled => marked (List.cons.inj doubled).1
        · exact fun _ found => marked (List.cons.inj found).1
      · refine length_lt_of_split List.takeWhile_append_dropWhile.symm ?_
        simp [isMark, marked]

/-- Any other character is literal. -/
theorem merged_cons {character : Char} (noMark : isMark character = false) (rest : List Char) :
    merged (character :: rest) = prepend character.toString (merged rest) := by
  rw [merged_front (character :: rest), merged_front rest, prepend_prepend,
    List.takeWhile_cons_of_pos (by simp [noMark]), List.dropWhile_cons_of_pos (by simp [noMark]),
    String.ofList_cons]
  rfl

/-- A doubled number sign is a literal one. -/
theorem merged_doubled (rest : List Char) :
    merged ('#' :: '#' :: rest) = prepend "#" (merged rest) :=
  merged_of_read (List.cons_ne_nil _ _) rfl (by rw [List.length_cons, List.length_cons]; omega)

theorem merged_double (content behind : List Char) :
    merged (content.flatMap (fun character =>
      if isMark character then ['#', '#'] else [character]) ++ behind) =
        prepend (String.ofList content) (merged behind) := by
  induction content with
  | nil => simp
  | cons character rest ih =>
    rw [List.flatMap_cons, List.append_assoc, String.ofList_cons, ← prepend_prepend,
      ← ih]
    cases mark : isMark character with
    | true =>
      rw [isMark, beq_iff_eq] at mark
      subst mark
      exact merged_doubled _
    | false => exact merged_cons mark _

end Segment

/-- Doubling the number signs of a text is a complete escape: the code for it is
the literal, without any effect, and in front of other text it adds nothing but
itself to the segments. -/
theorem doubling_escapes (content behind : String) (session : Session) :
    session.expandText (doubleMarks content) = (Text.quote content, session) ∧
      Segment.merge (segments (doubleMarks content ++ behind)) =
        Segment.prepend content (Segment.merge (segments behind)) := by
  have escapes (behind : String) : Segment.merge (segments (doubleMarks content ++ behind)) =
      Segment.prepend content (Segment.merge (segments behind)) := by
    have whole := Segment.merged_double content.toList behind.toList
    rw [String.ofList_toList] at whole
    rw [segments, doubleMarks, String.toList_append, String.toList_ofList]
    exact whole
  refine ⟨?_, escapes behind⟩
  have alone := escapes ""
  rw [String.append_empty] at alone
  have parts (code : Char → Option String → Option String → Emission (Option String)) :
      concatenation code "" (segments (doubleMarks content)) = pure (literalPart content) := by
    rw [← Segment.concatenation_merge, alone, Segment.concatenation_prepend, String.empty_append]
    rfl
  have joined : joinConcatenation (literalPart content) = Text.quote content := by
    by_cases isEmpty : content = ""
    · simp [literalPart, joinConcatenation, isEmpty]
    · simp [literalPart, joinConcatenation, isEmpty]
  rw [Session.expandText, expand, expandUpTo, parts, pure_bind, joined]
  rfl

end EventScript
