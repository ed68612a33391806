import EventScript.Proofs.Segments.Balanced

/-!
# The text of segments

Cutting a property string into segments loses nothing: each segment stands for a
piece of the text, and the pieces one behind the other are the text.  A segment
of text is its piece, except that a doubled number sign stands for one, and a code
is spelled by its letter, its slot and its argument.

Nor is a code missed or cut short: where a piece begins, no code begins that
reaches further than the piece.
-/

namespace EventScript

namespace Segment

variable {argument : Option String} {left : List Char}

/-! ## Codes and their spelling -/

/-- The digits of a slot, at most a given number of them. -/
structure IsSlot (most : Nat) (slot : List Char) : Prop where
  nonempty : slot ≠ []
  short : slot.length ≤ most
  digits : ∀ character ∈ slot, character.isDigit = true

/-- What the letter of a code demands: one digit or two for a slot, an argument
for an expression, and neither for an owner. -/
inductive Form : (letter : Char) → (slot argument : Option String) → Prop
  | slotted {letter : Char} {slot : String} {argument : Option String}
      (takesSlot : letter = 'C' ∨ letter = 'P')
      (isSlot : IsSlot (if letter == 'C' then 1 else 2) slot.toList) :
      Form letter (some slot) argument
  | expression {letter : Char} {argument : String} (needs : letter ∈ expressionCodes) :
      Form letter none (some argument)
  | owner {letter : Char} {argument : Option String} (takes : letter ∈ ownerCodes) :
      Form letter none argument

/-- A code of property strings. -/
structure IsCode (letter : Char) (slot argument : Option String) : Prop where
  form : Form letter slot argument
  balanced : ∀ content ∈ argument, Balanced content.toList

/-- The text of an argument with its parentheses, if there is one. -/
def argumentText (argument : Option String) : List Char :=
  argument.elim [] parenthesised

theorem source_code (letter : Char) (slot argument : Option String) :
    (code letter slot argument).source.toList =
      '#' :: letter :: ((slot.getD "").toList ++ argumentText argument) := by
  cases argument <;> simp [source, argumentText, parenthesised]

/-- The pieces of text that a segment stands for. -/
inductive Spells : Segment → List Char → Prop
  | plain {content : String} (nonempty : content ≠ "") (noMark : '#' ∉ content.toList) :
      Spells (text content) content.toList
  | lone : Spells (text "#") ['#']
  | doubled : Spells (text "#") ['#', '#']
  | code {letter : Char} {slot argument : Option String} (isCode : IsCode letter slot argument) :
      Spells (code letter slot argument) (source (code letter slot argument)).toList

/-- Nothing in front of `behind` was missed: a code that begins with the piece
ends in it, and a lone number sign is not the first of two. -/
structure Greedy (piece behind : List Char) : Prop where
  longest : ∀ {letter : Char} {slot argument : Option String}, IsCode letter slot argument →
    (code letter slot argument).source.toList <+: piece ++ behind →
      (code letter slot argument).source.toList <+: piece
  single : piece = ['#'] → behind.head? ≠ some '#'

/-! ## Reading a code -/

theorem readOptionalArgument_of_text (balanced : ∀ content ∈ argument, Balanced content.toList)
    (isArgument : argument.isSome = true) (left : List Char) :
    readOptionalArgument (argumentText argument ++ left) = (argument, left) := by
  cases argument with
  | none => cases isArgument
  | some content =>
    have read : readArgument (parenthesised content ++ left) = some (content, left) :=
      readArgument_eq_some_iff.mpr ⟨rfl, balanced content rfl⟩
    rw [argumentText, Option.elim_some, readOptionalArgument, read]

theorem readOptionalArgument_split {text : List Char}
    (read : readOptionalArgument text = (argument, left)) :
    text = argumentText argument ++ left ∧ ∀ content ∈ argument, Balanced content.toList := by
  unfold readOptionalArgument at read
  split at read
  · next found behind readFound =>
    obtain ⟨rfl, rfl⟩ := Prod.mk.inj read
    obtain ⟨split, balanced⟩ := readArgument_eq_some_iff.mp readFound
    exact ⟨split, by rintro _ ⟨⟩; exact balanced⟩
  · obtain ⟨rfl, rfl⟩ := Prod.mk.inj read
    exact ⟨rfl, nofun⟩

theorem readSlot_split {most : Nat} {text : List Char} {slot : String}
    (read : readSlot most text = some (slot, left)) :
    text = slot.toList ++ left ∧ IsSlot most slot.toList := by
  unfold readSlot at read
  dsimp only at read
  split at read
  · cases read
  · next nonempty =>
    obtain ⟨rfl, rfl⟩ := Prod.mk.inj (Option.some.inj read)
    have begins := List.takeWhile_prefix (l := text.take most) Char.isDigit
    rw [String.toList_ofList]
    refine ⟨(List.prefix_iff_eq_append.mp (begins.trans (List.take_prefix most text))).symm, ?_⟩
    constructor
    case nonempty => simpa using nonempty
    case short => exact Nat.le_trans begins.length_le (List.length_take_le most text)
    case digits => exact fun character inside => List.all_eq_true.mp List.all_takeWhile _ inside

/-- A slot is read where it stands, together with the digits that follow it as
long as there is room for them. -/
theorem exists_readSlot {most : Nat} {slot : List Char} (isSlot : IsSlot most slot)
    (behind : List Char) :
    ∃ more left, behind = more ++ left ∧ (∀ character ∈ more, character.isDigit = true) ∧
      readSlot most (slot ++ behind) = some (String.ofList (slot ++ more), left) := by
  have kept : ((slot ++ behind).take most).takeWhile Char.isDigit =
      slot ++ (behind.take (most - slot.length)).takeWhile Char.isDigit := by
    rw [List.take_append, List.take_of_length_le isSlot.short,
      List.takeWhile_append_of_pos isSlot.digits]
  have begins : (behind.take (most - slot.length)).takeWhile Char.isDigit <+: behind :=
    (List.takeWhile_prefix Char.isDigit).trans (List.take_prefix _ _)
  refine ⟨_, _, (List.prefix_iff_eq_append.mp begins).symm, ?_, ?_⟩
  · exact fun character inside => List.all_eq_true.mp List.all_takeWhile _ inside
  · rw [readSlot, kept]
    simp [isSlot.nonempty]

/-- What is read as a code is one, and it is spelled by what was read. -/
theorem isCode_of_readCode {text : List Char} {segment : Segment}
    (read : readCode text = some (segment, left)) :
    ∃ letter slot argument, segment = code letter slot argument ∧ IsCode letter slot argument ∧
      '#' :: text = (code letter slot argument).source.toList ++ left := by
  cases text with
  | nil => cases read
  | cons letter rest =>
    rw [readCode] at read
    split at read
    · next takesSlot =>
      rw [Bool.or_eq_true, beq_iff_eq, beq_iff_eq] at takesSlot
      obtain ⟨⟨slot, behind⟩, readSlot, same⟩ := Option.map_eq_some_iff.mp read
      obtain ⟨rfl, isSlot⟩ := readSlot_split readSlot
      cases readRest : readOptionalArgument behind with
      | mk argument remaining =>
        obtain ⟨rfl, balanced⟩ := readOptionalArgument_split readRest
        simp only [readRest, Prod.mk.injEq] at same
        obtain ⟨rfl, rfl⟩ := same
        refine ⟨letter, some slot, argument, rfl, ⟨.slotted takesSlot isSlot, balanced⟩, ?_⟩
        simp [source_code]
    · split at read
      · next needs =>
        obtain ⟨⟨argument, behind⟩, readFound, same⟩ := Option.map_eq_some_iff.mp read
        obtain ⟨rfl, rfl⟩ := Prod.mk.inj same
        obtain ⟨rfl, balanced⟩ := readArgument_eq_some_iff.mp readFound
        refine ⟨letter, none, some argument, rfl,
          ⟨.expression (by simpa using needs), by rintro _ ⟨⟩; exact balanced⟩, ?_⟩
        simp [source_code, argumentText]
      · split at read
        · next takes =>
          cases readRest : readOptionalArgument rest with
          | mk argument remaining =>
            obtain ⟨rfl, balanced⟩ := readOptionalArgument_split readRest
            rw [readRest] at read
            obtain ⟨rfl, rfl⟩ := Prod.mk.inj (Option.some.inj read)
            refine ⟨letter, none, argument, rfl, ⟨.owner (by simpa using takes), balanced⟩, ?_⟩
            simp [source_code]
        · cases read

theorem takesNoSlot_of_mem_expressionCodes :
    ∀ letter ∈ expressionCodes, (letter == 'C' || letter == 'P') = false := by
  simp [expressionCodes]

theorem needsNothing_of_mem_ownerCodes :
    ∀ letter ∈ ownerCodes, (letter == 'C' || letter == 'P') = false ∧
      expressionCodes.contains letter = false := by
  simp [ownerCodes, expressionCodes]

/-- Where a code stands one is read, and not a shorter one. -/
theorem exists_readCode {letter : Char} {slot : Option String}
    (isCode : IsCode letter slot argument) {text behind : List Char}
    (stands : '#' :: text = (code letter slot argument).source.toList ++ behind) :
    ∃ segment left, readCode text = some (segment, left) ∧
      (code letter slot argument).source.toList <+: segment.source.toList := by
  rw [source_code, List.cons_append, List.cons_append, List.append_assoc] at stands
  obtain ⟨-, rfl⟩ := List.cons.inj stands
  cases isCode.form with
  | @slotted slot argument takesSlot isSlot =>
    rw [readCode, if_pos (by simpa using takesSlot), Option.getD_some]
    obtain ⟨more, left, split, digits, readSlot⟩ :=
      exists_readSlot isSlot (argumentText argument ++ behind)
    refine ⟨_, _, by rw [readSlot, Option.map_some], ?_⟩
    cases argument with
    | none => simp [source_code, argumentText]
    | some content =>
      -- an argument leaves no room for further digits
      obtain rfl : more = [] := by
        cases more with
        | nil => rfl
        | cons first others =>
          obtain ⟨rfl, -⟩ := List.cons.inj split
          exact absurd (digits _ List.mem_cons_self) (by decide)
      rw [List.nil_append] at split
      subst split
      simp [source_code, readOptionalArgument_of_text isCode.balanced rfl]
  | @expression argument needs =>
    have read : readArgument (parenthesised argument ++ behind) = some (argument, behind) :=
      readArgument_eq_some_iff.mpr ⟨rfl, isCode.balanced argument rfl⟩
    refine ⟨code letter none (some argument), behind, ?_, List.prefix_rfl⟩
    rw [readCode, takesNoSlot_of_mem_expressionCodes letter needs]
    simp [needs, argumentText, read]
  | @owner argument takes =>
    obtain ⟨noSlot, noExpression⟩ := needsNothing_of_mem_ownerCodes letter takes
    refine ⟨code letter none (readOptionalArgument (argumentText argument ++ behind)).1,
      (readOptionalArgument (argumentText argument ++ behind)).2, ?_, ?_⟩
    · rw [readCode, noSlot, noExpression]
      simp [takes]
    · cases argument with
      | none => simp [source_code, argumentText]
      | some content =>
        simp [readOptionalArgument_of_text isCode.balanced rfl]

/-! ## Reading a segment -/

theorem Form.letter_ne_mark {letter : Char} {slot : Option String}
    (form : Form letter slot argument) : letter ≠ '#' := by
  cases form with
  | slotted takesSlot => rcases takesSlot with rfl | rfl <;> decide
  | expression needs => exact fun isMark => absurd (isMark ▸ needs) (by decide)
  | owner takes => exact fun isMark => absurd (isMark ▸ takes) (by decide)

theorem mark_notMem_takeWhile (content : List Char) :
    '#' ∉ content.takeWhile fun character => !isMark character := fun inside =>
  absurd (List.all_eq_true.mp List.all_takeWhile _ inside) (by decide)

/-- Reading takes a segment from the front of a text, and nothing is missed by
it. -/
theorem exists_read {content : List Char} (nonempty : content ≠ []) :
    ∃ segment piece left, read content = (segment, left) ∧ content = piece ++ left ∧ piece ≠ [] ∧
      Spells segment piece ∧ Greedy piece left := by
  unfold read
  split
  · next rest =>
    refine ⟨_, ['#', '#'], rest, rfl, rfl, by simp, .doubled, ?_, nofun⟩
    rintro letter slot argument isCode ⟨behind, stands⟩
    rw [source_code] at stands
    exact absurd (List.cons.inj (List.cons.inj stands).2).1 isCode.form.letter_ne_mark
  · next rest notDoubled =>
    cases readRest : readCode rest with
    | none =>
      refine ⟨_, ['#'], rest, rfl, rfl, by simp, .lone, ?_, ?_⟩
      · rintro letter slot argument isCode ⟨behind, stands⟩
        have whole : '#' :: rest = (code letter slot argument).source.toList ++ behind :=
          stands.symm
        obtain ⟨segment, left, found, -⟩ := exists_readCode isCode whole
        rw [readRest] at found
        cases found
      · rintro - isMark
        obtain ⟨others, rfl⟩ := List.head?_eq_some_iff.mp isMark
        exact notDoubled others rfl
    | some found =>
      obtain ⟨letter, slot, argument, isSegment, isCode, split⟩ := isCode_of_readCode readRest
      refine ⟨_, _, found.2, rfl, split, by simp [source_code], ?_, ?_, by simp [source_code]⟩
      · rw [isSegment]
        exact .code isCode
      · rintro letter' slot' argument' isCode' ⟨behind, stands⟩
        obtain ⟨segment, left, again, begins⟩ := exists_readCode isCode' (split.trans stands.symm)
        obtain rfl : (segment, left) = found := Option.some.inj (again.symm.trans readRest)
        rwa [← isSegment]
  · next notDoubled notMarked =>
    obtain ⟨first, rest, rfl⟩ := List.exists_cons_of_ne_nil nonempty
    have notMark : first ≠ '#' := by
      rintro rfl
      exact notMarked rest rfl
    have nonemptyPiece : (first :: rest).takeWhile (fun character => !isMark character) ≠ [] := by
      simp [isMark, notMark]
    refine ⟨_, _, _, rfl, List.takeWhile_append_dropWhile.symm, nonemptyPiece, ?_, ?_, ?_⟩
    · have spells := @Spells.plain
        (String.ofList ((first :: rest).takeWhile fun character => !isMark character))
        (by simpa using nonemptyPiece)
        (by simpa only [String.toList_ofList] using mark_notMem_takeWhile (first :: rest))
      rwa [String.toList_ofList] at spells
    · rintro letter slot argument isCode ⟨behind, stands⟩
      rw [source_code, List.takeWhile_append_dropWhile] at stands
      exact absurd (List.cons.inj stands).1.symm notMark
    · intro isMark
      exact absurd (isMark ▸ List.mem_singleton_self _) (mark_notMem_takeWhile (first :: rest))

/-! ## Reading a text -/

theorem length_lt_of_split {content piece : List Char} (split : content = piece ++ left)
    (nonempty : piece ≠ []) : left.length < content.length := by
  rw [split, List.length_append]
  exact Nat.lt_add_of_pos_left (List.length_pos_iff.mpr nonempty)

theorem exists_pieces {bound : Nat} {content : List Char} (enough : content.length ≤ bound) :
    ∃ pieces : List (List Char), pieces.flatten = content ∧
      List.Forall₂ Spells (readUpTo bound content) pieces ∧
      ∀ front piece back, pieces = front ++ piece :: back → Greedy piece back.flatten := by
  induction bound generalizing content with
  | zero =>
    obtain rfl := List.length_eq_zero_iff.mp (Nat.le_zero.mp enough)
    exact ⟨[], rfl, .nil, by simp⟩
  | succ bound ih =>
    cases content with
    | nil => exact ⟨[], rfl, .nil, by simp⟩
    | cons character rest =>
      obtain ⟨segment, piece, left, read, split, nonempty, spells, greedy⟩ :=
        exists_read (List.cons_ne_nil character rest)
      have shorter := length_lt_of_split split nonempty
      obtain ⟨pieces, whole, spelled, greedyRest⟩ := @ih left (by omega)
      refine ⟨piece :: pieces, ?_, ?_, ?_⟩
      · rw [List.flatten_cons, whole, split]
      · rw [readUpTo, read]
        exact .cons spells spelled
      · intro front found back same
        cases front with
        | nil =>
          obtain ⟨rfl, rfl⟩ := List.cons.inj same
          rwa [whole]
        | cons first front => exact greedyRest front found back (List.cons.inj same).2

end Segment

/-- Segmenting a property string loses nothing and misses nothing: its segments
are spelled by consecutive pieces of it, each as long as it can be. -/
theorem segments_spell (content : String) :
    ∃ pieces : List (List Char), pieces.flatten = content.toList ∧
      List.Forall₂ Segment.Spells (segments content) pieces ∧
      ∀ front piece back, pieces = front ++ piece :: back →
        Segment.Greedy piece back.flatten :=
  Segment.exists_pieces (Nat.le_refl _)

end EventScript
