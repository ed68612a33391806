import EventScript.Proofs.Lexing.Places

/-!
# Walks through a source

One cursor reads a source by tokens and by unquoted arguments, and it goes back
to places that it showed before.  Whatever it does, it stays at a place of the
source: between two characters, on the line that the line feeds in front of it
count.  What it reports is dated to the first character of what it read, and
reading token by token comes to the end of the source.
-/

namespace EventScript

variable {cursor : Cursor}

/-- What stands where a scan says that something begins: the spelling of a token,
a character that begins none, or a mark that is never closed.  Errors name the
line of that place. -/
inductive Scan.Located : Scan → Prop
  | ending {start next : Cursor} (atEnd : start.rest = []) :
      Located ⟨.ok .endOfInput, start, next⟩
  | token {start next : Cursor} {token : Token} {word : List Char} (spelled : Spelled word token)
      (split : start.rest = word ++ next.rest) : Located ⟨.ok token, start, next⟩
  | unexpected {start next : Cursor} {character : Char}
      (split : start.rest = character :: next.rest) :
      Located ⟨.error (.invalid start.line (.unexpectedCharacter character)), start, next⟩
  | openText {start next : Cursor} {inside : List Char} (split : start.rest = '"' :: inside)
      (unclosed : readQuoted inside = none) :
      Located ⟨.error (.unterminated start.line .text), start, next⟩
  | openComment {start next : Cursor} {inside : List Char}
      (split : start.rest = '/' :: '*' :: inside)
      (unclosed : skipGap .blanks start.rest = .error start.rest) :
      Located ⟨.error (.unterminated start.line .comment), start, next⟩

namespace Cursor

/-! ## One scan -/

/-- An open quoted text begins with its quote. -/
theorem exists_readQuoted_of_unterminated {text left : List Char}
    (read : readToken text = (.error (.unterminated .text), left)) :
    ∃ inside, text = '"' :: inside ∧ readQuoted inside = none := by
  cases text with
  | nil => cases read
  | cons character rest =>
    rw [readToken] at read
    split at read
    · cases read
    · split at read
      · cases read
      · split at read
        · rename_i isQuote
          split at read
          · cases read
          · rename_i unclosed
            exact ⟨rest, by rw [beq_iff_eq.mp isQuote], unclosed⟩
        · split at read
          · cases read
          · cases read

/-- A scan begins at the cursor or behind it, with what it reports. -/
theorem scan_located (cursor : Cursor) :
    cursor.scan.start.rest <:+ cursor.rest ∧ cursor.scan.Located := by
  rw [scan]
  cases gap : skipGap .blanks cursor.rest with
  | error opening =>
    obtain ⟨front, inside, split, -, begins, unclosed⟩ := exists_isGap_of_error gap
    exact ⟨⟨front, split.symm⟩, .openComment begins unclosed⟩
  | ok rest =>
    refine ⟨isSuffix_of_skipGap gap, ?_⟩
    dsimp only
    cases read : readToken rest with
    | mk outcome left =>
      cases outcome with
      | ok token =>
        cases rest with
        | nil =>
          cases read
          exact .ending rfl
        | cons character others =>
          obtain ⟨word, split, spelled⟩ := exists_spelled read
          exact .token spelled split
      | error fault =>
        rcases readToken_error read with ⟨character, rfl, rfl⟩ | ⟨rfl, rfl, -⟩
        · exact .unexpected rfl
        · obtain ⟨inside, begins, unclosed⟩ := exists_readQuoted_of_unterminated read
          exact .openText begins unclosed

/-- Every scan but that of the end passes a character. -/
theorem length_scan_next_lt (notEnd : cursor.scan.outcome ≠ .ok .endOfInput) :
    cursor.scan.next.rest.length < cursor.rest.length := by
  cases outcome : cursor.scan.outcome with
  | error error => exact length_next_lt cursor.scanned_scan outcome
  | ok token =>
    obtain ⟨behind, located⟩ := cursor.scan_located
    generalize cursor.scan = scanned at *
    cases located with
    | ending => exact absurd rfl notEnd
    | token spelled split =>
      have nonempty := List.length_pos_iff.mpr spelled.ne_nil
      have shorter := behind.length_le
      dsimp only at shorter ⊢
      rw [split, List.length_append] at shorter
      omega
    | unexpected | openText | openComment => cases outcome

/-! ## Going back -/

/-- Dropping the bytes in front of a place leaves what is behind it. -/
theorem dropBytes_append (front rest : List Char) :
    dropBytes (byteLength front) (front ++ rest) = rest := by
  induction front with
  | nil => cases rest <;> simp [dropBytes]
  | cons character front ih =>
    have takes := character.utf8Size_pos
    have notYet : byteLength (character :: front) ≠ 0 := by
      rw [byteLength_cons]
      omega
    rw [List.cons_append, dropBytes, if_neg notYet, byteLength_cons, Nat.add_sub_cancel_left,
      ih]

/-- A place is found again from its offset and its line. -/
theorem IsPlaceOf.atOffset_eq {source : List Char} (place : cursor.IsPlaceOf source) :
    atOffset source cursor.offset cursor.line = cursor := by
  obtain ⟨passed, rfl, offset_eq, -⟩ := place
  rw [atOffset, offset_eq, dropBytes_append, byteLength_append,
    Nat.min_eq_left (Nat.le_add_right _ _), ← offset_eq]

/-! ## Walks -/

/-- What a cursor shows of its place. -/
def mark (cursor : Cursor) : Nat × Nat :=
  (cursor.offset, cursor.line)

end Cursor

/-- The places that reading a token shows: where reading goes on, and where the
token begins if there is one. -/
def Scan.marks (scan : Scan) : List (Nat × Nat) :=
  match scan.outcome with
  | .ok _ => [scan.start.mark, scan.next.mark]
  | .error _ => [scan.next.mark]

namespace Cursor

/-- What one cursor on a source can come to, with the places it showed so far.  A
token with its place and a token alone are read by the same step. -/
inductive Walk (source : List Char) : List (Nat × Nat) → Cursor → Prop
  | start : Walk source [(ofText source).mark] (ofText source)
  | scan {seen : List (Nat × Nat)} {cursor : Cursor} (walk : Walk source seen cursor) :
      Walk source (seen ++ cursor.scan.marks) cursor.scan.next
  | rawArgument {seen : List (Nat × Nat)} {cursor : Cursor} (walk : Walk source seen cursor) :
      Walk source (seen ++ [cursor.rawArgument.2.mark]) cursor.rawArgument.2
  | reset {seen : List (Nat × Nat)} {cursor : Cursor} (walk : Walk source seen cursor)
      {offset line : Nat} (shown : (offset, line) ∈ seen) :
      Walk source (seen ++ [(atOffset source offset line).mark]) (atOffset source offset line)

/-- The offset and the line of a place of a source. -/
def IsMarkOf (source : List Char) (mark : Nat × Nat) : Prop :=
  ∃ cursor : Cursor, cursor.IsPlaceOf source ∧ cursor.mark = mark

section Places

variable {source : List Char} {cursor : Cursor}

theorem IsPlaceOf.isMarkOf (place : cursor.IsPlaceOf source) : IsMarkOf source cursor.mark :=
  ⟨cursor, place, rfl⟩

theorem IsPlaceOf.rawArgument (place : cursor.IsPlaceOf source) :
    cursor.rawArgument.2.IsPlaceOf source :=
  place.upTo ⟨_, spanRaw_append 0 false cursor.rest⟩

theorem IsPlaceOf.isMarkOf_of_mem_marks (place : cursor.IsPlaceOf source) {mark : Nat × Nat}
    (shown : mark ∈ cursor.scan.marks) : IsMarkOf source mark := by
  have next := place.scan_next.isMarkOf
  rw [Scan.marks] at shown
  split at shown
  · rw [List.mem_cons, List.mem_singleton] at shown
    rcases shown with rfl | rfl
    · exact place.scan_start.isMarkOf
    · exact next
  · rw [List.mem_singleton.mp shown]
    exact next

theorem IsMarkOf.atOffset {offset line : Nat} (shown : IsMarkOf source (offset, line)) :
    (Cursor.atOffset source offset line).IsPlaceOf source := by
  obtain ⟨cursor, place, same⟩ := shown
  obtain ⟨rfl, rfl⟩ := Prod.mk.inj same
  rw [place.atOffset_eq]
  exact place

end Places

namespace Walk

variable {source : List Char} {seen : List (Nat × Nat)} {cursor : Cursor}

/-- Every step of a walk leads to a place of the source and shows only such
places. -/
theorem isPlaceOf (walk : Walk source seen cursor) :
    cursor.IsPlaceOf source ∧ ∀ mark ∈ seen, IsMarkOf source mark := by
  -- the places shown so far have to be kept, since the walk may go back to any of them
  have extended {next : Cursor} {seen added : List (Nat × Nat)} (place : next.IsPlaceOf source)
      (before : ∀ mark ∈ seen, IsMarkOf source mark)
      (after : ∀ mark ∈ added, IsMarkOf source mark) :
      next.IsPlaceOf source ∧ ∀ mark ∈ seen ++ added, IsMarkOf source mark :=
    ⟨place, List.forall_mem_append.mpr ⟨before, after⟩⟩
  induction walk with
  | start =>
    have place := isPlaceOf_ofText source
    exact ⟨place, List.forall_mem_singleton.mpr place.isMarkOf⟩
  | scan _ ih =>
    obtain ⟨place, before⟩ := ih
    exact extended place.scan_next before fun _ => place.isMarkOf_of_mem_marks
  | rawArgument _ ih =>
    obtain ⟨place, before⟩ := ih
    exact extended place.rawArgument before
      (List.forall_mem_singleton.mpr place.rawArgument.isMarkOf)
  | reset _ shown ih =>
    obtain ⟨-, before⟩ := ih
    have place := (before _ shown).atOffset
    exact extended place before (List.forall_mem_singleton.mpr place.isMarkOf)

end Walk

theorem scanAll_succ_of_eq (atEnd : cursor.scan.outcome = .ok .endOfInput) (bound : Nat) :
    scanAll (bound + 1) cursor = [cursor.scan] := by
  rw [scanAll, atEnd]

/-- Scanning goes on behind everything but the end. -/
theorem scanAll_succ_of_ne (notEnd : cursor.scan.outcome ≠ .ok .endOfInput) (bound : Nat) :
    scanAll (bound + 1) cursor = cursor.scan :: scanAll bound cursor.scan.next := by
  rw [scanAll]
  split
  · rename_i atEnd
    exact absurd atEnd notEnd
  · rfl

/-- Reading token by token comes to the end in no more steps than there are
characters, besides the last. -/
theorem exists_scanAll_endOfInput {bound : Nat} {cursor : Cursor}
    (enough : cursor.rest.length < bound) :
    ∃ before last, scanAll bound cursor = before ++ [last] ∧ last.outcome = .ok .endOfInput := by
  induction bound generalizing cursor with
  | zero => exact absurd enough (Nat.not_lt_zero _)
  | succ bound ih =>
    by_cases atEnd : cursor.scan.outcome = .ok .endOfInput
    · exact ⟨[], cursor.scan, scanAll_succ_of_eq atEnd bound, atEnd⟩
    · have shorter := length_scan_next_lt atEnd
      obtain ⟨before, last, reached, isLast⟩ :=
        @ih cursor.scan.next (by omega)
      exact ⟨cursor.scan :: before, last,
        by rw [scanAll_succ_of_ne atEnd, reached, List.cons_append], isLast⟩

/-- A walk through a source keeps to its places.  The next scan begins and ends
at places of the source, what it reports stands where it says, it moves onward
unless it is at the end, and reading token by token from here comes to the
end. -/
theorem Walk.consistent {source : List Char} {seen : List (Nat × Nat)} {cursor : Cursor}
    (walk : Walk source seen cursor) :
    cursor.IsPlaceOf source ∧
      cursor.scan.start.IsPlaceOf source ∧ cursor.scan.Located ∧
      (cursor.scan.outcome ≠ .ok .endOfInput → cursor.offset < cursor.scan.next.offset) ∧
      ∃ before last, scanAll (cursor.rest.length + 1) cursor = before ++ [last] ∧
        last.outcome = .ok .endOfInput := by
  have place := walk.isPlaceOf.1
  refine ⟨place, place.scan_start, cursor.scan_located.2, fun notEnd => ?_,
    exists_scanAll_endOfInput (Nat.lt_succ_self _)⟩
  exact place.offset_lt place.scan_next (length_scan_next_lt notEnd)

/-- A character of two bytes that begins no token, a name and a text over two
lines are read, and the walk goes back to where the text begins. -/
theorem Walk.consistent_rewound :
    let source := "ü ab \"x\ny\" c".toList
    let place : Cursor := ⟨"\"x\ny\" c".toList, 6, 1⟩
    (∃ seen, (11, 2) ∈ seen ∧ Walk source seen place) ∧
      place.IsPlaceOf source ∧ place.scan.Located ∧
      place.offset < place.scan.next.offset := by
  intro source place
  have read := (Walk.start : Walk source _ _).scan.scan.scan
  have back : Walk source _ (atOffset source 6 1) := read.reset (by decide +kernel)
  have same : atOffset source 6 1 = place := by decide +kernel
  rw [same] at back
  obtain ⟨isPlace, -, located, onward, -⟩ := back.consistent
  exact ⟨⟨_, by decide +kernel, back⟩, isPlace, located, onward (by decide +kernel)⟩

end Cursor

end EventScript
