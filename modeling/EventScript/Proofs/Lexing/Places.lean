import EventScript.Proofs.Lexing.Standing

/-!
# Places of a source

A cursor that was made by reading a source is a place of that source: its offset
counts the bytes in front of it and its line the line feeds.  So an offset grows
with every character that is passed, and no line lies outside the source.
-/

namespace EventScript

variable {cursor : Cursor}

theorem Fault.atLine_line (fault : Fault) (line : Nat) : (fault.atLine line).line = line := by
  cases fault <;> rfl

theorem byteLength_pos {text : List Char} (nonempty : text ≠ []) : 0 < byteLength text := by
  cases text with
  | nil => exact absurd rfl nonempty
  | cons character rest =>
    have takes := character.utf8Size_pos
    rw [byteLength_cons]
    omega

namespace Cursor

/-- A cursor at a place of a source. -/
def IsPlaceOf (source : List Char) (cursor : Cursor) : Prop :=
  ∃ passed, source = passed ++ cursor.rest ∧ cursor.offset = byteLength passed ∧
    cursor.line = 1 + passed.count '\n'

theorem isPlaceOf_ofText (source : List Char) : (ofText source).IsPlaceOf source :=
  ⟨[], rfl, rfl, rfl⟩

namespace IsPlaceOf

variable {source : List Char} {cursor other : Cursor}

theorem upTo (place : cursor.IsPlaceOf source) {rest : List Char} (behind : rest <:+ cursor.rest) :
    (cursor.upTo rest).IsPlaceOf source := by
  obtain ⟨passed, rfl, offset_eq, line_eq⟩ := place
  obtain ⟨taken, split⟩ := behind
  rw [upTo_of_rest_eq_append split.symm]
  refine ⟨passed ++ taken, ?_, ?_, ?_⟩
  · rw [List.append_assoc, split]
  · rw [byteLength_append, offset_eq]
  · rw [List.count_append, line_eq, Nat.add_assoc]

/-- Every line of a source is reached by its line feeds. -/
theorem line_le (place : cursor.IsPlaceOf source) : cursor.line ≤ 1 + source.count '\n' := by
  obtain ⟨passed, rfl, -, line_eq⟩ := place
  rw [line_eq, List.count_append]
  omega

theorem one_le_line (place : cursor.IsPlaceOf source) : 1 ≤ cursor.line := by
  obtain ⟨passed, -, -, line_eq⟩ := place
  omega

/-- Where less is left, more was passed. -/
theorem offset_lt (place : cursor.IsPlaceOf source) (otherPlace : other.IsPlaceOf source)
    (less : other.rest.length < cursor.rest.length) : cursor.offset < other.offset := by
  obtain ⟨passed, split, offset_eq, -⟩ := place
  obtain ⟨otherPassed, otherSplit, otherOffset_eq, -⟩ := otherPlace
  obtain ⟨between, rfl⟩ : passed <+: otherPassed := by
    refine List.prefix_of_prefix_length_le ⟨_, split.symm⟩ ⟨_, otherSplit.symm⟩ ?_
    have lengths := congrArg List.length (split.symm.trans otherSplit)
    rw [List.length_append, List.length_append] at lengths
    omega
  have nonempty : between ≠ [] := by
    rintro rfl
    rw [List.append_nil, split] at otherSplit
    rw [List.append_cancel_left otherSplit] at less
    exact Nat.lt_irrefl _ less
  have takes := byteLength_pos nonempty
  rw [offset_eq, otherOffset_eq, byteLength_append]
  omega

theorem scan_next (place : cursor.IsPlaceOf source) : cursor.scan.next.IsPlaceOf source := by
  rw [scan]
  split
  · exact place.upTo List.nil_suffix
  · rename_i rest gap
    exact (place.upTo (isSuffix_of_skipGap gap)).upTo (isSuffix_of_readToken rest)

theorem scan_start (place : cursor.IsPlaceOf source) : cursor.scan.start.IsPlaceOf source := by
  rw [scan]
  split
  · rename_i opening gap
    obtain ⟨front, _, split, -⟩ := exists_isGap_of_error gap
    exact place.upTo ⟨front, split.symm⟩
  · rename_i rest gap
    exact place.upTo (isSuffix_of_skipGap gap)

end IsPlaceOf

/-! ## Lines -/

theorem line_le_upTo (cursor : Cursor) (rest : List Char) :
    cursor.line ≤ (cursor.upTo rest).line :=
  Nat.le_add_right _ _

theorem line_upTo_le (cursor : Cursor) (rest : List Char) :
    (cursor.upTo rest).line ≤ (cursor.upTo []).line := by
  have fewer := (List.take_sublist (cursor.rest.length - rest.length) cursor.rest).count_le '\n'
  have all : (cursor.upTo []).line = cursor.line + cursor.rest.count '\n' := by
    rw [upTo_of_rest_eq_append (List.append_nil _).symm]
  rw [all]
  exact Nat.add_le_add_left fewer _

/-- Scanning goes from line to line onward. -/
theorem line_le_scan_start (cursor : Cursor) : cursor.line ≤ cursor.scan.start.line := by
  rw [scan]
  split
  · exact line_le_upTo _ _
  · exact line_le_upTo _ _

theorem scan_start_line_le_next (cursor : Cursor) :
    cursor.scan.start.line ≤ cursor.scan.next.line := by
  rw [scan]
  split
  · exact line_upTo_le _ _
  · exact line_le_upTo _ _

/-- What cannot be read is dated to the line where it begins. -/
theorem line_of_scan_error {error : ScriptError} (scanned : cursor.scan.outcome = .error error) :
    error.line = cursor.scan.start.line := by
  rw [scan] at scanned ⊢
  split at scanned
  · cases scanned
    rfl
  · rename_i rest gap
    change (readToken rest).1.mapError _ = .error error at scanned
    cases outcome : (readToken rest).1 with
    | ok token =>
      rw [outcome] at scanned
      cases scanned
    | error fault =>
      rw [outcome] at scanned
      cases scanned
      exact Fault.atLine_line _ _

end Cursor

/-! ## Streams -/

namespace Stream

/-- A stream at a token of a source. -/
structure Reached (source : List Char) (stream : Stream) : Prop where
  standing : stream.Standing
  start : stream.start.IsPlaceOf source
  next : stream.next.IsPlaceOf source

variable {source : List Char}

theorem isPlaceOf_seek (bound : Nat) (place : cursor.IsPlaceOf source) (findings : List Finding) :
    (seek bound cursor findings).start.IsPlaceOf source ∧
      (seek bound cursor findings).next.IsPlaceOf source := by
  induction bound generalizing cursor findings with
  | zero => exact ⟨place, place⟩
  | succ bound ih =>
    rw [seek]
    split
    · exact ⟨place.scan_start, place.scan_next⟩
    · exact ih place.scan_next _

theorem reached_readFrom (place : cursor.IsPlaceOf source) (findings : List Finding) :
    (readFrom cursor findings).Reached source := by
  obtain ⟨start, next⟩ := isPlaceOf_seek (cursor.rest.length + 1) place findings
  exact ⟨standing_readFrom cursor findings, start, next⟩

theorem reached_ofText (source : List Char) : (ofText source).Reached source :=
  reached_readFrom (Cursor.isPlaceOf_ofText source) []

theorem Reached.takeRaw {stream : Stream} (reached : stream.Reached source) :
    stream.takeRaw.2.Reached source := by
  rw [takeRaw_eq rfl]
  exact reached_readFrom (reached.start.upTo ⟨_, spanRaw_append 0 false stream.start.rest⟩) _

/-- Every error takes a character, so the bound on the number of errors is never
reached. -/
theorem seek_eq_readFrom {bound : Nat} (enough : cursor.rest.length < bound)
    (findings : List Finding) : seek bound cursor findings = readFrom cursor findings := by
  have same (bound other : Nat) (cursor : Cursor) (findings : List Finding)
      (enough : cursor.rest.length < bound) (otherEnough : cursor.rest.length < other) :
      seek bound cursor findings = seek other cursor findings := by
    induction bound generalizing other cursor findings with
    | zero => cases enough
    | succ bound ih =>
      cases other with
      | zero => cases otherEnough
      | succ other =>
        rw [seek, seek]
        cases outcome : cursor.scan.outcome with
        | ok token => rfl
        | error error =>
          have shorter := Cursor.length_next_lt cursor.scanned_scan outcome
          exact ih other _ _ (by omega) (by omega)
  exact same bound (cursor.rest.length + 1) cursor findings enough (Nat.lt_succ_self _)

end Stream

end EventScript
