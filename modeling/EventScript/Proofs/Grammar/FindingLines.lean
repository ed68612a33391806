import EventScript.Proofs.Grammar.Depth
import EventScript.Proofs.Lexing.Places

/-!
# The lines of findings

Findings come from two sides: from the text between tokens, while the stream
steps on, and from statements that cannot be read.  Either way a finding is not
dated in front of the findings before it.  A fault of the text is dated to the
line where it begins, which is behind the current token; a statement fails on
the line of the current token, and going back to the beginning of that token for
an unquoted argument goes back no further.
-/

namespace EventScript

/-- Findings in the order of their lines, from the first line to a given one. -/
structure OrderedUpTo (line : Nat) (findings : List Finding) : Prop where
  ordered : findings.Pairwise fun earlier later => earlier.line ≤ later.line
  within : ∀ finding ∈ findings, 1 ≤ finding.line ∧ finding.line ≤ line

namespace OrderedUpTo

variable {line : Nat} {findings : List Finding}

theorem mono (upTo : OrderedUpTo line findings) {later : Nat} (onward : line ≤ later) :
    OrderedUpTo later findings where
  ordered := upTo.ordered
  within finding member :=
    ⟨(upTo.within finding member).1, Nat.le_trans (upTo.within finding member).2 onward⟩

/-- A finding that is not dated in front of the others. -/
theorem append (upTo : OrderedUpTo line findings) {finding : Finding} (positive : 1 ≤ line)
    (onward : line ≤ finding.line) : OrderedUpTo finding.line (findings ++ [finding]) where
  ordered := by
    rw [List.pairwise_append]
    refine ⟨upTo.ordered, List.pairwise_singleton _ _, ?_⟩
    intro earlier member later isLast
    rw [List.mem_singleton.mp isLast]
    exact Nat.le_trans (upTo.within earlier member).2 onward
  within := by
    intro found member
    rcases List.mem_append.mp member with isEarlier | isLast
    · exact (upTo.mono onward).within found isEarlier
    · rw [List.mem_singleton.mp isLast]
      exact ⟨Nat.le_trans positive onward, Nat.le_refl _⟩

end OrderedUpTo

/-- A stream over a source, with findings in order up to its line. -/
structure Stream.Ordered (source : List Char) (stream : Stream) : Prop where
  start : stream.start.IsPlaceOf source
  next : stream.next.IsPlaceOf source
  onward : stream.start.line ≤ stream.next.line
  findings : OrderedUpTo stream.start.line stream.findings

namespace Stream

variable {source : List Char}

/-- Reading on from a place dates every fault to that place or behind it. -/
theorem ordered_seek (bound : Nat) {cursor : Cursor} {findings : List Finding}
    (place : cursor.IsPlaceOf source) (upTo : OrderedUpTo cursor.line findings) :
    (seek bound cursor findings).Ordered source := by
  induction bound generalizing cursor findings with
  | zero => exact ⟨place, place, Nat.le_refl _, upTo⟩
  | succ bound ih =>
    rw [seek]
    split
    · exact ⟨place.scan_start, place.scan_next, cursor.scan_start_line_le_next,
        upTo.mono cursor.line_le_scan_start⟩
    · rename_i error scanned
      have dated : error.finding.line = cursor.scan.start.line := by
        rw [ScriptError.finding_line, Cursor.line_of_scan_error scanned]
      apply ih place.scan_next
      refine (upTo.append place.one_le_line ?_).mono ?_
      · rw [dated]
        exact cursor.line_le_scan_start
      · rw [dated]
        exact cursor.scan_start_line_le_next

theorem ordered_ofText (source : List Char) : (ofText source).Ordered source :=
  ordered_seek _ (Cursor.isPlaceOf_ofText source) ⟨.nil, by rintro _ ⟨⟩⟩

end Stream

namespace Parser

/-- Every step keeps the findings in order. -/
theorem lasting_ordered (source : List Char) : Lasting (Stream.Ordered source) where
  advance stream ordered := by
    apply Stream.ordered_seek _ ordered.next
    exact ordered.findings.mono ordered.onward
  takeRaw stream ordered := by
    have behind : (spanRaw 0 false stream.start.rest).2 <:+ stream.start.rest :=
      ⟨_, spanRaw_append 0 false stream.start.rest⟩
    apply Stream.ordered_seek _ (ordered.start.upTo behind)
    exact ordered.findings.mono (Cursor.line_le_upTo _ _)
  report stream finding dated ordered := by
    refine ⟨ordered.start, ordered.next, ordered.onward, ?_⟩
    have onLine : stream.start.line = finding.line := dated.symm
    have added := ordered.findings.append ordered.start.one_le_line (Nat.le_of_eq onLine)
    exact added.mono (Nat.le_of_eq onLine.symm)

end Parser

/-- Whatever a source holds, its findings come in the order of their lines, and
every line is one of the source. -/
theorem Script.ordered_findings (source : String) :
    ((Script.parse source).findings.Pairwise fun earlier later => earlier.line ≤ later.line) ∧
      ∀ finding ∈ (Script.parse source).findings,
        1 ≤ finding.line ∧ finding.line ≤ 1 + source.toList.count '\n' := by
  have lasting := Parser.lasting_ordered source.toList
  have initially := Stream.ordered_ofText source.toList
  obtain ⟨stream, ordered, isFindings⟩ : ∃ stream : Stream, stream.Ordered source.toList ∧
      (Script.parse source).findings = stream.findings := by
    rw [Script.parse]
    cases run : Parser.script.runOn (.ofText source.toList) with
    | mk outcome after =>
      have kept := Parser.tame_script.kept lasting run initially
      cases outcome with
      | ok script => exact ⟨after, kept, rfl⟩
      | error error =>
        have dated : error.finding.line = after.line :=
          (ScriptError.finding_line error).trans (Parser.tame_script.dated run)
        exact ⟨after.report error.finding, lasting.report after _ dated kept, rfl⟩
  rw [isFindings]
  refine ⟨ordered.findings.ordered, fun finding member => ?_⟩
  obtain ⟨positive, upTo⟩ := ordered.findings.within finding member
  exact ⟨positive, Nat.le_trans upTo ordered.start.line_le⟩

end EventScript
