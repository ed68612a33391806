import EventScript.Proofs.Lexing.Tokens
import EventScript.Stream

/-!
# Streams over known tokens

A text that reads as a list of tokens gives a stream that stands at the first
of them and comes to the others one by one, without findings.  Parsers are
studied on such streams and not on texts.
-/

namespace EventScript

variable {cursor : Cursor} {token : Token}

namespace Cursor

/-- What scanning yields where there is a token. -/
theorem scan_of_readToken {rest left : List Char} (gap : skipGap .blanks cursor.rest = .ok rest)
    (read : readToken rest = (.ok token, left)) :
    cursor.scan = ⟨.ok token, cursor.upTo rest, (cursor.upTo rest).upTo left⟩ := by
  rw [scan, gap]
  change Scan.mk ((readToken rest).1.mapError _) _ (Cursor.upTo _ (readToken rest).2) = _
  rw [read]
  rfl

end Cursor

namespace Stream

variable {tokens : List Token} {stream : Stream}

/-- A stream that stands at the first of several tokens and comes to the others
without findings. -/
def At : List Token → Stream → Prop
  | [], stream => stream.current = .endOfInput
  | token :: tokens, stream =>
    stream.current = token ∧ stream.advance.findings = stream.findings ∧
      stream.advance.remaining < stream.remaining ∧ stream.advance.At tokens

theorem At.current_eq (standing : stream.At tokens) :
    stream.current = tokens.headD .endOfInput := by
  cases tokens with
  | nil => exact standing
  | cons token others => exact standing.1

theorem At.advance (standing : stream.At (token :: tokens)) : stream.advance.At tokens :=
  standing.2.2.2

theorem At.findings_advance (standing : stream.At (token :: tokens)) :
    stream.advance.findings = stream.findings :=
  standing.2.1

/-- Every token takes a character. -/
theorem At.length_le_remaining (standing : stream.At tokens) :
    tokens.length ≤ stream.remaining := by
  induction tokens generalizing stream with
  | nil => exact Nat.zero_le _
  | cons token others ih =>
    have later := ih standing.advance
    have shorter := standing.2.2.1
    rw [List.length_cons]
    omega

/-- Findings are only added. -/
theorem findings_prefix_seek (bound : Nat) (cursor : Cursor) (findings : List Finding) :
    findings <+: (seek bound cursor findings).findings := by
  induction bound generalizing cursor findings with
  | zero => exact List.prefix_refl _
  | succ bound ih =>
    rw [seek]
    split
    · exact List.prefix_refl _
    · exact (List.prefix_append _ _).trans (ih _ _)

/-- Looking ahead shows the token that stepping comes to, unless there is an
error in between. -/
theorem following_eq (noFinding : stream.advance.findings = stream.findings) :
    stream.following = stream.advance.current := by
  rw [Stream.advance, readFrom, seek] at noFinding ⊢
  rw [following]
  split
  · rename_i token scanned
    simp
  · rename_i error scanned
    simp only [scanned] at noFinding
    have added := findings_prefix_seek stream.next.rest.length stream.next.scan.next
      (stream.findings ++ [error.finding])
    rw [noFinding] at added
    have tooLong := added.length_le
    rw [List.length_append, List.length_singleton] at tooLong
    omega

theorem At.following_eq (standing : stream.At (token :: tokens)) :
    stream.following = tokens.headD .endOfInput := by
  rw [Stream.following_eq standing.findings_advance, standing.advance.current_eq]

/-! ## Streams over texts -/

theorem readFrom_of_readToken {rest left : List Char} (gap : skipGap .blanks cursor.rest = .ok rest)
    (read : readToken rest = (.ok token, left)) (findings : List Finding) :
    readFrom cursor findings =
      ⟨token, cursor.upTo rest, (cursor.upTo rest).upTo left, findings⟩ := by
  rw [readFrom, seek, Cursor.scan_of_readToken gap read]

theorem readFrom_of_end (gap : skipGap .blanks cursor.rest = .ok []) (findings : List Finding) :
    readFrom cursor findings = ⟨.endOfInput, cursor.upTo [], (cursor.upTo []).upTo [], findings⟩ :=
  readFrom_of_readToken gap rfl findings

theorem findings_readFrom (lexed : Lexes cursor.rest tokens) (findings : List Finding) :
    (readFrom cursor findings).findings = findings := by
  cases lexed with
  | done gap => rw [readFrom_of_end gap]
  | step gap nonempty read others => rw [readFrom_of_readToken gap read]

theorem remaining_readFrom_le (lexed : Lexes cursor.rest tokens) (findings : List Finding) :
    (readFrom cursor findings).remaining ≤ cursor.rest.length := by
  cases lexed with
  | done gap =>
    rw [readFrom_of_end gap]
    exact Nat.zero_le _
  | step gap nonempty read others =>
    rw [readFrom_of_readToken gap read]
    exact (isSuffix_of_skipGap gap).length_le

/-- A text that reads as tokens gives a stream over these tokens. -/
theorem at_readFrom (lexed : Lexes cursor.rest tokens) (findings : List Finding) :
    (readFrom cursor findings).At tokens := by
  generalize same : cursor.rest = text at lexed
  induction lexed generalizing cursor with
  | done gap =>
    rw [readFrom_of_end (same ▸ gap)]
    rfl
  | @step text rest left token tokens gap nonempty read others ih =>
    have behind : Lexes ((cursor.upTo rest).upTo left).rest tokens := others
    have shorter : left.length < rest.length := by
      cases rest with
      | nil => exact absurd rfl nonempty
      | cons character others => exact Nat.lt_succ_of_le (readToken_split read).1.length_le
    rw [readFrom_of_readToken (same ▸ gap) read]
    refine ⟨rfl, ?_, ?_, ih rfl⟩
    · exact findings_readFrom behind findings
    · exact Nat.lt_of_le_of_lt (remaining_readFrom_le behind findings) shorter

theorem at_ofText {text : List Char} (lexed : Lexes text tokens) :
    (ofText text).At tokens ∧ (ofText text).findings = [] :=
  have whole : Lexes (Cursor.ofText text).rest tokens := lexed
  ⟨at_readFrom whole [], findings_readFrom whole []⟩

end Stream

end EventScript
