import EventScript.Proofs.Lexing.Lookahead
import EventScript.Proofs.Lexing.Streams
import EventScript.Proofs.Lexing.Unquoted

/-!
# Streams at their tokens

A stream that was made by reading stands at a token: reading again from its
place yields the same token and leads to the same text behind it.  So a stream
is known from the text at its place, whatever was read before.
-/

namespace EventScript

variable {left : List Char}

/-! ## Faults -/

/-- A text is no token because of its first character, or because it is a quoted
text that is never closed. -/
theorem readToken_error {text : List Char} {fault : Fault}
    (read : readToken text = (.error fault, left)) :
    (∃ character, fault = .unexpectedCharacter character ∧ text = character :: left) ∨
      fault = .unterminated .text ∧ left = [] ∧ text ≠ [] := by
  cases text with
  | nil => cases read
  | cons character rest =>
    rw [readToken] at read
    split at read
    · cases read
    · split at read
      · cases read
      · split at read
        · split at read
          · cases read
          · cases read
            exact Or.inr ⟨rfl, rfl, List.cons_ne_nil _ _⟩
        · split at read
          · cases read
          · cases read
            exact Or.inl ⟨character, rfl, rfl⟩

/-- Only the end of a text reads as the end of the input. -/
theorem eq_nil_of_readToken {text : List Char} (read : readToken text = (.ok .endOfInput, left)) :
    text = [] ∧ left = [] := by
  cases text with
  | nil =>
    cases read
    exact ⟨rfl, rfl⟩
  | cons character rest =>
    obtain ⟨word, -, spelled⟩ := exists_spelled read
    generalize isEnd : Token.endOfInput = token at spelled
    cases spelled with
    | word =>
      unfold Token.ofWord at isEnd
      split at isEnd <;> cases isEnd
    | _ => cases isEnd

namespace Cursor

/-- What scanning comes to: a token, or a fault that takes at least one
character. -/
inductive Scanned (cursor : Cursor) : Scan → Prop
  | token {rest left : List Char} {token : Token} (gap : skipGap .blanks cursor.rest = .ok rest)
      (read : readToken rest = (.ok token, left)) :
      Scanned cursor ⟨.ok token, cursor.upTo rest, (cursor.upTo rest).upTo left⟩
  | unexpected {left : List Char} {character : Char} {error : ScriptError} {start next : Cursor}
      (gap : skipGap .blanks cursor.rest = .ok (character :: left))
      (read : readToken (character :: left) = (.error (.unexpectedCharacter character), left))
      (behind : next.rest = left) : Scanned cursor ⟨.error error, start, next⟩
  | openText {rest : List Char} {error : ScriptError} {start next : Cursor}
      (gap : skipGap .blanks cursor.rest = .ok rest)
      (read : readToken rest = (.error (.unterminated .text), [])) (nonempty : rest ≠ [])
      (behind : next.rest = []) : Scanned cursor ⟨.error error, start, next⟩
  | openComment {opening : List Char} {error : ScriptError} {start next : Cursor}
      (gap : skipGap .blanks cursor.rest = .error opening) (behind : next.rest = []) :
      Scanned cursor ⟨.error error, start, next⟩

theorem scanned_scan (cursor : Cursor) : cursor.Scanned cursor.scan := by
  cases gap : skipGap .blanks cursor.rest with
  | error opening =>
    rw [scan, gap]
    exact .openComment gap rfl
  | ok rest =>
    cases read : readToken rest with
    | mk outcome left =>
      cases outcome with
      | ok token =>
        rw [scan_of_readToken gap read]
        exact .token gap read
      | error fault =>
        have scanned : cursor.scan = ⟨.error (fault.atLine (cursor.upTo rest).line),
            cursor.upTo rest, (cursor.upTo rest).upTo left⟩ := by
          rw [scan, gap]
          change Scan.mk ((readToken rest).1.mapError _) _
            (Cursor.upTo _ (readToken rest).2) = _
          rw [read]
          rfl
        rw [scanned]
        rcases readToken_error read with ⟨character, rfl, rfl⟩ | ⟨rfl, rfl, nonempty⟩
        · exact .unexpected gap read rfl
        · exact .openText gap read nonempty rfl

/-- A fault takes at least one character. -/
theorem length_next_lt {cursor : Cursor} {scan : Scan} (scanned : cursor.Scanned scan)
    {error : ScriptError} (isError : scan.outcome = .error error) :
    scan.next.rest.length < cursor.rest.length := by
  cases scanned with
  | token => cases isError
  | unexpected gap read behind =>
    rw [behind]
    exact (isSuffix_of_skipGap gap).length_le
  | openText gap read nonempty behind =>
    rw [behind]
    exact Nat.lt_of_lt_of_le (List.length_pos_iff.mpr nonempty)
      (isSuffix_of_skipGap gap).length_le
  | openComment gap behind =>
    rw [behind, List.length_nil, List.length_pos_iff]
    intro atEnd
    rw [atEnd] at gap
    cases gap

end Cursor

namespace Stream

variable {cursor : Cursor} {rest word : List Char}

/-- Reading from the place of a stream yields its token. -/
structure Standing (stream : Stream) : Prop where
  visible : skipGap .blanks stream.start.rest = .ok stream.start.rest
  reads : readToken stream.start.rest = (.ok stream.current, stream.next.rest)

theorem standing_seek {bound : Nat} (enough : cursor.rest.length < bound) (findings : List Finding) :
    (seek bound cursor findings).Standing := by
  induction bound generalizing cursor findings with
  | zero => cases enough
  | succ bound ih =>
    have scanned := cursor.scanned_scan
    have shorter (error : ScriptError) := @Cursor.length_next_lt _ _ scanned error
    rw [seek]
    generalize cursor.scan = scan at scanned shorter
    cases scanned with
    | token gap read => exact ⟨skipGap_of_skipGap gap, read⟩
    | _ =>
      apply ih
      exact Nat.lt_of_lt_of_le (shorter _ rfl) (Nat.le_of_lt_succ enough)

/-- A stream that was made by reading stands at its token. -/
theorem standing_readFrom (cursor : Cursor) (findings : List Finding) :
    (readFrom cursor findings).Standing :=
  standing_seek (Nat.lt_succ_self _) findings

theorem standing_ofText (text : List Char) : (ofText text).Standing :=
  standing_readFrom _ _

theorem standing_advance (stream : Stream) : stream.advance.Standing :=
  standing_readFrom _ _

theorem standing_takeRaw (stream : Stream) : stream.takeRaw.2.Standing :=
  standing_readFrom _ _

namespace Standing

variable {stream : Stream}

/-- A stream is at the end of the text, or in front of the spelling of its
token. -/
theorem cases (standing : stream.Standing) :
    (stream.start.rest = [] ∧ stream.current = .endOfInput ∧ stream.next.rest = []) ∨
      ∃ word, stream.start.rest = word ++ stream.next.rest ∧
        Begins word stream.current stream.next.rest := by
  obtain ⟨visible, reads⟩ := standing
  cases place : stream.start.rest with
  | nil =>
    rw [place] at reads
    obtain ⟨isEnd, atEnd⟩ := Prod.mk.inj reads
    exact Or.inl ⟨rfl, (Except.ok.inj isEnd).symm, atEnd.symm⟩
  | cons character rest =>
    rw [place] at visible reads
    obtain ⟨word, split, spelled⟩ := exists_spelled reads
    apply Or.inr
    rw [split] at visible reads ⊢
    exact ⟨word, rfl, spelled.ne_nil, visible, reads⟩

/-- The token of a stream is spelled as its kind demands. -/
theorem valid (standing : stream.Standing) : stream.current.Valid := by
  have reads := standing.reads
  cases place : stream.start.rest with
  | nil =>
    rw [place] at reads
    rw [← Except.ok.inj (Prod.mk.inj reads).1]
    trivial
  | cons character rest =>
    rw [place] at reads
    exact (readToken_split reads).2 _ rfl

theorem eq_nil_of_endOfInput (standing : stream.Standing)
    (atEnd : stream.current = .endOfInput) : stream.start.rest = [] := by
  have reads := standing.reads
  rw [atEnd] at reads
  exact (eq_nil_of_readToken reads).1

end Standing

/-- A stream in front of a given text. -/
structure InFrontOf (stream : Stream) (text : List Char) : Prop where
  standing : stream.Standing
  place : stream.start.rest = text

/-- Reading from a gap in front of a token comes to the token, without
findings. -/
theorem inFrontOf_readFrom {token : Token} (gap : skipGap .blanks cursor.rest = .ok rest)
    (read : readToken rest = (.ok token, left)) (findings : List Finding) :
    (readFrom cursor findings).InFrontOf rest ∧
      (readFrom cursor findings).findings = findings := by
  rw [readFrom_of_readToken gap read]
  exact ⟨⟨⟨skipGap_of_skipGap gap, read⟩, rfl⟩, rfl⟩

/-- Reading from the beginning of a token comes to the token. -/
theorem readFrom_of_begins {token : Token} (place : cursor.rest = word ++ rest)
    (begun : Begins word token rest) (findings : List Finding) :
    (readFrom cursor findings).current = token ∧ (readFrom cursor findings).next.rest = rest ∧
      (readFrom cursor findings).findings = findings := by
  have gap := begun.visible
  nth_rewrite 1 [← place] at gap
  rw [readFrom_of_readToken gap begun.reads]
  exact ⟨rfl, rfl, rfl⟩

theorem ofText_of_begins {token : Token} (begun : Begins word token rest) :
    (ofText (word ++ rest)).current = token ∧ (ofText (word ++ rest)).next.rest = rest ∧
      (ofText (word ++ rest)).findings = [] := by
  have place : (Cursor.ofText (word ++ rest)).rest = word ++ rest := rfl
  exact readFrom_of_begins place begun []

theorem following_of_begins {stream : Stream} {token : Token}
    (place : stream.next.rest = word ++ rest) (begun : Begins word token rest) :
    stream.following = token := by
  have gap := begun.visible
  nth_rewrite 1 [← place] at gap
  rw [following, Cursor.scan_of_readToken gap begun.reads]

theorem takeRaw_eq {stream : Stream} {argument : List Char}
    (spanned : spanRaw 0 false stream.start.rest = (argument, left)) :
    stream.takeRaw = (String.ofList (Text.trimChars argument),
      readFrom (stream.start.upTo left) stream.findings) := by
  have raw : stream.start.rawArgument =
      (String.ofList (Text.trimChars argument), stream.start.upTo left) := by
    rw [Cursor.rawArgument, spanned]
  rw [takeRaw, raw]

end Stream

theorem begins_of_endsRaw {character : Char} (ends : endsRaw character = true) :
    ∃ mark, ∀ rest, Begins [character] (.symbol mark) rest := by
  rw [endsRaw, Bool.or_eq_true, Bool.or_eq_true, Bool.or_eq_true, beq_iff_eq, beq_iff_eq,
    beq_iff_eq, beq_iff_eq] at ends
  have begins {mark : Symbol} (single : Symbol.ofChar? character = some mark)
      (alone : ∀ second, Symbol.ofPair? character second = none) (notPoint : character ≠ '.')
      (notSlash : character ≠ '/') : ∃ mark, ∀ rest, Begins [character] (.symbol mark) rest :=
    ⟨mark, fun rest => begins_symbol single (fun second _ => alone second)
      (fun isPoint => absurd isPoint notPoint) (not_startsComment notSlash rest)⟩
  rcases ends with ((rfl | rfl) | rfl) | rfl
  all_goals exact begins rfl (fun _ => rfl) (by decide) (by decide)

end EventScript
