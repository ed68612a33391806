import EventScript.Proofs.Lexing.Endings

/-!
# Streams over one text with different endings

Streams over a text with different endings take the same steps as long as they
are inside the text: they stand at the same tokens, look ahead at the same tokens
and read the same unquoted arguments.  So what a stream does in front of one
ending tells what its twins do in front of the others.
-/

namespace EventScript

variable {token : Token} {cursor : Cursor}

/-! ## Streams at an ending -/

namespace Stream.InFrontOf

variable {stream : Stream} {ending : Ending}

theorem reads_marks (inFront : stream.InFrontOf ending.marks) :
    stream.current = ending.token ∧ stream.next.rest = Ending.marks ending.tail := by
  have reads := inFront.standing.reads
  rw [inFront.place, ending.readToken_marks] at reads
  obtain ⟨sameToken, sameRest⟩ := Prod.mk.inj reads
  exact ⟨(Except.ok.inj sameToken).symm, sameRest.symm⟩

theorem current_eq_endOfInput (inFront : stream.InFrontOf []) : stream.current = .endOfInput := by
  have atMarks : stream.InFrontOf (Ending.marks []) := inFront
  exact atMarks.reads_marks.1

theorem advance_marks (inFront : stream.InFrontOf ending.marks) :
    stream.advance.InFrontOf (Ending.marks ending.tail) ∧
      stream.advance.findings = stream.findings := by
  have gap := Ending.skipGap_marks ending.tail
  nth_rewrite 1 [← inFront.reads_marks.2] at gap
  exact inFrontOf_readFrom gap (Ending.readToken_marks _) _

/-- The marks of an ending are read one after the other. -/
theorem at_marks (inFront : stream.InFrontOf ending.marks) :
    stream.At (ending.map fun mark => .symbol mark.symbol) := by
  induction ending generalizing stream with
  | nil => exact inFront.reads_marks.1
  | cons mark others ih =>
    obtain ⟨next, clean⟩ := inFront.advance_marks
    refine ⟨inFront.reads_marks.1, clean, ?_, ih next⟩
    rw [remaining, remaining, next.place, inFront.place]
    exact Nat.lt_succ_self _

theorem takeRaw_marks (inFront : stream.InFrontOf ending.marks) :
    stream.takeRaw.1 = "" ∧ stream.takeRaw.2.InFrontOf ending.marks ∧
      stream.takeRaw.2.findings = stream.findings := by
  have spanned : spanRaw 0 false stream.start.rest = ([], ending.marks) := by
    rw [inFront.place]
    cases ending with
    | nil => rfl
    | cons mark others =>
      rw [Ending.marks, List.map_cons, spanRaw_unquoted, mark.endsRaw_character]
      rfl
  rw [takeRaw_eq spanned]
  exact ⟨rfl, inFrontOf_readFrom ending.skipGap_marks ending.readToken_marks _⟩

end Stream.InFrontOf

/-- A stream that is behind the first mark of an ending. -/
def Ending.Past (ending : Ending) (stream : Stream) : Prop :=
  ∃ others : Ending, others <:+ ending.tail ∧ stream.InFrontOf others.marks

namespace Ending.Past

variable {ending : Ending} {stream : Stream}

theorem advance (past : ending.Past stream) : ending.Past stream.advance := by
  rcases past with ⟨others, suffix, inFront⟩
  exact ⟨others.tail, (List.tail_suffix others).trans suffix, inFront.advance_marks.1⟩

theorem takeRaw (past : ending.Past stream) : ending.Past stream.takeRaw.2 := by
  rcases past with ⟨others, suffix, inFront⟩
  exact ⟨others, suffix, inFront.takeRaw_marks.2.1⟩

theorem report (past : ending.Past stream) (finding : Finding) :
    ending.Past (stream.report finding) := by
  rcases past with ⟨others, suffix, standing, place⟩
  exact ⟨others, suffix, ⟨standing.visible, standing.reads⟩, place⟩

/-- Behind the first mark there are the other marks and the end. -/
theorem current_eq (past : ending.Past stream) :
    stream.current = .endOfInput ∨ ∃ mark ∈ ending.tail, stream.current = .symbol mark.symbol := by
  rcases past with ⟨others, suffix, inFront⟩
  have isToken := inFront.reads_marks.1
  cases others with
  | nil => exact Or.inl isToken
  | cons mark others => exact Or.inr ⟨mark, suffix.subset List.mem_cons_self, isToken⟩

theorem current_ne (past : ending.Past stream) (noEnding : Ending.beginsWith token = false) :
    stream.current ≠ token := by
  rcases past with ⟨others, -, inFront⟩
  rw [inFront.reads_marks.1]
  exact others.token_ne noEnding

end Ending.Past

/-- A stream that is behind a parenthesis that an ending begins with. -/
def Ending.Lost (ending : Ending) (stream : Stream) : Prop :=
  ending.token = .symbol .closeParen ∧ ending.Past stream

/-! ## Reading on -/

/-- Reading has no findings only in front of a token. -/
theorem Stream.exists_readToken_of_findings {findings : List Finding}
    (clean : (readFrom cursor findings).findings = findings) :
    ∃ rest token left, skipGap .blanks cursor.rest = .ok rest ∧
      readToken rest = (.ok token, left) := by
  have grows (bound : Nat) (next : Cursor) (finding : Finding) :
      (seek bound next (findings ++ [finding])).findings ≠ findings := by
    intro same
    have added := (findings_prefix_seek bound next (findings ++ [finding])).length_le
    rw [same, List.length_append, List.length_singleton] at added
    omega
  have scanned := cursor.scanned_scan
  rw [readFrom, seek] at clean
  generalize cursor.scan = scan at scanned clean
  cases scanned with
  | token gap read => exact ⟨_, _, _, gap, read⟩
  | unexpected | openText | openComment => exact absurd clean (grows _ _ _)

namespace Ending

variable {ending : Ending} {common : List Char} {stream : Stream}
variable {rest : List Char}

/-- At a place of the text there is a token with every ending, the same one
unless it is that of the ending. -/
theorem exists_readToken_behind {left : List Char}
    (visible : skipGap .blanks (ending.behind common) = .ok (ending.behind common))
    (read : readToken (ending.behind common) = (.ok token, left)) (other : Ending) :
    ∃ otherToken otherLeft, readToken (other.behind common) = (.ok otherToken, otherLeft) ∧
      otherToken = if common = [] then other.token else token := by
  by_cases atEnd : common = []
  · subst atEnd
    rw [if_pos rfl]
    exact ⟨_, _, other.readToken_marks, rfl⟩
  · rw [if_neg atEnd]
    obtain ⟨word, rest, -, -, -, same⟩ := exists_word_of_readToken atEnd visible read
    exact ⟨_, _, same other, rfl⟩

theorem current_ne_endOfInput (inFront : stream.InFrontOf (ending.behind common)) (marked : ending ≠ []) :
    stream.current ≠ .endOfInput := by
  intro atEnd
  have place := inFront.standing.eq_nil_of_endOfInput atEnd
  rw [inFront.place] at place
  cases common with
  | cons => cases place
  | nil =>
    cases ending with
    | nil => exact marked rfl
    | cons => cases place

/-- A text begins with the spelling of a token, and the token is read from it
whatever the ending. -/
structure Opens (common : List Char) (token : Token) (rest : List Char) : Prop where
  split : ∃ word, Spelled word token ∧ common = word ++ rest
  reads : ∀ other : Ending, readToken (other.behind common) = (.ok token, rest ++ other.text)

theorem exists_opens (inFront : stream.InFrontOf (ending.behind common)) (nonempty : common ≠ []) :
    ∃ rest, Opens common stream.current rest := by
  have visible := inFront.standing.visible
  have reads := inFront.standing.reads
  rw [inFront.place] at visible reads
  obtain ⟨word, rest, spelled, split, -, same⟩ := exists_word_of_readToken nonempty visible reads
  exact ⟨rest, ⟨word, spelled, split⟩, same⟩

section Opens

variable {token : Token} {rest : List Char} (opens : Opens common token rest)
  (inFront : stream.InFrontOf (ending.behind common))

include opens inFront

theorem Opens.current : stream.current = token := by
  have reads := inFront.standing.reads
  rw [inFront.place, opens.reads ending] at reads
  exact (Except.ok.inj (Prod.mk.inj reads).1).symm

theorem Opens.behind : stream.next.rest = rest ++ ending.text := by
  have reads := inFront.standing.reads
  rw [inFront.place, opens.reads ending] at reads
  exact (Prod.mk.inj reads).2.symm

end Opens

/-- Reading from a place of the text without findings comes to the same place
with every ending. -/
theorem exists_readFrom {findings : List Finding} (place : cursor.rest = common ++ ending.text)
    (clean : (Stream.readFrom cursor findings).findings = findings) :
    ∃ seen, skipGap .blanks common = .ok seen ∧
      (Stream.readFrom cursor findings).InFrontOf (ending.behind seen) ∧
      ∀ other : Ending, ∀ twinCursor : Cursor, twinCursor.rest = common ++ other.text →
        ∀ twinFindings, (Stream.readFrom twinCursor twinFindings).InFrontOf (other.behind seen) ∧
          (Stream.readFrom twinCursor twinFindings).findings = twinFindings := by
  obtain ⟨rest, token, left, gap, read⟩ := Stream.exists_readToken_of_findings clean
  have split := gap
  rw [place] at split
  obtain ⟨seen, skipped, rfl, gaps⟩ := exists_behind_of_skipGap split
  refine ⟨seen, skipped, (Stream.inFrontOf_readFrom gap read findings).1, ?_⟩
  intro other twinCursor twinPlace twinFindings
  obtain ⟨otherToken, otherLeft, twinRead, -⟩ :=
    exists_readToken_behind (skipGap_of_skipGap gap) read other
  have twinGap := gaps other
  rw [← twinPlace] at twinGap
  exact Stream.inFrontOf_readFrom twinGap twinRead twinFindings

theorem readFrom_marks (place : cursor.rest = ending.marks) (findings : List Finding) :
    (Stream.readFrom cursor findings).InFrontOf ending.marks ∧
      (Stream.readFrom cursor findings).findings = findings := by
  have gap := ending.skipGap_marks
  nth_rewrite 1 [← place] at gap
  exact Stream.inFrontOf_readFrom gap ending.readToken_marks findings

/-- Every stream steps over the same token of the text. -/
theorem Opens.exists_advance (opens : Opens common token rest)
    (inFront : stream.InFrontOf (ending.behind common))
    (clean : stream.advance.findings = stream.findings) :
    ∃ seen, skipGap .blanks rest = .ok seen ∧ stream.advance.InFrontOf (ending.behind seen) ∧
      ∀ other : Ending, ∀ twin : Stream, twin.InFrontOf (other.behind common) →
        twin.advance.InFrontOf (other.behind seen) ∧ twin.advance.findings = twin.findings := by
  obtain ⟨seen, skipped, next, twinNext⟩ := exists_readFrom (opens.behind inFront) clean
  refine ⟨seen, skipped, next, ?_⟩
  intro other twin twinInFront
  exact twinNext other twin.next (opens.behind twinInFront) twin.findings

theorem Opens.shorter {seen : List Char} (opens : Opens common token rest)
    (skipped : skipGap .blanks rest = .ok seen) :
    seen <:+ common ∧ seen.length < common.length := by
  have suffix := isSuffix_of_skipGap skipped
  obtain ⟨word, spelled, rfl⟩ := opens.split
  constructor
  · exact suffix.trans (List.suffix_append _ _)
  · have longer := List.length_pos_iff.mpr spelled.ne_nil
    have shorter := suffix.length_le
    rw [List.length_append]
    omega

/-- Scanning from a place of the text comes to a token with every ending or with
none, the same one unless there is only a gap in front of the ending. -/
theorem exists_scan (place : cursor.rest = common ++ ending.text)
    (scanned : cursor.scan.outcome = .ok token) :
    ∃ seen, skipGap .blanks common = .ok seen ∧
      ∀ other : Ending, ∀ twinCursor : Cursor, twinCursor.rest = common ++ other.text →
        twinCursor.scan.outcome = .ok (if seen = [] then other.token else token) := by
  have isScan := cursor.scanned_scan
  generalize cursor.scan = scan at isScan scanned
  cases isScan with
  | unexpected | openText | openComment => cases scanned
  | token gap read =>
    cases scanned
    have split := gap
    rw [place] at split
    obtain ⟨seen, skipped, rfl, gaps⟩ := exists_behind_of_skipGap split
    refine ⟨seen, skipped, fun other twinCursor twinPlace => ?_⟩
    obtain ⟨otherToken, otherLeft, twinRead, rfl⟩ :=
      exists_readToken_behind (skipGap_of_skipGap gap) read other
    have twinGap := gaps other
    rw [← twinPlace] at twinGap
    rw [Cursor.scan_of_readToken twinGap twinRead]

/-- A gap in a text ends at the same place in front of every ending. -/
theorem skipGap_of_gap {seen : List Char} (gap : skipGap .blanks rest = .ok seen) (ending : Ending) :
    skipGap .blanks (rest ++ ending.text) = .ok (ending.behind seen) := by
  have skipped := ending.skipped_skipGap .blanks rest
  rw [gap] at skipped
  generalize skipGap .blanks (rest ++ ending.text) = outcome at skipped ⊢
  cases skipped
  rfl

/-- Looking ahead over a gap in front of an ending shows the ending. -/
theorem following_of_gap (gap : skipGap .blanks rest = .ok [])
    (place : stream.next.rest = rest ++ ending.text) : stream.following = ending.token := by
  have skipped := skipGap_of_gap gap ending
  rw [← place] at skipped
  rw [Stream.following, Cursor.scan_of_readToken skipped ending.readToken_marks]

theorem advance_of_gap (gap : skipGap .blanks rest = .ok [])
    (place : stream.next.rest = rest ++ ending.text) :
    stream.advance.InFrontOf ending.marks ∧ stream.advance.findings = stream.findings := by
  have skipped := skipGap_of_gap gap ending
  rw [← place] at skipped
  exact Stream.inFrontOf_readFrom skipped ending.readToken_marks stream.findings

/-- Otherwise looking ahead shows the same token with every ending. -/
theorem following_eq (noGap : skipGap .blanks rest ≠ .ok [])
    (place : stream.next.rest = rest ++ ending.text) {other : Ending} {twin : Stream}
    (twinPlace : twin.next.rest = rest ++ other.text) : twin.following = stream.following := by
  have same {first second : Ending} {cursor twinCursor : Cursor} {token : Token}
      (place : cursor.rest = rest ++ first.text) (twinPlace : twinCursor.rest = rest ++ second.text)
      (scanned : cursor.scan.outcome = .ok token) : twinCursor.scan.outcome = .ok token := by
    obtain ⟨seen, skipped, twinScanned⟩ := exists_scan place scanned
    have inside : seen ≠ [] := by
      rintro rfl
      exact noGap skipped
    rw [twinScanned second twinCursor twinPlace, if_neg inside]
  rw [Stream.following, Stream.following]
  cases scanned : stream.next.scan.outcome with
  | ok token => rw [same place twinPlace scanned]
  | error error =>
    cases twinScanned : twin.next.scan.outcome with
    | error error => rfl
    | ok token =>
      rw [same twinPlace place twinScanned] at scanned
      cases scanned

end Ending

/-! ## Unquoted arguments -/

theorem Text.trimChars_append_lineFeed (text : List Char) :
    trimChars (text ++ ['\n']) = trimChars text := by
  rw [trimChars, trimChars, trimStart, trimStart, List.dropWhile_append]
  split
  · rename_i allBlank
    rw [List.isEmpty_iff.mp allBlank]
    rfl
  · rw [trimEnd, trimEnd, List.reverse_append]
    rfl

namespace Ending

/-- The unquoted argument that runs over the ending of a text. -/
def overrun (ending : Ending) (common : List Char) : String :=
  String.ofList (Text.trimChars (spanRaw 0 false (common ++ ending.text)).1)

theorem head?_text (ending : Ending) : ∀ character ∈ ending.text.head?, character = '\n' := by
  intro character isHead
  cases ending with
  | nil => cases isHead
  | cons mark others =>
    cases isHead
    rfl

/-- Where nothing is open, only the line feed of an ending belongs to an
unquoted argument. -/
theorem exists_spanRaw_text (ending : Ending) :
    ∃ line, spanRaw 0 false ending.text = (line, ending.marks) ∧
      ∀ text, Text.trimChars (text ++ line) = Text.trimChars text := by
  cases ending with
  | nil => exact ⟨[], rfl, fun text => by rw [List.append_nil]⟩
  | cons mark others =>
    refine ⟨['\n'], ?_, Text.trimChars_append_lineFeed⟩
    rw [text, spanRaw_unquoted]
    change ('\n' :: (spanRaw 0 false (marks (mark :: others))).1,
      (spanRaw 0 false (marks (mark :: others))).2) = _
    rw [marks, List.map_cons, spanRaw_unquoted, mark.endsRaw_character]
    rfl

/-- Where a parenthesis or a quote is open, the first mark of an ending belongs
to an unquoted argument. -/
theorem spanRaw_text_isSuffix (ending : Ending) {depth : Nat} {quoted : Bool}
    (isOpen : (depth, quoted) ≠ (0, false)) :
    (spanRaw depth quoted ending.text).2 <:+ marks ending.tail := by
  have remainder (depth : Nat) (quoted : Bool) (text : List Char) :
      (spanRaw depth quoted text).2 <:+ text :=
    ⟨_, spanRaw_append depth quoted text⟩
  cases ending with
  | nil => exact remainder depth quoted []
  | cons mark others =>
    cases quoted with
    | true =>
      rw [text, marks, List.map_cons, spanRaw_quoted (by rintro _ _ ⟨⟩)]
      change (spanRaw depth true _).2 <:+ _
      rw [spanRaw_quoted]
      · exact remainder _ _ _
      · intro _ _ isBackslash
        cases mark <;> cases isBackslash
    | false =>
      have nested : depth ≠ 0 := fun atZero => isOpen (congrArg (·, false) atZero)
      have goesOn (character : Char) : ¬(depth == 0 && endsRaw character) = true := by
        simp [nested]
      rw [text, marks, List.map_cons, spanRaw_unquoted, if_neg (goesOn _)]
      change (spanRaw depth false _).2 <:+ _
      rw [spanRaw_unquoted, if_neg (goesOn _)]
      exact remainder _ _ _

theorem past_readFrom {ending : Ending} (behind : cursor.rest <:+ marks ending.tail)
    (findings : List Finding) : ending.Past (.readFrom cursor findings) := by
  have place := List.suffix_iff_eq_drop.mp behind
  generalize (marks ending.tail).length - cursor.rest.length = count at place
  rw [marks, ← List.map_drop] at place
  have gap := skipGap_marks (ending.tail.drop count)
  nth_rewrite 1 [marks, ← place] at gap
  exact ⟨_, List.drop_suffix count _,
    (Stream.inFrontOf_readFrom gap (readToken_marks _) findings).1⟩

/-- Every stream reads the same unquoted argument and comes to the same place of
the text. -/
structure TakesAlike (ending : Ending) (common seen : List Char) (stream : Stream) : Prop where
  suffix : seen <:+ common
  here : stream.takeRaw.2.InFrontOf (ending.behind seen)
  there : ∀ other : Ending, ∀ twin : Stream, twin.InFrontOf (other.behind common) →
    twin.takeRaw.1 = stream.takeRaw.1 ∧ twin.takeRaw.2.InFrontOf (other.behind seen) ∧
      twin.takeRaw.2.findings = twin.findings

section Unquoted

variable {ending : Ending} {common : List Char} {stream : Stream}

/-- In front of the ending the argument is empty. -/
theorem takesAlike_nil (inFront : stream.InFrontOf (ending.behind [])) :
    TakesAlike ending [] [] stream := by
  obtain ⟨argument, next, -⟩ := Stream.InFrontOf.takeRaw_marks inFront
  refine ⟨List.suffix_refl _, next, fun other twin twinInFront => ?_⟩
  rw [argument]
  exact Stream.InFrontOf.takeRaw_marks twinInFront

variable (nonempty : common ≠ [])

include nonempty

theorem rest_of_inFrontOf (inFront : stream.InFrontOf (ending.behind common)) :
    stream.start.rest = common ++ ending.text := by
  rw [inFront.place, behind_of_ne_nil _ nonempty]

/-- An argument that ends inside the text ends there in front of every ending. -/
theorem exists_takesAlike_of_inside (inFront : stream.InFrontOf (ending.behind common))
    (clean : stream.takeRaw.2.findings = stream.findings)
    (inside : leftOpen 0 false common = none) : ∃ seen, TakesAlike ending common seen stream := by
  obtain ⟨argument, character, more, spanned⟩ := exists_spanRaw_of_leftOpen inside
  obtain ⟨-, split, same⟩ := spanRaw_of_cons spanned
  have taken (other : Ending) (twin : Stream)
      (twinInFront : twin.InFrontOf (other.behind common)) :
      twin.takeRaw = (String.ofList (Text.trimChars argument),
        .readFrom (twin.start.upTo (character :: more ++ other.text)) twin.findings) := by
    apply Stream.takeRaw_eq
    rw [rest_of_inFrontOf nonempty twinInFront, split, List.append_assoc, List.cons_append, same]
  rw [taken ending stream inFront] at clean
  obtain ⟨seen, skipped, next, twinNext⟩ := exists_readFrom (Cursor.upTo_rest _ _) clean
  have suffix : seen <:+ common := by
    rw [split]
    exact (isSuffix_of_skipGap skipped).trans (List.suffix_append _ _)
  refine ⟨seen, suffix, ?_, fun other twin twinInFront => ?_⟩
  · rw [taken ending stream inFront]
    exact next
  · rw [taken ending stream inFront, taken other twin twinInFront]
    exact ⟨rfl, twinNext other _ rfl _⟩

theorem spanRaw_of_inFrontOf {depth : Nat} {quoted : Bool}
    (left : leftOpen 0 false common = some (depth, quoted))
    (inFront : stream.InFrontOf (ending.behind common)) :
    spanRaw 0 false stream.start.rest =
      (common ++ (spanRaw depth quoted ending.text).1, (spanRaw depth quoted ending.text).2) := by
  rw [rest_of_inFrontOf nonempty inFront]
  exact spanRaw_of_leftOpen left ending.head?_text

/-- An argument in which everything is closed reaches up to every ending. -/
theorem takesAlike_of_closed (inFront : stream.InFrontOf (ending.behind common))
    (left : leftOpen 0 false common = some (0, false)) : TakesAlike ending common [] stream := by
  have taken (other : Ending) (twin : Stream)
      (twinInFront : twin.InFrontOf (other.behind common)) :
      twin.takeRaw = (String.ofList (Text.trimChars common),
        .readFrom (twin.start.upTo other.marks) twin.findings) := by
    obtain ⟨line, spannedLine, trimmed⟩ := other.exists_spanRaw_text
    rw [Stream.takeRaw_eq (spanRaw_of_inFrontOf nonempty left twinInFront), spannedLine, trimmed]
  refine ⟨List.nil_suffix, ?_, fun other twin twinInFront => ?_⟩
  · rw [taken ending stream inFront]
    exact (readFrom_marks (Cursor.upTo_rest stream.start ending.marks) stream.findings).1
  · rw [taken ending stream inFront, taken other twin twinInFront]
    exact ⟨rfl, readFrom_marks (Cursor.upTo_rest _ _) _⟩

end Unquoted

/-- Every stream reads the same unquoted argument, unless the argument leaves a
parenthesis or a quote open and runs over the ending. -/
theorem exists_takeRaw {ending : Ending} {common : List Char} {stream : Stream}
    (inFront : stream.InFrontOf (ending.behind common))
    (clean : stream.takeRaw.2.findings = stream.findings) :
    (∃ seen, TakesAlike ending common seen stream) ∨
    LeavesOpen common ∧ stream.takeRaw.1 = ending.overrun common ∧
      ending.Past stream.takeRaw.2 := by
  by_cases nonempty : common = []
  · subst nonempty
    exact Or.inl ⟨[], takesAlike_nil inFront⟩
  · cases left : leftOpen 0 false common with
    | none => exact Or.inl (exists_takesAlike_of_inside nonempty inFront clean left)
    | some state =>
      obtain ⟨depth, quoted⟩ := state
      by_cases closed : (depth, quoted) = (0, false)
      · cases closed
        exact Or.inl ⟨[], takesAlike_of_closed nonempty inFront left⟩
      · refine Or.inr ⟨⟨_, left, closed⟩, ?_, ?_⟩
        · rw [overrun, ← rest_of_inFrontOf nonempty inFront]
          rfl
        · rw [Stream.takeRaw_eq (spanRaw_of_inFrontOf nonempty left inFront)]
          exact past_readFrom (ending.spanRaw_text_isSuffix closed) _

end Ending

end EventScript
