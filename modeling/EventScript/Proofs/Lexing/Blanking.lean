import EventScript.Proofs.Lexing.Standing

/-!
# Texts with their faults blanked

Reading goes on behind a fault as if a blank stood there.  `Blanked` relates a
text to one in which some faults are replaced by blanks, and what is read from
the one text is read from the other, without findings.
-/

namespace EventScript

variable {character : Char} {text mended : List Char} {token : Token} {stream : Stream}

/-- A text in which faults are replaced by blanks: characters that begin no
token, and a quoted text or a comment that is never closed, with all that
follows. -/
inductive Blanked : List Char → List Char → Prop
  | nil : Blanked [] []
  | keep (character : Char) {text blanked : List Char} (rest : Blanked text blanked) :
      Blanked (character :: text) (character :: blanked)
  | unexpected {character : Char} {text blanked : List Char}
      (fault : (readToken (character :: text)).1 = .error (.unexpectedCharacter character))
      (rest : Blanked text blanked) : Blanked (character :: text) (' ' :: blanked)
  | openText {text : List Char} (fault : (readToken text).1 = .error (.unterminated .text)) :
      Blanked text (List.replicate text.length ' ')
  | openComment {text : List Char} (fault : skipGap .blanks text = .error text) :
      Blanked text (List.replicate text.length ' ')

/-- A letter begins a word. -/
theorem reads_of_isAlpha (letter : character.isAlpha = true) (text : List Char) :
    skipGap .blanks (character :: text) = .ok (character :: text) ∧
      ∃ token left, readToken (character :: text) = (.ok token, left) := by
  have start : isNameStart character = true := (isNameStart_iff character).mpr (Or.inl letter)
  have ended : Stops isNameChar ((character :: text).dropWhile isNameChar) := by
    intro next isNext
    have stopped := List.head?_dropWhile_not isNameChar (character :: text)
    rw [Option.mem_def] at isNext
    rwa [isNext] at stopped
  have begun := begins_word (isWord_takeWhile start text) ended
  have visible := begun.visible
  have reads := begun.reads
  rw [List.takeWhile_append_dropWhile] at visible reads
  exact ⟨visible, _, _, reads⟩

namespace Blanked

variable {blanked : List Char}

theorem refl (text : List Char) : Blanked text text := by
  induction text with
  | nil => exact .nil
  | cons character text ih => exact .keep character ih

theorem append (front : List Char) (rest : Blanked text blanked) :
    Blanked (front ++ text) (front ++ blanked) := by
  induction front with
  | nil => exact rest
  | cons character front ih => exact .keep character ih

/-- Blanking keeps every place in a text. -/
theorem length_eq (blanks : Blanked text blanked) : blanked.length = text.length := by
  induction blanks with
  | nil => rfl
  | keep character rest ih => simp [ih]
  | unexpected fault rest ih => simp [ih]
  | openText fault => simp
  | openComment fault => simp

theorem eq_nil (blanks : Blanked [] blanked) : blanked = [] :=
  List.length_eq_zero_iff.mp blanks.length_eq

/-- A text that begins with a token keeps its first character. -/
theorem exists_cons {left : List Char} (blanks : Blanked (character :: text) blanked)
    (visible : skipGap .blanks (character :: text) = .ok (character :: text))
    (read : readToken (character :: text) = (.ok token, left)) :
    ∃ others, blanked = character :: others ∧ Blanked text others := by
  generalize whole : character :: text = source at blanks visible read
  cases blanks with
  | nil => cases whole
  | keep first rest =>
    cases whole
    exact ⟨_, rfl, rest⟩
  | unexpected fault rest | openText fault =>
    rw [read] at fault
    cases fault
  | openComment fault =>
    rw [visible] at fault
    cases fault

/-- A letter begins a word, so it is never blanked. -/
theorem startsWithLetter_eq (blanks : Blanked text blanked) :
    startsWithLetter blanked = startsWithLetter text := by
  have ofLetter (letter : startsWithLetter text = true) : startsWithLetter blanked = true := by
    cases text with
    | nil => cases letter
    | cons character text =>
      obtain ⟨visible, token, left, read⟩ := reads_of_isAlpha letter text
      obtain ⟨others, rfl, -⟩ := blanks.exists_cons visible read
      exact letter
  cases blanks with
  | nil => rfl
  | keep => rfl
  | unexpected =>
    rw [Bool.eq_iff_iff]
    exact ⟨nofun, ofLetter⟩
  | openText | openComment =>
    rw [Bool.eq_iff_iff]
    refine ⟨fun isLetter => ?_, ofLetter⟩
    cases text <;> cases isLetter

/-- A text ends a token in the same way when its faults are blanked. -/
theorem endsLike (blanks : Blanked text blanked) : EndsLike text blanked := by
  cases blanks with
  | nil => exact .done
  | keep character rest => exact .same rfl fun _ => rest.startsWithLetter_eq
  | unexpected fault rest => exact .blank (by decide) _
  | openText fault | openComment fault =>
    cases text with
    | nil => exact .done
    | cons => exact .blank (by decide) _

end Blanked

theorem skipGap_replicate (count : Nat) : skipGap .blanks (List.replicate count ' ') = .ok [] := by
  induction count with
  | zero => rfl
  | succ count ih =>
    rw [List.replicate_succ, skipGap_cons_of_isBlank (by decide), ih]

/-! ## Reading on -/

/-- A text with blanked faults that begins with a given token. -/
structure Mends (token : Token) (text mended : List Char) : Prop where
  blanked : Blanked text mended
  visible : skipGap .blanks mended = .ok mended
  reads : (readToken mended).1 = .ok token

namespace Stream

/-- The text between a place and the token that reading comes to can be blanked
so that no fault is in between. -/
theorem exists_blanked_seek {bound : Nat} {cursor : Cursor} {findings : List Finding}
    (enough : cursor.rest.length < bound)
    (mends : Mends (seek bound cursor findings).current (seek bound cursor findings).start.rest
      mended) : ∃ blanked, Blanked cursor.rest blanked ∧ skipGap .blanks blanked = .ok mended := by
  induction bound generalizing cursor findings with
  | zero => cases enough
  | succ bound ih =>
    have scanned := cursor.scanned_scan
    have shorter (error : ScriptError) := @Cursor.length_next_lt _ _ scanned error
    rw [seek] at mends
    generalize cursor.scan = scan at scanned shorter mends
    have onward (error : ScriptError) (isError : scan.outcome = .error error)
        (mends : Mends (seek bound scan.next (findings ++ [error.finding])).current
          (seek bound scan.next (findings ++ [error.finding])).start.rest mended) :=
      ih (Nat.lt_of_lt_of_le (shorter error isError) (Nat.le_of_lt_succ enough))
        mends
    have nothingLeft (error : ScriptError) (isError : scan.outcome = .error error)
        (behind : scan.next.rest = [])
        (mends : Mends (seek bound scan.next (findings ++ [error.finding])).current
          (seek bound scan.next (findings ++ [error.finding])).start.rest mended) :
        mended = [] := by
      obtain ⟨blanked, blanks, skipped⟩ := onward error isError mends
      rw [behind] at blanks
      rw [blanks.eq_nil] at skipped
      cases skipped
      rfl
    cases scanned with
    | @token rest left token gap read =>
      change Mends token rest mended at mends
      by_cases atEnd : rest = []
      · subst atEnd
        rw [mends.blanked.eq_nil]
        exact ⟨cursor.rest, .refl _, gap⟩
      · obtain ⟨front, split, isGap⟩ := exists_isGap gap atEnd
        rw [split]
        exact ⟨front ++ mended, mends.blanked.append front,
          (isGap _ .blanks mended).trans mends.visible⟩
    | @unexpected left character error start next gap read behind =>
      obtain ⟨blanked, blanks, skipped⟩ := onward error rfl mends
      obtain ⟨front, split, isGap⟩ := exists_isGap gap (List.cons_ne_nil _ _)
      change Blanked next.rest blanked at blanks
      rw [behind] at blanks
      have fault := congrArg Prod.fst read
      rw [split]
      refine ⟨front ++ ' ' :: blanked, (Blanked.unexpected fault blanks).append front, ?_⟩
      rw [isGap _ .blanks, skipGap_cons_of_isBlank (by decide)]
      exact skipped
    | @openText rest error start next gap read nonempty behind =>
      obtain ⟨front, split, isGap⟩ := exists_isGap gap nonempty
      have fault := congrArg Prod.fst read
      rw [split, nothingLeft error rfl behind mends]
      refine ⟨_, (Blanked.openText fault).append front, ?_⟩
      rw [isGap _ .blanks, skipGap_replicate]
    | @openComment opening error start next gap behind =>
      obtain ⟨front, _, split, isGap, -, fault⟩ := exists_isGap_of_error gap
      rw [split, nothingLeft error rfl behind mends]
      refine ⟨_, (Blanked.openComment fault).append front, ?_⟩
      rw [isGap _ .blanks, skipGap_replicate]

theorem exists_blanked_readFrom {cursor : Cursor} {findings : List Finding}
    (mends : Mends (readFrom cursor findings).current (readFrom cursor findings).start.rest
      mended) : ∃ blanked, Blanked cursor.rest blanked ∧ skipGap .blanks blanked = .ok mended :=
  exists_blanked_seek (Nat.lt_succ_self _) mends

theorem InFrontOf.current_eq (inFront : stream.InFrontOf mended) (mends : Mends token text mended) :
    stream.current = token := by
  have reads := inFront.standing.reads
  rw [inFront.place] at reads
  have same := mends.reads
  rw [reads] at same
  exact Except.ok.inj same

theorem inFrontOf_readFrom_of_mends {cursor : Cursor} {token : Token} {text mended : List Char}
    (gap : skipGap .blanks cursor.rest = .ok mended) (mends : Mends token text mended)
    (findings : List Finding) :
    (readFrom cursor findings).InFrontOf mended ∧
      (readFrom cursor findings).findings = findings :=
  inFrontOf_readFrom gap (Prod.ext mends.reads rfl) findings

/-- Stepping can be repeated on a text without faults up to the next token. -/
theorem Standing.exists_mends_advance (standing : stream.Standing)
    (mends : Mends stream.advance.current stream.advance.start.rest mended) :
    ∃ front, Mends stream.current stream.start.rest front ∧
      ∀ other : Stream, other.InFrontOf front →
        other.advance.InFrontOf mended ∧ other.advance.findings = other.findings := by
  obtain ⟨blanked, blanks, skipped⟩ := exists_blanked_readFrom mends
  have ⟨front, mendsFront, behind⟩ : ∃ front, Mends stream.current stream.start.rest front ∧
      (readToken front).2 = blanked := by
    rcases standing.cases with ⟨place, isEnd, nextPlace⟩ | ⟨word, place, begun⟩
    · change Blanked stream.next.rest blanked at blanks
      rw [nextPlace] at blanks
      rw [place, isEnd, blanks.eq_nil]
      exact ⟨[], ⟨.nil, rfl, rfl⟩, rfl⟩
    · have begins := begun.of_endsLike blanks.endsLike
      rw [place]
      exact ⟨word ++ blanked,
        ⟨blanks.append word, begins.visible, congrArg Prod.fst begins.reads⟩,
        congrArg Prod.snd begins.reads⟩
  refine ⟨front, mendsFront, fun other inFront => ?_⟩
  refine inFrontOf_readFrom_of_mends ?_ mends other.findings
  have reads := inFront.standing.reads
  rw [inFront.place] at reads
  rw [reads] at behind
  rwa [← behind] at skipped

end Stream

/-! ## Unquoted arguments -/

/-- Behind the first character of a token that is no quoted text nothing ends an
unquoted argument. -/
theorem not_endsRaw_of_spelled {word others : List Char} {first : Char}
    (spelled : Spelled word token) (noText : token.isText = false) (longer : word = first :: others) :
    ∀ character ∈ others, endsRaw character = false := by
  intro character member
  have ofNameChar (named : isNameChar character = true) : endsRaw character = false := by
    rw [Bool.eq_false_iff, endsRaw]
    intro ends
    rw [Bool.or_eq_true, Bool.or_eq_true, Bool.or_eq_true, beq_iff_eq, beq_iff_eq,
      beq_iff_eq, beq_iff_eq] at ends
    rcases ends with ((rfl | rfl) | rfl) | rfl
    all_goals exact absurd named (by decide)
  cases spelled with
  | number numeral =>
    subst longer
    rcases isDigit_or_point_of_spanNumber numeral.2 character (List.mem_cons_of_mem _ member)
      with digit | rfl
    · exact ofNameChar ((isNameChar_iff character).mpr (Or.inr digit))
    · rfl
  | word isWord =>
    subst longer
    exact ofNameChar (isNameChar_of_mem_word isWord (List.mem_cons_of_mem _ member))
  | quoted => cases noText
  | single =>
    cases longer
    cases member
  | pair pair =>
    cases longer
    rw [List.mem_singleton] at member
    subst member
    unfold Symbol.ofPair? at pair
    split at pair
    all_goals first | rfl | cases pair

namespace Stream

/-- The token in front of an unquoted argument is a part of it. -/
theorem Standing.exists_mends_argument (standing : stream.Standing)
    (noText : stream.current.isText = false) {argument more : List Char} (nonempty : argument ≠ [])
    (ends : endsRaw character = true) (place : stream.start.rest = argument ++ character :: more)
    (blanks : Blanked (character :: more) mended) :
    Mends stream.current stream.start.rest (argument ++ mended) := by
  rcases standing.cases with ⟨atEnd, -⟩ | ⟨word, split, begun⟩
  · rw [atEnd] at place
    cases argument <;> cases place
  · obtain ⟨inside, rfl, behind⟩ : ∃ inside, argument = word ++ inside ∧
        stream.next.rest = inside ++ character :: more := by
      rw [place, List.append_eq_append_iff] at split
      rcases split with ⟨rest, isWord, split⟩ | split
      · cases rest with
        | nil =>
          rw [List.append_nil] at isWord
          exact ⟨[], by rw [isWord, List.append_nil], split.symm⟩
        | cons next rest =>
          cases split
          cases argument with
          | nil => exact absurd rfl nonempty
          | cons first others =>
            have notEnd := not_endsRaw_of_spelled begun.spelled noText isWord character
              (List.mem_append_right _ List.mem_cons_self)
            rw [ends] at notEnd
            cases notEnd
      · exact split
    have blanksBehind := blanks.append inside
    rw [behind] at begun
    have begins := begun.of_endsLike blanksBehind.endsLike
    rw [place, List.append_assoc, List.append_assoc]
    exact ⟨blanksBehind.append word, begins.visible, congrArg Prod.fst begins.reads⟩

/-- Reading an unquoted argument from a token that is no quoted text can be
repeated on a text without faults up to the next token. -/
theorem Standing.exists_mends_takeRaw (standing : stream.Standing)
    (noText : stream.current.isText = false)
    (mends : Mends stream.takeRaw.2.current stream.takeRaw.2.start.rest mended) :
    ∃ front, Mends stream.current stream.start.rest front ∧
      ∀ other : Stream, other.InFrontOf front →
        other.takeRaw.1 = stream.takeRaw.1 ∧ other.takeRaw.2.InFrontOf mended ∧
          other.takeRaw.2.findings = other.findings := by
  cases spanned : spanRaw 0 false stream.start.rest with
  | mk argument left =>
    rw [takeRaw_eq spanned] at mends ⊢
    have ⟨front, mendsFront, spannedFront⟩ : ∃ front,
        Mends stream.current stream.start.rest front ∧
          spanRaw 0 false front = (argument, mended) := by
      cases left with
      | nil =>
        rw [readFrom_of_end rfl] at mends
        rw [mends.blanked.eq_nil]
        exact ⟨stream.start.rest,
          ⟨.refl _, standing.visible, congrArg Prod.fst standing.reads⟩, spanned⟩
      | cons character more =>
        obtain ⟨ends, place, sameSpan⟩ := spanRaw_of_cons spanned
        obtain ⟨mark, begins⟩ := begins_of_endsRaw ends
        rw [readFrom_of_readToken (begins more).visible (begins more).reads] at mends
        change Mends (.symbol mark) (character :: more) mended at mends
        obtain ⟨others, rfl, -⟩ :=
          mends.blanked.exists_cons (begins more).visible (begins more).reads
        refine ⟨argument ++ character :: others, ?_, sameSpan others⟩
        by_cases nonempty : argument = []
        · subst nonempty
          have reads := standing.reads
          rw [place] at reads
          have isMark := congrArg Prod.fst (reads.symm.trans (begins more).reads)
          rw [place, Except.ok.inj isMark]
          exact mends
        · exact standing.exists_mends_argument noText nonempty ends place mends.blanked
    refine ⟨front, mendsFront, fun other inFront => ?_⟩
    rw [← inFront.place] at spannedFront
    rw [takeRaw_eq spannedFront]
    exact ⟨rfl, inFrontOf_readFrom_of_mends mends.visible mends other.findings⟩

end Stream

end EventScript
