import EventScript.Proofs.Lexing.Endings
import EventScript.Proofs.Lexing.Signs

/-!
# Texts that are followed by others

A text without comments reads the same in front of every other text that goes on
with none of its tokens.  This holds token by token, and also where the text of
a token is read again as an unquoted argument: such an argument ends in front of
a token, so what remains behind it still reads without errors.
-/

namespace EventScript

variable {text rest : List Char} {tokens : List Token} {character : Char}

/-! ## Texts without comments -/

/-- No comment begins anywhere in a text. -/
structure Uncommented (text : List Char) : Prop where
  noLine : ¬['/', '/'] <:+: text
  noMarks : ¬['/', '*'] <:+: text

namespace Uncommented

variable {text rest : List Char} (uncommented : Uncommented text)

include uncommented

theorem of_suffix (suffix : rest <:+ text) : Uncommented rest :=
  ⟨fun inside => uncommented.noLine (inside.trans suffix.isInfix),
    fun inside => uncommented.noMarks (inside.trans suffix.isInfix)⟩

theorem not_startsComment : ¬StartsComment text := by
  rintro ⟨rest, rfl | rfl⟩
  · exact uncommented.noLine ⟨[], rest, rfl⟩
  · exact uncommented.noMarks ⟨[], rest, rfl⟩

/-- Without comments, blanks make up a gap. -/
theorem exists_blanks (skipped : skipGap .blanks text = .ok rest) :
    ∃ gap, text = gap ++ rest ∧ ∀ character ∈ gap, Text.isBlank character = true := by
  induction text with
  | nil =>
    cases skipped
    exact ⟨[], rfl, List.forall_mem_nil _⟩
  | cons character others ih =>
    rw [skipGap_cons uncommented.not_startsComment] at skipped
    split at skipped
    · rename_i isBlank
      obtain ⟨gap, split, blank⟩ := ih (uncommented.of_suffix (List.suffix_cons _ _)) skipped
      exact ⟨character :: gap, by rw [split, List.cons_append],
        List.forall_mem_cons.mpr ⟨isBlank, blank⟩⟩
    · cases skipped
      exact ⟨[], rfl, List.forall_mem_nil _⟩

end Uncommented

theorem skipGap_blanks_append {gap : List Char}
    (blank : ∀ character ∈ gap, Text.isBlank character = true) (text : List Char) :
    skipGap .blanks (gap ++ text) = skipGap .blanks text := by
  induction gap with
  | nil => rfl
  | cons character others ih =>
    rw [List.forall_mem_cons] at blank
    rw [List.cons_append, skipGap_cons_of_isBlank blank.1, ih blank.2]

/-- A text that begins with a token, or is empty, and reads as tokens with nothing
but blanks between them. -/
inductive Worded : List Char → List Token → Prop
  | done : Worded [] []
  | word {word gap rest : List Char} {token : Token} {tokens : List Token}
      (begun : Begins word token (gap ++ rest))
      (blank : ∀ character ∈ gap, Text.isBlank character = true) (others : Worded rest tokens) :
      Worded (word ++ (gap ++ rest)) (token :: tokens)

/-- A text without comments that reads without errors is made of words behind some
blanks. -/
theorem Lexes.exists_worded (lexed : Lexes text tokens) (uncommented : Uncommented text) :
    ∃ gap rest, text = gap ++ rest ∧ (∀ character ∈ gap, Text.isBlank character = true) ∧
      Worded rest tokens := by
  induction lexed with
  | done gap =>
    obtain ⟨blanks, split, blank⟩ := uncommented.exists_blanks gap
    exact ⟨blanks, [], split, blank, .done⟩
  | step gap nonempty read others ih =>
    obtain ⟨blanks, rfl, blank⟩ := uncommented.exists_blanks gap
    obtain ⟨word, rfl, begun⟩ := exists_begins (skipGap_of_skipGap gap) nonempty read
    obtain ⟨later, rest, rfl, laterBlank, worded⟩ := ih (uncommented.of_suffix
      ((List.suffix_append _ _).trans (List.suffix_append _ _)))
    exact ⟨blanks, _, rfl, blank, .word begun laterBlank worded⟩

/-! ## What may follow a text -/

/-- A text that goes on with no token at the end of another one. -/
structure SetApart (text tail : List Char) : Prop where
  visible : skipGap .blanks tail = .ok tail
  opens : ∃ token left, readToken tail = (.ok token, left)
  noLetter : startsWithLetter tail = false
  last : ∀ {word : List Char} {token : Token}, word <:+ text → Begins word token [] →
    Begins word token tail

namespace SetApart

variable {text tail : List Char}

theorem nil (text : List Char) : SetApart text [] :=
  ⟨rfl, ⟨_, _, rfl⟩, rfl, fun _ begun => begun⟩

theorem of_suffix (apart : SetApart text tail) (suffix : rest <:+ text) : SetApart rest tail :=
  { apart with last := fun inside begun => apart.last (inside.trans suffix) begun }

/-- A closing parenthesis goes on with no token. -/
theorem closeParen (text others : List Char) : SetApart text (')' :: others) where
  visible := (ClosingMark.closeParen.begins others).visible
  opens := ⟨_, _, (ClosingMark.closeParen.begins others).reads⟩
  noLetter := rfl
  last _ begun := begun.of_separator rfl others

/-- A star goes on with no token but a slash. -/
theorem star {others : List Char} (noSlash : '/' ∉ text)
    (alone : ∀ second ∈ others.head?, Symbol.ofPair? '*' second = none) :
    SetApart text ('*' :: others) := by
  have begunStar : Begins ['*'] (.symbol .star) others := by
    refine begins_symbol rfl alone ?_ (not_startsComment (by decide) _)
    rintro ⟨⟩
  refine ⟨begunStar.visible, ⟨_, _, begunStar.reads⟩, rfl, fun {word token} inside begun => ?_⟩
  cases begun.spelled with
  | number numeral => exact begins_number numeral (by rw [stops_cons]; rfl)
  | word spelled => exact begins_word spelled (by rw [stops_cons]; rfl)
  | quoted closed => exact begins_quoted closed _
  | @single character mark single =>
    refine begins_symbol single ?_ (fun _ => rfl) ?_
    · rintro _ ⟨rfl⟩
      unfold Symbol.ofPair?
      split
      all_goals first | rfl | (rename_i isStar; exact absurd isStar (by decide))
    · rw [startsComment_cons_iff]
      rintro ⟨rfl, -⟩
      exact noSlash (inside.subset List.mem_cons_self)
  | pair pair => exact begins_pair pair _

/-- A token of the text reads the same with the other text behind it. -/
theorem begins (apart : SetApart text tail) {word : List Char} {token : Token}
    (inside : word ++ rest <:+ text) (begun : Begins word token rest) :
    Begins word token (rest ++ tail) := by
  cases rest with
  | nil =>
    rw [List.append_nil] at inside
    exact apart.last inside begun
  | cons character more =>
    refine begun.of_endsLike (.same rfl fun _ => ?_)
    cases more with
    | nil => exact apart.noLetter
    | cons => rfl

end SetApart

/-- The tokens of both texts, one after the other. -/
theorem Worded.lexes_append {tail : List Char} {others : List Token} (worded : Worded text tokens)
    (apart : SetApart text tail) (lexed : Lexes tail others) :
    Lexes (text ++ tail) (tokens ++ others) := by
  induction worded with
  | done => exact lexed
  | @word word gap rest token tokens begun blank _ ih =>
    have inside : rest <:+ word ++ (gap ++ rest) :=
      (List.suffix_append _ _).trans (List.suffix_append _ _)
    have later := (ih (apart.of_suffix inside)).blanks blank
    rw [← List.append_assoc] at later
    rw [List.append_assoc, List.cons_append]
    exact (apart.begins (List.suffix_refl _) begun).lexes later

/-! ## Unquoted arguments -/

/-- The characters that matter for where an unquoted argument ends. -/
def rawMarks : List Char :=
  [',', ';', ')', '}', '(', '"']

theorem eq_of_mem_rawMarks (isMark : character ∈ rawMarks) :
    character = ',' ∨ character = ';' ∨ character = ')' ∨ character = '}' ∨ character = '(' ∨
      character = '"' := by
  simpa [rawMarks] using isMark

theorem notMem_rawMarks_of_isNameChar (named : isNameChar character = true) :
    character ∉ rawMarks := by
  intro isMark
  rcases eq_of_mem_rawMarks isMark with rfl | rfl | rfl | rfl | rfl | rfl <;> cases named

theorem notMem_rawMarks_of_isBlank (isBlank : Text.isBlank character = true) :
    character ∉ rawMarks := by
  intro isMark
  rcases eq_of_mem_rawMarks isMark with rfl | rfl | rfl | rfl | rfl | rfl <;> cases isBlank

/-- An unquoted argument goes on over characters that do not matter. -/
theorem spanRaw_append_of_notMem {plain : List Char}
    (noMarks : ∀ character ∈ plain, character ∉ rawMarks) (depth : Nat) (text : List Char) :
    (spanRaw depth false (plain ++ text)).2 = (spanRaw depth false text).2 := by
  induction plain with
  | nil => rfl
  | cons character others ih =>
    rw [List.forall_mem_cons] at noMarks
    obtain ⟨noMark, noOthers⟩ := noMarks
    simp only [rawMarks, List.mem_cons, List.not_mem_nil, or_false, not_or] at noMark
    have goesOn : ¬(depth == 0 && endsRaw character) = true := by simp [endsRaw, noMark]
    have sameDepth : depthBehind depth character = depth := by simp [depthBehind, noMark]
    have notQuote : (character == '"') = false := by simp [noMark]
    rw [List.cons_append, spanRaw_unquoted, if_neg goesOn, sameDepth, notQuote, ← ih noOthers]

/-- An unquoted argument goes on behind a quoted text. -/
theorem spanRaw_of_readQuoted {value : List Char} (read : readQuoted text = some (value, rest))
    (depth : Nat) : (spanRaw depth true text).2 = (spanRaw depth false rest).2 := by
  fun_induction readQuoted text generalizing value with
  | case1 => cases read
  | case2 others =>
    cases read
    rw [spanRaw_quoted (by rintro _ _ ⟨⟩)]
    rfl
  | case3 escaped others ih =>
    obtain ⟨inner, readInner, rfl⟩ := exists_of_map_fst read
    rw [spanRaw_escape]
    exact ih readInner
  | case4 character others notQuote plain ih =>
    obtain ⟨inner, readInner, rfl⟩ := exists_of_map_fst read
    have staysQuoted : (character != '"') = true := by simpa using notQuote
    rw [spanRaw_quoted (by simpa using plain), staysQuoted]
    exact ih readInner

/-- An unquoted argument ends in front of a token or goes on behind it. -/
theorem Spelled.spanRaw_cases {word : List Char} {token : Token} (spelled : Spelled word token)
    (depth : Nat) :
    (∀ rest, spanRaw depth false (word ++ rest) = ([], word ++ rest)) ∨
      ∃ inner, ∀ rest, (spanRaw depth false (word ++ rest)).2 = (spanRaw inner false rest).2 := by
  cases spelled with
  | number numeral =>
    refine .inr ⟨depth, spanRaw_append_of_notMem (fun character member => ?_) depth⟩
    rcases isDigit_or_point_of_spanNumber numeral.2 character member with digit | rfl
    · exact notMem_rawMarks_of_isNameChar ((isNameChar_iff character).mpr (.inr digit))
    · decide
  | word spelled =>
    refine .inr ⟨depth, spanRaw_append_of_notMem (fun character member => ?_) depth⟩
    exact notMem_rawMarks_of_isNameChar (isNameChar_of_mem_word spelled member)
  | @quoted inner value closed =>
    refine .inr ⟨depth, fun rest => ?_⟩
    have goesOn : ¬(depth == 0 && endsRaw '"') = true := by simp [endsRaw]
    rw [List.append_assoc, List.cons_append, List.singleton_append, spanRaw_unquoted,
      if_neg goesOn]
    exact spanRaw_of_readQuoted (closed rest) depth
  | @single character mark single =>
    have notQuote : (character == '"') = false :=
      (not_other_of_ofChar? (by rw [single]; rfl)).2.2.1
    by_cases ends : (depth == 0 && endsRaw character) = true
    · exact .inl fun rest => by rw [List.singleton_append, spanRaw_unquoted, if_pos ends]
    · refine .inr ⟨depthBehind depth character, fun rest => ?_⟩
      rw [List.singleton_append, spanRaw_unquoted, if_neg ends, notQuote]
  | @pair first second mark pair =>
    have noMarks : first ∉ rawMarks ∧ second ∉ rawMarks := by
      unfold Symbol.ofPair? at pair
      split at pair
      all_goals first | decide | cases pair
    exact .inr ⟨depth, spanRaw_append_of_notMem (by simpa using noMarks) depth⟩

/-- What remains behind an unquoted argument begins with a token. -/
theorem Worded.exists_of_spanRaw (worded : Worded text tokens) (depth : Nat) :
    ∃ others, Worded (spanRaw depth false text).2 others := by
  induction worded generalizing depth with
  | done => exact ⟨[], .done⟩
  | @word word gap rest token tokens begun blank others ih =>
    rcases begun.spelled.spanRaw_cases depth with stops | ⟨inner, goesOn⟩
    · rw [stops]
      exact ⟨_, .word begun blank others⟩
    · rw [goesOn, spanRaw_append_of_notMem fun _ member =>
        notMem_rawMarks_of_isBlank (blank _ member)]
      exact ih inner

/-! ## Streams -/

namespace Worded

variable {text : List Char} {tokens : List Token}

/-- Reading from blanks in front of the text comes to the text, whatever follows
it. -/
theorem inFrontOf_readFrom (worded : Worded text tokens) {tail : List Char}
    (apart : SetApart text tail) {gap : List Char}
    (blank : ∀ character ∈ gap, Text.isBlank character = true) {cursor : Cursor}
    (place : cursor.rest = gap ++ (text ++ tail)) (findings : List Finding) :
    (Stream.readFrom cursor findings).InFrontOf (text ++ tail) ∧
      (Stream.readFrom cursor findings).findings = findings := by
  have skipped : skipGap .blanks cursor.rest = skipGap .blanks (text ++ tail) := by
    rw [place, skipGap_blanks_append blank]
  cases worded with
  | done =>
    obtain ⟨token, left, read⟩ := apart.opens
    exact Stream.inFrontOf_readFrom (skipped.trans apart.visible) read findings
  | word begun _ _ =>
    have begunHere := apart.begins (List.suffix_refl _) begun
    rw [List.append_assoc] at skipped ⊢
    exact Stream.inFrontOf_readFrom (skipped.trans begunHere.visible) begunHere.reads findings

/-- Streams in front of the text step over the same token, whatever follows the
text. -/
theorem exists_advance (worded : Worded text tokens) (nonempty : text ≠ []) :
    ∃ token rest others, Worded rest others ∧ rest <:+ text ∧
      ∀ tail, SetApart text tail → ∀ stream : Stream, stream.InFrontOf (text ++ tail) →
        stream.current = token ∧ stream.advance.InFrontOf (rest ++ tail) := by
  cases worded with
  | done => exact absurd rfl nonempty
  | @word word gap rest token tokens begun blank others =>
    have suffix : rest <:+ word ++ (gap ++ rest) :=
      (List.suffix_append _ _).trans (List.suffix_append _ _)
    refine ⟨token, rest, tokens, others, suffix, fun tail apart stream inFront => ?_⟩
    have reads := inFront.standing.reads
    have begunHere := apart.begins (List.suffix_refl _) begun
    rw [inFront.place, List.append_assoc, begunHere.reads] at reads
    obtain ⟨sameToken, sameRest⟩ := Prod.mk.inj reads
    rw [List.append_assoc] at sameRest
    exact ⟨(Except.ok.inj sameToken).symm,
      (others.inFrontOf_readFrom (apart.of_suffix suffix) blank sameRest.symm _).1⟩

/-- Streams in front of the text read the same unquoted argument, whatever follows
the text, if the argument ends in the text. -/
theorem exists_takeRaw (worded : Worded text tokens) {argument more : List Char}
    (spanned : spanRaw 0 false text = (argument, character :: more)) :
    ∃ others, Worded (character :: more) others ∧ character :: more <:+ text ∧
      ∀ tail, SetApart text tail → ∀ stream : Stream, stream.InFrontOf (text ++ tail) →
        stream.takeRaw.1 = String.ofList (Text.trimChars argument) ∧
          stream.takeRaw.2.InFrontOf (character :: more ++ tail) := by
  obtain ⟨others, later⟩ := worded.exists_of_spanRaw 0
  rw [spanned] at later
  obtain ⟨-, split, same⟩ := spanRaw_of_cons spanned
  have suffix : character :: more <:+ text := ⟨argument, split.symm⟩
  refine ⟨others, later, suffix, fun tail apart stream inFront => ?_⟩
  have spannedHere : spanRaw 0 false stream.start.rest =
      (argument, character :: more ++ tail) := by
    rw [inFront.place, split, List.append_assoc, List.cons_append, same]
  rw [Stream.takeRaw_eq spannedHere]
  refine ⟨rfl, ?_⟩
  exact (later.inFrontOf_readFrom (apart.of_suffix suffix) (List.forall_mem_nil _) rfl _).1

end Worded

end EventScript
