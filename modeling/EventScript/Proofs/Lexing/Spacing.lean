import EventScript.Proofs.Lexing.Walks

/-!
# Words and the gaps between them

Some tokens are decided by the characters behind them.  Nevertheless the text of
a token, cut out of a source, reads as that token wherever it is put, as long as
what follows is kept apart from it: by the end of the text, by a blank, or by a
comment, which a lone slash in front would change.  So the tokens of a source
depend on the texts of its tokens and not on the gaps between them.
-/

namespace EventScript

variable {text : List Char}

/-! ## Words that are kept apart -/

/-- What may follow a word without going on with it. -/
inductive Apart (word : List Char) : List Char → Prop
  | done : Apart word []
  | blank {character : Char} (isBlank : Text.isBlank character = true) (others : List Char) :
      Apart word (character :: others)
  | comment {text : List Char} (opens : StartsComment text) (notSlash : word ≠ ['/']) :
      Apart word text

theorem StartsComment.exists_cons (opens : StartsComment text) :
    ∃ others, text = '/' :: others := by
  obtain ⟨rest, rfl | rfl⟩ := opens
  · exact ⟨_, rfl⟩
  · exact ⟨_, rfl⟩

/-- No symbol goes on with a slash. -/
theorem ofPair?_slash (character : Char) : Symbol.ofPair? character '/' = none := by
  unfold Symbol.ofPair?
  split
  all_goals first | rfl | (rename_i isSlash; exact absurd isSlash (by decide))

/-- Only a slash goes on with a slash. -/
theorem Begins.of_slash {word rest others : List Char} {token : Token}
    (begun : Begins word token rest) (notSlash : word ≠ ['/']) :
    Begins word token ('/' :: others) := by
  cases begun.spelled with
  | number numeral => exact begins_number numeral (by rw [stops_cons]; decide)
  | word spelled => exact begins_word spelled (by rw [stops_cons]; decide)
  | quoted closed => exact begins_quoted closed _
  | @single character mark single =>
    apply begins_symbol single
    · rintro _ ⟨rfl⟩
      exact ofPair?_slash character
    · intro _
      rfl
    · rw [startsComment_cons_iff]
      rintro ⟨rfl, -⟩
      exact notSlash rfl
  | pair pair => exact begins_pair pair _

/-- A word reads as the same token in front of anything that is kept apart from
it. -/
theorem Begins.of_apart {word rest other : List Char} {token : Token}
    (begun : Begins word token rest) (apart : Apart word other) : Begins word token other := by
  cases apart with
  | done => exact begun.of_endsLike .done
  | blank isBlank others => exact begun.of_endsLike (.blank isBlank others)
  | comment opens notSlash =>
    obtain ⟨others, rfl⟩ := opens.exists_cons
    exact begun.of_slash notSlash

/-- Words in order, each kept apart from what follows it, with gaps between
them. -/
inductive Spaced : List (List Char) → List Char → Prop
  | done {text : List Char} (gap : skipGap .blanks text = .ok []) : Spaced [] text
  | word {gap word text : List Char} {words : List (List Char)} (isGap : IsGap gap)
      (apart : Apart word text) (others : Spaced words text) :
      Spaced (word :: words) (gap ++ (word ++ text))

/-- A gap in front of a text does not matter. -/
theorem Lexes.gap {gap : List Char} {tokens : List Token} (isGap : IsGap gap)
    (lexed : Lexes text tokens) : Lexes (gap ++ text) tokens := by
  have skipped := isGap _ .blanks text
  cases lexed with
  | done gap => exact .done (skipped.trans gap)
  | step gap nonempty read others => exact .step (skipped.trans gap) nonempty read others

/-! ## Ways to put words apart -/

theorem spaced_single (word : List Char) : Spaced [word] word := by
  have alone : Spaced [word] ([] ++ (word ++ [])) := .word Gap.passes_nil .done (.done rfl)
  rwa [List.nil_append, List.append_nil] at alone

theorem Spaced.gap {gap : List Char} {words : List (List Char)} (isGap : IsGap gap)
    (spaced : Spaced words text) : Spaced words (gap ++ text) := by
  cases spaced with
  | done skipped => exact .done ((isGap _ .blanks text).trans skipped)
  | @word inner word text words isInner apart others =>
    rw [← List.append_assoc]
    refine .word ?_ apart others
    rintro _ ⟨⟩ behind
    rw [List.append_assoc, isGap _ .blanks, isInner _ .blanks]

/-- Words joined by single blanks are kept apart. -/
theorem spaced_intercalate (words : List (List Char)) :
    Spaced words ([' '].intercalate words) := by
  induction words with
  | nil => exact .done rfl
  | cons word words ih =>
    cases words with
    | nil =>
      rw [List.intercalate_singleton]
      exact spaced_single word
    | cons second others =>
      have blank : IsGap [' '] := isGap_singleton (by decide)
      rw [List.intercalate_cons_cons, List.append_assoc, ← List.nil_append (word ++ _)]
      exact .word Gap.passes_nil (.blank (by decide) _) (ih.gap blank)

/-! ## The words of a source -/

/-- The text between the start of a token and where reading goes on. -/
def Scan.word (scan : Scan) : List Char :=
  scan.start.rest.take (scan.start.rest.length - scan.next.rest.length)

/-- A token was read, and its text is one that reads as this token. -/
def Scan.IsLexeme (scan : Scan) : Prop :=
  ∃ token rest, scan.outcome = .ok token ∧ Begins scan.word token rest

/-- The words of tokens, kept apart, read as these tokens. -/
theorem Spaced.exists_lexes {scans : List Scan} (spaced : Spaced (scans.map Scan.word) text)
    (cut : ∀ scan ∈ scans, scan.IsLexeme) :
    ∃ found, Lexes text found ∧ scans.map Scan.outcome = found.map .ok := by
  induction scans generalizing text with
  | nil =>
    cases spaced with
    | done gap => exact ⟨[], .done gap, rfl⟩
  | cons scan scans ih =>
    rw [List.forall_mem_cons] at cut
    obtain ⟨⟨token, rest, outcome, begun⟩, cutOthers⟩ := cut
    cases spaced with
    | word isGap apart others =>
      obtain ⟨found, lexed, same⟩ := ih others cutOthers
      refine ⟨token :: found, ((begun.of_apart apart).lexes lexed).gap isGap, ?_⟩
      rw [List.map_cons, List.map_cons, outcome, same]

namespace Cursor

variable {cursor : Cursor}

/-- Scanning a text that reads without errors reports its tokens and the end. -/
theorem map_outcome_scanAll {bound : Nat} {found : List Token} (lexed : Lexes cursor.rest found)
    (enough : cursor.rest.length < bound) :
    (scanAll bound cursor).map Scan.outcome = found.map .ok ++ [.ok .endOfInput] := by
  induction bound generalizing cursor found with
  | zero => exact absurd enough (Nat.not_lt_zero _)
  | succ bound ih =>
    cases lexed with
    | done gap =>
      rw [scanAll, scan_of_readToken gap rfl]
      rfl
    | @step _ rest left token tokens gap nonempty read others =>
      have scanned := scan_of_readToken gap read
      have notEnd : cursor.scan.outcome ≠ .ok .endOfInput := by
        rw [scanned]
        intro isEnd
        cases isEnd
        exact nonempty (eq_nil_of_readToken read).1
      have shorter := length_scan_next_lt notEnd
      have behind : Lexes cursor.scan.next.rest tokens := by
        rw [scanned]
        exact others
      rw [scanAll_succ_of_ne notEnd, List.map_cons, ih behind (by omega),
        scanned]
      rfl

/-- The text of a token that is read, put in front of what follows it. -/
theorem isLexeme_scan (clean : cursor.scan.outcome.isOk = true)
    (notEnd : cursor.scan.outcome ≠ .ok .endOfInput) : cursor.scan.IsLexeme := by
  have shape := cursor.scanned_scan
  generalize cursor.scan = scan at clean notEnd shape
  cases shape with
  | @token rest left token gap read =>
    obtain ⟨word, split⟩ := isSuffix_of_readToken rest
    rw [read] at split
    have cut : Scan.word ⟨.ok token, cursor.upTo rest, (cursor.upTo rest).upTo left⟩ = word := by
      simp [Scan.word, ← split]
    have nonempty : rest ≠ [] := by
      rintro rfl
      cases read
      exact notEnd rfl
    obtain ⟨character, others, rfl⟩ := List.exists_cons_of_ne_nil nonempty
    refine ⟨token, left, rfl, ?_⟩
    rw [cut]
    constructor
    case nonempty =>
      rintro rfl
      have shorter := (readToken_split read).1.length_le
      have lengths := congrArg List.length split
      simp only [List.nil_append, List.length_cons] at lengths
      omega
    case visible =>
      rw [split]
      exact skipGap_of_skipGap gap
    case reads => rwa [split]
  | unexpected | openText | openComment => cases clean

/-- Where no error is reported, every word before the end is that of a token. -/
theorem exists_isLexeme_of_scanAll {bound : Nat} (enough : cursor.rest.length < bound)
    (clean : ∀ scan ∈ scanAll bound cursor, scan.outcome.isOk = true) :
    ∃ before last, scanAll bound cursor = before ++ [last] ∧ last.outcome = .ok .endOfInput ∧
      ∀ scan ∈ before, scan.IsLexeme := by
  induction bound generalizing cursor with
  | zero => exact absurd enough (Nat.not_lt_zero _)
  | succ bound ih =>
    by_cases atEnd : cursor.scan.outcome = .ok .endOfInput
    · exact ⟨[], cursor.scan, scanAll_succ_of_eq atEnd bound, atEnd, by simp⟩
    · have shorter := length_scan_next_lt atEnd
      rw [scanAll_succ_of_ne atEnd] at clean ⊢
      rw [List.forall_mem_cons] at clean
      obtain ⟨before, last, split, isLast, cut⟩ := ih (by omega) clean.2
      refine ⟨cursor.scan :: before, last, by rw [split, List.cons_append], isLast, ?_⟩
      exact List.forall_mem_cons.mpr ⟨isLexeme_scan clean.1 atEnd, cut⟩

end Cursor

/-- What is reported when a text is read token by token. -/
def outcomes (text : String) : List (Except ScriptError Token) :=
  (tokens text).map Scan.outcome

/-- Every text in which the words of tokens are kept apart reports these tokens. -/
theorem Spaced.outcomes_eq {scans : List Scan} (spaced : Spaced (scans.map Scan.word) text)
    (cut : ∀ scan ∈ scans, scan.IsLexeme) :
    outcomes (String.ofList text) = scans.map Scan.outcome ++ [.ok .endOfInput] := by
  obtain ⟨found, lexed, same⟩ := spaced.exists_lexes cut
  have whole : Lexes (Cursor.ofText (String.ofList text).toList).rest found := by
    rw [String.toList_ofList]
    exact lexed
  rw [same]
  exact Cursor.map_outcome_scanAll whole (Nat.lt_succ_self _)

/-- Of a text that is read without errors, the text of each token is read alone as
that token.  Joined by single blanks, and in every other text that keeps them
apart, these texts are read as the tokens of the source, in order. -/
theorem outcomes_of_words {text : String}
    (clean : ∀ outcome ∈ outcomes text, outcome.isOk = true) :
    ∃ before last, tokens text = before ++ [last] ∧ last.outcome = .ok .endOfInput ∧
      (∀ scan ∈ before, outcomes (String.ofList scan.word) = [scan.outcome, .ok .endOfInput]) ∧
      outcomes (String.ofList ([' '].intercalate (before.map Scan.word))) =
        before.map Scan.outcome ++ [.ok .endOfInput] ∧
      ∀ spaced, Spaced (before.map Scan.word) spaced →
        outcomes (String.ofList spaced) = before.map Scan.outcome ++ [.ok .endOfInput] := by
  have cleanScans : ∀ scan ∈ tokens text, scan.outcome.isOk = true := fun scan member =>
    clean _ (List.mem_map_of_mem member)
  obtain ⟨before, last, split, isLast, cut⟩ :=
    Cursor.exists_isLexeme_of_scanAll (Nat.lt_succ_self _) cleanScans
  refine ⟨before, last, split, isLast, fun scan member => ?_, ?_, fun spaced apart => ?_⟩
  · have alone : Spaced ([scan].map Scan.word) scan.word := spaced_single scan.word
    exact alone.outcomes_eq (List.forall_mem_singleton.mpr (cut scan member))
  · exact (spaced_intercalate _).outcomes_eq cut
  · exact apart.outcomes_eq cut

/-- A number in front of a point and a name, a slash in front of a comment, and a
number that begins with a point. -/
theorem outcomes_of_words_points :
    (∀ outcome ∈ outcomes "1.x/ /*a*/.5>=b // c", outcome.isOk = true) ∧
      outcomes "1 . x / .5 >= b" =
        [.ok (.number "1"), .ok (.symbol .dot), .ok (.name "x"), .ok (.symbol .slash),
          .ok (.number ".5"), .ok (.symbol .greaterEqual), .ok (.name "b"), .ok .endOfInput] := by
  have clean : ∀ outcome ∈ outcomes "1.x/ /*a*/.5>=b // c", outcome.isOk = true := by
    decide +kernel
  obtain ⟨before, last, split, -, -, joined, -⟩ := outcomes_of_words clean
  have before_eq : before = (tokens "1.x/ /*a*/.5>=b // c").dropLast := by
    rw [split, List.dropLast_concat]
  have words : String.ofList ([' '].intercalate (before.map Scan.word)) = "1 . x / .5 >= b" := by
    rw [before_eq]
    decide +kernel
  rw [words, before_eq] at joined
  exact ⟨clean, joined.trans (by decide +kernel)⟩

end EventScript
