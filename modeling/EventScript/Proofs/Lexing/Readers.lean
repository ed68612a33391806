import EventScript.Cursor
import Mathlib.Tactic.Common

/-!
# What the readers of tokens accept

For each kind of token: the texts that spell one, and that a reader takes
exactly such a spelling off the front of a text, provided that what follows
does not continue it.
-/

namespace EventScript

variable {character : Char} {rest text word number : List Char} {mark : Symbol}

/-- A text that is empty or begins with a character outside a class. -/
def Stops (inClass : Char → Bool) (rest : List Char) : Prop :=
  ∀ character ∈ rest.head?, inClass character = false

theorem stops_nil (inClass : Char → Bool) : Stops inClass [] := by
  simp [Stops]

@[simp]
theorem stops_cons (inClass : Char → Bool) (character : Char) (rest : List Char) :
    Stops inClass (character :: rest) ↔ inClass character = false := by
  simp [Stops]

/-! ## Classes of characters -/

/-- A character of a class is none of those outside the class. -/
theorem contains_eq_false {inClass : Char → Bool} {outside : List Char}
    (apart : outside.all (fun other => !inClass other) = true) (inside : inClass character = true) :
    outside.contains character = false := by
  rw [Bool.eq_false_iff]
  intro found
  have isOutside := List.all_eq_true.mp apart character (List.contains_iff_mem.mp found)
  rw [inside] at isOutside
  cases isOutside

theorem isDigit_iff (character : Char) :
    character.isDigit = true ↔ 0x30 ≤ character.toNat ∧ character.toNat ≤ 0x39 := by
  simp [Char.isDigit, UInt32.le_iff_toNat_le]

theorem isAlpha_iff (character : Char) :
    character.isAlpha = true ↔
      (0x41 ≤ character.toNat ∧ character.toNat ≤ 0x5A) ∨
        (0x61 ≤ character.toNat ∧ character.toNat ≤ 0x7A) := by
  have ranges : character.isAlpha =
      (decide (character.val ≥ 65 ∧ character.val ≤ 90) ||
        decide (character.val ≥ 97) && decide (character.val ≤ 122)) := rfl
  simp [ranges, UInt32.le_iff_toNat_le]

theorem isNameStart_iff (character : Char) :
    isNameStart character = true ↔ character.isAlpha = true ∨ character.toNat = 0x5F := by
  rw [isNameStart, Bool.or_eq_true, beq_iff_eq, ← Char.toNat_inj]
  rfl

theorem isNameChar_iff (character : Char) :
    isNameChar character = true ↔
      isNameStart character = true ∨ character.isDigit = true := by
  simp only [isNameChar, isNameStart, Char.isAlphanum, Bool.or_eq_true]
  tauto

/-- Digits do not begin names. -/
theorem isDigit_eq_false_of_isNameStart (start : isNameStart character = true) :
    character.isDigit = false := by
  rw [Bool.eq_false_iff, ne_eq, isDigit_iff]
  rw [isNameStart_iff, isAlpha_iff] at start
  omega

/-- The characters of names are not blank. -/
theorem isBlank_eq_false_of_isNameChar (named : isNameChar character = true) :
    Text.isBlank character = false := by
  rw [isNameChar_iff, isNameStart_iff, isAlpha_iff, isDigit_iff] at named
  rw [Bool.eq_false_iff, ne_eq]
  simp only [Text.isBlank, Bool.or_eq_true, Bool.and_eq_true, decide_eq_true_eq, beq_iff_eq]
  omega

/-- A name is told apart from every character that is not of its class. -/
theorem ne_of_isNameChar {other : Char} (named : isNameChar character = true)
    (notNamed : isNameChar other = false) : character ≠ other := by
  rintro rfl
  simp [named] at notNamed

/-! ## Gaps -/

/-- Whether a text begins with a comment. -/
def StartsComment (text : List Char) : Prop :=
  ∃ rest, text = '/' :: '/' :: rest ∨ text = '/' :: '*' :: rest

/-- In front of a text that begins with no comment, blanks are skipped and any
other character is kept. -/
theorem skipGap_cons (noComment : ¬StartsComment (character :: rest)) :
    skipGap .blanks (character :: rest) =
      if Text.isBlank character then skipGap .blanks rest else .ok (character :: rest) := by
  generalize begins : character :: rest = text at noComment ⊢
  generalize inBlanks : Gap.blanks = gap
  fun_cases skipGap gap text with
  | case1 others => exact absurd ⟨others, .inl rfl⟩ noComment
  | case2 others => exact absurd ⟨others, .inr rfl⟩ noComment
  | case3 first others _ _ blank =>
    cases begins
    rw [if_pos blank]
  | case4 first others _ _ visible =>
    cases begins
    rw [if_neg visible]
  | case5 | case6 | case7 | case8 | case9 => cases inBlanks
  | case10 => cases begins

/-- A blank in front of a token belongs to the gap. -/
theorem skipGap_cons_of_isBlank (blank : Text.isBlank character = true) (rest : List Char) :
    skipGap .blanks (character :: rest) = skipGap .blanks rest := by
  have notSlash : character ≠ '/' := by
    rintro rfl
    exact absurd blank (by decide)
  rw [skipGap_cons, if_pos blank]
  rintro ⟨others, begins | begins⟩
  · exact notSlash (List.cons.inj begins).1
  · exact notSlash (List.cons.inj begins).1

/-- There is no gap in front of a character that is neither blank nor begins a
comment. -/
theorem skipGap_cons_self (visible : Text.isBlank character = false)
    (noComment : ¬StartsComment (character :: rest)) :
    skipGap .blanks (character :: rest) = .ok (character :: rest) := by
  rw [skipGap_cons noComment, visible, if_neg Bool.false_ne_true]

/-- What remains behind a gap is the end of the text. -/
theorem isSuffix_of_skipGap {gap : Gap} (skipped : skipGap gap text = .ok rest) :
    rest <:+ text := by
  fun_induction skipGap gap text with
  | case1 others ih | case2 others ih | case7 opening others ih =>
    exact (ih skipped).trans ((List.suffix_cons _ _).trans (List.suffix_cons _ _))
  | case3 character others _ _ blank ih =>
    exact (ih skipped).trans (List.suffix_cons _ _)
  | case4 character others _ _ visible =>
    cases skipped
    exact List.suffix_refl _
  | case5 character others lineEnd ih | case6 character others inLine ih =>
    exact (ih skipped).trans (List.suffix_cons _ _)
  | case8 opening character others _ ih =>
    exact (ih skipped).trans (List.suffix_cons _ _)
  | case9 => cases skipped
  | case10 => cases skipped; exact List.suffix_refl _

/-! ## Names -/

/-- Whether characters spell a name or a keyword. -/
def isWord : List Char → Bool
  | [] => false
  | character :: rest => isNameStart character && rest.all isNameChar

/-- A word that is no keyword. -/
def IsName (spelling : String) : Prop :=
  isWord spelling.toList = true ∧ Keyword.ofSpelling? spelling = none

instance (spelling : String) : Decidable (IsName spelling) :=
  inferInstanceAs (Decidable (_ ∧ _))

theorem isNameChar_of_isNameStart (start : isNameStart character = true) :
    isNameChar character = true :=
  (isNameChar_iff character).mpr (.inl start)

theorem isNameChar_of_mem_word (spelled : isWord word = true) (member : character ∈ word) :
    isNameChar character = true := by
  cases word with
  | nil => cases member
  | cons first others =>
    rw [isWord, Bool.and_eq_true, List.all_eq_true] at spelled
    rcases List.mem_cons.mp member with rfl | later
    · exact isNameChar_of_isNameStart spelled.1
    · exact spelled.2 character later

/-- A word is taken whole and without what follows it. -/
theorem takeWhile_isNameChar (spelled : isWord word = true) (ended : Stops isNameChar rest) :
    (word ++ rest).takeWhile isNameChar = word := by
  have allNamed : ∀ character ∈ word, isNameChar character = true :=
    fun _ member => isNameChar_of_mem_word spelled member
  rw [List.takeWhile_append_of_pos allNamed]
  cases rest with
  | nil => simp
  | cons character others =>
    rw [stops_cons] at ended
    simp [ended]

theorem dropWhile_isNameChar (spelled : isWord word = true) (ended : Stops isNameChar rest) :
    (word ++ rest).dropWhile isNameChar = rest := by
  have allNamed : ∀ character ∈ word, isNameChar character = true :=
    fun _ member => isNameChar_of_mem_word spelled member
  rw [List.dropWhile_append_of_pos allNamed]
  cases rest with
  | nil => rfl
  | cons character others =>
    rw [stops_cons] at ended
    simp [ended]

/-! ## Numbers -/

/-- Whether a text begins with a number. -/
def startsNumber : List Char → Bool
  | [] => false
  | character :: rest => character.isDigit || (character == '.' && startsWithDigit rest)

/-- Characters that spell one number. -/
def IsNumeral (number : List Char) : Prop :=
  startsNumber number = true ∧ spanNumber false number = (number, [])

instance (number : List Char) : Decidable (IsNumeral number) :=
  inferInstanceAs (Decidable (_ ∧ _))

/-- Characters behind a number that could be taken for a part of it, or that
decide about its last point. -/
def continuesNumber (character : Char) : Bool :=
  isNameChar character || character == '.'

private theorem startsWithLetter_append (ended : Stops continuesNumber rest) :
    startsWithLetter (number ++ rest) = startsWithLetter number := by
  cases number with
  | cons character others => rfl
  | nil =>
    cases rest with
    | nil => rfl
    | cons character others =>
      rw [stops_cons, continuesNumber, Bool.or_eq_false_iff] at ended
      rw [Bool.eq_false_iff, ne_eq, isNameChar_iff, isNameStart_iff] at ended
      simp only [List.nil_append, startsWithLetter]
      rw [Bool.eq_false_iff]
      exact fun letter => ended.1 (.inl (.inl letter))

/-- A number is taken whole and without what follows it. -/
theorem spanNumber_append {pointSeen : Bool} (spelled : spanNumber pointSeen number = (number, []))
    (ended : Stops continuesNumber rest) :
    spanNumber pointSeen (number ++ rest) = (number, rest) := by
  induction number generalizing pointSeen with
  | nil =>
    cases rest with
    | nil => rfl
    | cons character others =>
      rw [stops_cons, continuesNumber, Bool.or_eq_false_iff] at ended
      have notDigit : character.isDigit = false := by
        rw [Bool.eq_false_iff]
        intro digit
        rw [(isNameChar_iff character).mpr (.inr digit)] at ended
        exact absurd ended.1 (by decide)
      simp [spanNumber, notDigit, ended.2]
  | cons character others ih =>
    rw [spanNumber] at spelled
    rw [List.cons_append, spanNumber, startsWithLetter_append ended]
    split at spelled
    · rename_i digit
      have inner : spanNumber pointSeen others = (others, []) := by
        simpa [Prod.ext_iff] using spelled
      rw [if_pos digit, ih inner]
    · rename_i notDigit
      split at spelled
      · rename_i point
        have inner : spanNumber true others = (others, []) := by
          simpa [Prod.ext_iff] using spelled
        rw [if_neg notDigit, if_pos point, ih inner]
      · simp at spelled

/-- What a reader splits off is a number by itself. -/
theorem spanNumber_split {pointSeen : Bool} {text number rest : List Char}
    (split : spanNumber pointSeen text = (number, rest)) :
    text = number ++ rest ∧ spanNumber pointSeen number = (number, []) := by
  induction text generalizing pointSeen number with
  | nil =>
    cases split
    exact ⟨rfl, rfl⟩
  | cons character others ih =>
    rw [spanNumber] at split
    split at split
    · rename_i digit
      obtain ⟨rfl, rfl⟩ := Prod.mk.inj split
      obtain ⟨whole, inner⟩ := @ih pointSeen _ rfl
      refine ⟨by rw [List.cons_append, ← whole], ?_⟩
      rw [spanNumber, if_pos digit, inner]
    · rename_i notDigit
      split at split
      · rename_i point
        obtain ⟨rfl, rfl⟩ := Prod.mk.inj split
        obtain ⟨whole, inner⟩ := @ih true _ rfl
        refine ⟨by rw [List.cons_append, ← whole], ?_⟩
        have noLetter : startsWithLetter (spanNumber true others).1 = false := by
          rw [Bool.and_eq_true, Bool.not_eq_true'] at point
          cases taken : (spanNumber true others).1 with
          | nil => rfl
          | cons first more =>
            rw [taken] at whole
            rw [whole] at point
            exact point.2
        rw [Bool.and_eq_true] at point
        rw [spanNumber, if_neg notDigit, if_pos (by simp [point.1, noLetter]), inner]
      · obtain ⟨rfl, rfl⟩ := Prod.mk.inj split
        exact ⟨rfl, rfl⟩

/-- A number holds digits and points only. -/
theorem isDigit_or_point_of_spanNumber {pointSeen : Bool}
    (spelled : spanNumber pointSeen number = (number, [])) :
    ∀ character ∈ number, character.isDigit = true ∨ character = '.' := by
  induction number generalizing pointSeen with
  | nil => simp
  | cons character others ih =>
    rw [spanNumber] at spelled
    rw [List.forall_mem_cons]
    split at spelled
    · rename_i digit
      have inner : spanNumber pointSeen others = (others, []) := by
        simpa [Prod.ext_iff] using spelled
      exact ⟨.inl digit, ih inner⟩
    · split at spelled
      · rename_i point
        have inner : spanNumber true others = (others, []) := by
          simpa [Prod.ext_iff] using spelled
        rw [Bool.and_eq_true, Bool.and_eq_true, beq_iff_eq] at point
        exact ⟨.inr point.1.1, ih inner⟩
      · simp at spelled

/-- A digit in front of a number belongs to it. -/
theorem isNumeral_cons {digit : Char} (isDigit : digit.isDigit = true) (numeral : IsNumeral number) :
    IsNumeral (digit :: number) := by
  refine ⟨by simp [startsNumber, isDigit], ?_⟩
  rw [spanNumber, if_pos isDigit, numeral.2]

/-! ## Quoted texts -/

/-- What was read is extended, and what is left is the same. -/
theorem exists_of_map_fst {α β γ : Type} {extend : α → β} {read : Option (α × γ)} {value : β}
    {left : γ}
    (mapped : (read.map fun (value, left) => (extend value, left)) = some (value, left)) :
    ∃ inner, read = some (inner, left) ∧ extend inner = value := by
  obtain ⟨⟨inner, behind⟩, found, same⟩ := Option.map_eq_some_iff.mp mapped
  obtain ⟨rfl, rfl⟩ := Prod.mk.inj same
  exact ⟨inner, found, rfl⟩

/-- Reading undoes the spelling of one character. -/
theorem readQuoted_escape_append (character : Char) (text : List Char) :
    readQuoted (Text.escape character ++ text) =
      (readQuoted text).map fun (value, left) => (character :: value, left) := by
  unfold Text.escape
  split
  case h_6 _ notBackslash notQuote _ _ _ =>
      rw [List.singleton_append, readQuoted]
      · exact notQuote
      · exact fun _ _ isBackslash => absurd isBackslash notBackslash
  all_goals simp [readQuoted, unescape]

/-- Reading a quoted text undoes quoting, whatever follows. -/
theorem readQuoted_flatMap_escape (value rest : List Char) :
    readQuoted (value.flatMap Text.escape ++ '"' :: rest) = some (value, rest) := by
  induction value with
  | nil => rfl
  | cons character others ih =>
    rw [List.flatMap_cons, List.append_assoc, readQuoted_escape_append, ih]
    rfl

/-- What remains behind a quoted text is the end of the text. -/
theorem isSuffix_of_readQuoted {value : List Char} (read : readQuoted text = some (value, rest)) :
    rest <:+ text := by
  fun_induction readQuoted text generalizing value with
  | case1 => cases read
  | case2 others =>
    cases read
    exact List.suffix_cons _ _
  | case3 character others ih =>
    obtain ⟨inner, readInner, rfl⟩ := exists_of_map_fst read
    exact (ih readInner).trans
      ((List.suffix_cons _ _).trans (List.suffix_cons _ _))
  | case4 character others _ _ ih =>
    obtain ⟨inner, readInner, rfl⟩ := exists_of_map_fst read
    exact (ih readInner).trans (List.suffix_cons _ _)

/-! ## Symbols -/

theorem readSymbol_pair {first second : Char} (pair : Symbol.ofPair? first second = some mark)
    (rest : List Char) : readSymbol first (second :: rest) = some (mark, rest) := by
  simp [readSymbol, pair]

theorem readSymbol_single (single : Symbol.ofChar? character = some mark)
    (alone : ∀ second ∈ rest.head?, Symbol.ofPair? character second = none) :
    readSymbol character rest = some (mark, rest) := by
  cases rest with
  | nil => simp [readSymbol, single]
  | cons second others =>
    have noPair := alone second rfl
    simp [readSymbol, single, noPair]

/-- What remains behind a symbol is the end of the text. -/
theorem isSuffix_of_readSymbol (read : readSymbol character text = some (mark, rest)) :
    rest <:+ text := by
  unfold readSymbol at read
  split at read
  · obtain ⟨_, _, same⟩ := Option.map_eq_some_iff.mp read
    cases same
    exact List.suffix_refl _
  · split at read
    · cases read
      exact List.suffix_cons _ _
    · obtain ⟨_, _, same⟩ := Option.map_eq_some_iff.mp read
      cases same
      exact List.suffix_refl _

end EventScript
