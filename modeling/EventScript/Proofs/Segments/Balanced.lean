import EventScript.Proofs.Rendering.ArgumentParts

/-!
# Balanced arguments

A property code takes along the argument in parentheses that follows it.  Where
that argument ends is found by counting parentheses outside quoted texts.  The
count is exact: an argument is read if and only if balanced text and a closing
parenthesis follow the opening one, and that text is the argument.
-/

namespace EventScript

/-- Text whose parentheses are balanced outside its quoted texts. -/
inductive Balanced : List Char → Prop
  | done : Balanced []
  | plain {character : Char} {rest : List Char} (notQuote : character ≠ '"')
      (notOpen : character ≠ '(') (notClose : character ≠ ')') (others : Balanced rest) :
      Balanced (character :: rest)
  | quoted {inner rest : List Char} (inside : IsQuotedText inner) (others : Balanced rest) :
      Balanced ('"' :: (inner ++ '"' :: rest))
  | group {inner rest : List Char} (inside : Balanced inner) (others : Balanced rest) :
      Balanced ('(' :: (inner ++ ')' :: rest))

/-- Text that closes a number of open parentheses and is balanced between
them. -/
inductive Unwinds : Nat → List Char → Prop
  | level {text : List Char} (balanced : Balanced text) : Unwinds 0 text
  | close {depth : Nat} {inner rest : List Char} (inside : Balanced inner)
      (others : Unwinds depth rest) : Unwinds (depth + 1) (inner ++ ')' :: rest)

namespace Unwinds

variable {depth : Nat} {text : List Char}

/-- What can be put in front of balanced text can be put in front of text that
closes parentheses. -/
theorem extend (front : List Char) (keeps : ∀ {rest}, Balanced rest → Balanced (front ++ rest))
    (unwinds : Unwinds depth text) : Unwinds depth (front ++ text) := by
  cases unwinds with
  | level balanced => exact .level (keeps balanced)
  | close inside others =>
    rw [← List.append_assoc]
    exact .close (keeps inside) others

theorem plain {character : Char} (notQuote : character ≠ '"') (notOpen : character ≠ '(')
    (notClose : character ≠ ')') (unwinds : Unwinds depth text) :
    Unwinds depth (character :: text) :=
  unwinds.extend [character] fun others => .plain notQuote notOpen notClose others

theorem quoted {inner : List Char} (inside : IsQuotedText inner) (unwinds : Unwinds depth text) :
    Unwinds depth ('"' :: (inner ++ '"' :: text)) := by
  have extended := unwinds.extend ('"' :: (inner ++ ['"'])) fun others => by
    simpa using Balanced.quoted inside others
  simpa using extended

/-- An opening parenthesis belongs to the first one that closes. -/
theorem group (unwinds : Unwinds (depth + 1) text) : Unwinds depth ('(' :: text) := by
  cases unwinds with
  | @close depth inner rest inside others =>
    have extended := others.extend ('(' :: (inner ++ [')'])) fun others => by
      simpa using Balanced.group inside others
    simpa using extended

end Unwinds

namespace Segment

variable {text : List Char}

/-- What is read of an argument closes as many parentheses as are open. -/
theorem unwinds_of_readBalanced {depth : Nat} {quoted : Bool} {argument left : List Char}
    (read : readBalanced depth quoted text = some (argument, left)) :
    if quoted then ∃ inner rest, argument = inner ++ '"' :: rest ∧ IsQuotedText inner ∧
        Unwinds depth rest
      else Unwinds depth argument := by
  fun_induction readBalanced depth quoted text generalizing argument left with
  | case1 => cases read
  | case2 depth escaped rest ih =>
    obtain ⟨⟨others, behind⟩, readOthers, same⟩ := Option.map_eq_some_iff.mp read
    obtain ⟨rfl, rfl⟩ := Prod.mk.inj same
    obtain ⟨inner, rest, rfl, inside, unwinds⟩ := ih readOthers
    exact ⟨'\\' :: escaped :: inner, rest, rfl,
      (isQuotedText_escape_iff escaped inner).mpr inside, unwinds⟩
  | case3 depth character rest notEscape ih =>
    obtain ⟨others, readOthers, rfl⟩ := exists_of_map_fst read
    have unwinds := ih readOthers
    rw [if_pos rfl]
    by_cases isQuote : character = '"'
    · subst isQuote
      exact ⟨[], others, rfl, isQuotedText_nil, unwinds⟩
    · rw [bne_iff_ne.mpr isQuote, if_pos rfl] at unwinds
      obtain ⟨inner, unwound, rfl, inside, unwinds⟩ := unwinds
      have notBackslash : character ≠ '\\' := by
        rintro rfl
        -- the backslash would take the next character along
        cases rest with
        | nil => cases readOthers
        | cons escaped rest => exact notEscape escaped rest rfl rfl
      exact ⟨character :: inner, unwound, rfl,
        (isQuotedText_cons_iff isQuote notBackslash inner).mpr inside, unwinds⟩
  | case4 depth character rest closing =>
    obtain ⟨rfl, rfl⟩ := Prod.mk.inj (Option.some.inj read)
    rw [Bool.and_eq_true, beq_iff_eq, beq_iff_eq] at closing
    rw [if_neg Bool.false_ne_true, closing.2]
    exact .level .done
  | case5 depth character rest notLast inner =>
    rename_i ih
    obtain ⟨others, readOthers, rfl⟩ := exists_of_map_fst read
    have unwinds := ih readOthers
    rw [if_neg Bool.false_ne_true]
    by_cases isQuote : character = '"'
    · subst isQuote
      obtain ⟨inside, rest, rfl, isInside, unwinds⟩ := unwinds
      exact unwinds.quoted isInside
    · rw [beq_eq_false_iff_ne.mpr isQuote, if_neg Bool.false_ne_true] at unwinds
      by_cases isOpen : character = '('
      · subst isOpen
        exact unwinds.group
      · by_cases isClose : character = ')'
        · subst isClose
          obtain ⟨depth, rfl⟩ : ∃ less, depth = less + 1 := by
            refine Nat.exists_eq_succ_of_ne_zero fun outside => notLast ?_
            rw [outside]
            rfl
          exact .close .done unwinds
        · have sameDepth : inner = depth := by simp [inner, isOpen, isClose]
          rw [sameDepth] at unwinds
          exact unwinds.plain isQuote isOpen isClose

/-- A quoted text is passed over up to its closing quote. -/
theorem readBalanced_of_isQuotedText {inner : List Char} (inside : IsQuotedText inner) (depth : Nat)
    (rest : List Char) :
    readBalanced depth true (inner ++ '"' :: rest) =
      (readBalanced depth false rest).map fun (argument, left) =>
        (inner ++ '"' :: argument, left) := by
  induction inner using readQuoted.induct with
  | case1 => simp [readBalanced]
  | case2 others => exact absurd inside (not_isQuotedText_quote others)
  | case3 escaped others ih =>
    rw [isQuotedText_escape_iff] at inside
    simp [readBalanced, ih inside, Function.comp_def]
  | case4 character others notQuote notEscape ih =>
    have notBackslash : character ≠ '\\' := by
      rintro rfl
      cases others with
      | nil => exact not_isQuotedText_backslash inside
      | cons escaped others => exact notEscape escaped others rfl rfl
    rw [isQuotedText_cons_iff notQuote notBackslash] at inside
    rw [List.cons_append, readBalanced, bne_iff_ne.mpr notQuote, ih inside]
    · simp [Function.comp_def]
    · exact fun _ _ isBackslash _ => notBackslash isBackslash

/-- Balanced text is passed over wherever it stands. -/
theorem readBalanced_of_balanced (balanced : Balanced text) (depth : Nat) (rest : List Char) :
    readBalanced depth false (text ++ rest) =
      (readBalanced depth false rest).map fun (argument, left) => (text ++ argument, left) := by
  induction balanced generalizing depth rest with
  | done => simp
  | plain notQuote notOpen notClose _ ih =>
    simp [readBalanced, beq_eq_false_iff_ne.mpr notQuote, notOpen, notClose, ih,
      Function.comp_def]
  | quoted inside _ ih =>
    simp [readBalanced, readBalanced_of_isQuotedText inside, ih,
      Function.comp_def]
  | group _ _ passedInner passedRest =>
    simp [readBalanced, passedInner, passedRest, Function.comp_def]

/-- An argument is read exactly if balanced text in parentheses follows. -/
theorem readArgument_eq_some_iff {left : List Char} {argument : String} :
    readArgument text = some (argument, left) ↔
      text = parenthesised argument ++ left ∧ Balanced argument.toList := by
  constructor
  · intro read
    refine ⟨readArgument_split read, ?_⟩
    unfold readArgument at read
    split at read
    · obtain ⟨inner, readInner, rfl⟩ := exists_of_map_fst read
      have unwinds := unwinds_of_readBalanced readInner
      rw [if_neg Bool.false_ne_true] at unwinds
      rw [String.toList_ofList]
      cases unwinds with
      | level balanced => exact balanced
    · cases read
  · rintro ⟨rfl, balanced⟩
    simp [parenthesised, readArgument, readBalanced_of_balanced balanced, readBalanced]

end Segment

end EventScript
