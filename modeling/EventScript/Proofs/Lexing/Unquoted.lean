import EventScript.Cursor
import Mathlib.Tactic.Common

/-!
# Unquoted arguments

An unquoted argument is a part of the text that ends in front of a mark outside
parentheses and quotes.  It depends on nothing behind that mark.
-/

namespace EventScript

variable {text : List Char} {depth : Nat} {quoted : Bool}

/-- The characters that end an unquoted argument. -/
def endsRaw (character : Char) : Bool :=
  character == ',' || character == ';' || character == ')' || character == '}'

theorem spanRaw_escape (depth : Nat) (character : Char) (text : List Char) :
    spanRaw depth true ('\\' :: character :: text) =
      ('\\' :: character :: (spanRaw depth true text).1, (spanRaw depth true text).2) :=
  rfl

theorem spanRaw_quoted {character : Char}
    (plain : ∀ escaped rest, character = '\\' → text = escaped :: rest → False) (depth : Nat) :
    spanRaw depth true (character :: text) =
      (character :: (spanRaw depth (character != '"') text).1,
        (spanRaw depth (character != '"') text).2) := by
  rw [spanRaw]
  exact plain

/-- The parentheses that are open behind a character. -/
def depthBehind (depth : Nat) (character : Char) : Nat :=
  if character == '(' then depth + 1 else if character == ')' then depth - 1 else depth

theorem spanRaw_unquoted (depth : Nat) (character : Char) (text : List Char) :
    spanRaw depth false (character :: text) =
      if depth == 0 && endsRaw character then ([], character :: text)
      else
        (character :: (spanRaw (depthBehind depth character) (character == '"') text).1,
          (spanRaw (depthBehind depth character) (character == '"') text).2) := by
  rw [spanRaw]
  rfl

/-- An unquoted argument and what remains behind it make up the text. -/
theorem spanRaw_append (depth : Nat) (quoted : Bool) (text : List Char) :
    (spanRaw depth quoted text).1 ++ (spanRaw depth quoted text).2 = text := by
  fun_induction spanRaw depth quoted text <;> simp_all

/-- An unquoted argument that ends in front of a character ends there whatever
follows. -/
theorem spanRaw_of_cons {argument more : List Char} {character : Char}
    (spanned : spanRaw depth quoted text = (argument, character :: more)) :
    endsRaw character = true ∧ text = argument ++ character :: more ∧
      ∀ others, spanRaw depth quoted (argument ++ character :: others) =
        (argument, character :: others) := by
  fun_induction spanRaw depth quoted text generalizing argument with
  | case1 => cases spanned
  | case2 depth escaped rest inner left spannedInner ih =>
    obtain ⟨rfl, rfl⟩ := Prod.mk.inj spanned
    obtain ⟨ends, rfl, same⟩ := ih spannedInner
    refine ⟨ends, rfl, fun others => ?_⟩
    rw [List.cons_append, List.cons_append, spanRaw_escape, same]
  | case3 depth first rest plain inner left spannedInner ih =>
    obtain ⟨rfl, rfl⟩ := Prod.mk.inj spanned
    obtain ⟨ends, rfl, same⟩ := ih spannedInner
    refine ⟨ends, rfl, fun others => ?_⟩
    rw [List.cons_append, spanRaw_quoted, same]
    intro _ _ isBackslash _
    cases inner with
    | nil | cons => exact plain _ _ isBackslash rfl
  | case4 depth first rest stops =>
    obtain ⟨rfl, same⟩ := Prod.mk.inj spanned
    cases same
    rw [Bool.and_eq_true] at stops
    refine ⟨stops.2, rfl, fun others => ?_⟩
    rw [List.nil_append, spanRaw_unquoted, if_pos]
    exact Bool.and_eq_true_iff.mpr stops
  | case5 depth first rest goesOn behind inner left spannedInner =>
    rename_i ih
    obtain ⟨rfl, rfl⟩ := Prod.mk.inj spanned
    obtain ⟨ends, rfl, same⟩ := ih spannedInner
    refine ⟨ends, rfl, fun others => ?_⟩
    rw [List.cons_append, spanRaw_unquoted, if_neg (by exact goesOn)]
    have inside : spanRaw (depthBehind depth first) _ _ = _ := same others
    rw [inside]

/-! ## Texts without an end -/

/-- What is open behind a text that holds no end of an unquoted argument: the
number of parentheses, and whether a quote is open. -/
def leftOpen : (depth : Nat) → (quoted : Bool) → List Char → Option (Nat × Bool)
  | depth, quoted, [] => some (depth, quoted)
  | depth, true, '\\' :: _ :: rest => leftOpen depth true rest
  | depth, true, character :: rest => leftOpen depth (character != '"') rest
  | depth, false, character :: rest =>
    if depth == 0 && endsRaw character then none
    else leftOpen (depthBehind depth character) (character == '"') rest

/-- An unquoted argument runs to the end of the text, and a parenthesis or a
quote is still open there. -/
def LeavesOpen (text : List Char) : Prop :=
  ∃ state, leftOpen 0 false text = some state ∧ state ≠ (0, false)

/-- A text that holds no end of an argument is a part of it, and the argument
goes on behind a line feed. -/
theorem spanRaw_of_leftOpen {depthLeft : Nat} {quotedLeft : Bool} {behind : List Char}
    (isOpen : leftOpen depth quoted text = some (depthLeft, quotedLeft))
    (lineFeed : ∀ character ∈ behind.head?, character = '\n') :
    spanRaw depth quoted (text ++ behind) =
      (text ++ (spanRaw depthLeft quotedLeft behind).1,
        (spanRaw depthLeft quotedLeft behind).2) := by
  fun_induction leftOpen depth quoted text with
  | case1 depth quoted =>
    cases isOpen
    rfl
  | case2 depth escaped rest ih =>
    rw [List.cons_append, List.cons_append, spanRaw_escape, ih isOpen]
    rfl
  | case3 depth character rest plain ih =>
    by_cases escapesLine : character = '\\' ∧ rest = []
    · -- an escaped line feed is a part of the quoted text like any other
      obtain ⟨rfl, rfl⟩ := escapesLine
      cases isOpen
      cases behind with
      | nil => rfl
      | cons first others =>
        cases lineFeed first rfl
        rfl
    · rw [List.cons_append, spanRaw_quoted, ih isOpen]
      · rfl
      · intro escaped others isBackslash split
        cases rest with
        | nil => exact escapesLine ⟨isBackslash, rfl⟩
        | cons second rest => exact plain second rest isBackslash rfl
  | case4 => cases isOpen
  | case5 depth character rest goesOn ih =>
    rw [List.cons_append, spanRaw_unquoted, if_neg goesOn, ih isOpen]
    rfl

/-- A text that holds an end of an argument ends it there. -/
theorem exists_spanRaw_of_leftOpen (ended : leftOpen depth quoted text = none) :
    ∃ argument character more, spanRaw depth quoted text = (argument, character :: more) := by
  fun_induction leftOpen depth quoted text with
  | case1 => cases ended
  | case2 depth escaped rest ih =>
    obtain ⟨argument, character, more, spanned⟩ := ih ended
    rw [spanRaw_escape, spanned]
    exact ⟨_, _, _, rfl⟩
  | case3 depth character rest plain ih =>
    obtain ⟨argument, stop, more, spanned⟩ := ih ended
    rw [spanRaw_quoted plain, spanned]
    exact ⟨_, _, _, rfl⟩
  | case4 depth character rest stops =>
    rw [spanRaw_unquoted, if_pos stops]
    exact ⟨_, _, _, rfl⟩
  | case5 depth character rest goesOn ih =>
    obtain ⟨argument, stop, more, spanned⟩ := ih ended
    rw [spanRaw_unquoted, if_neg goesOn, spanned]
    exact ⟨_, _, _, rfl⟩

end EventScript
