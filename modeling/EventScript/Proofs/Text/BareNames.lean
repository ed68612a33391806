import EventScript.Mention
import Mathlib.Tactic.Common

/-!
# Bare names in code

`OccursBare word code` says where a word has to stand to count as a name that
code uses: outside the string literals, not behind a point or a character of a
name, and not in front of one.  The scan of generated code finds a word exactly
if it occurs so.
-/

namespace EventScript

variable {word : List UInt8}

/-- Whether a string literal is open behind a text that begins inside or outside
one.  A backslash inside a literal escapes the byte behind it. -/
def literalOpen : (quoted : Bool) → List UInt8 → Bool
  | quoted, [] => quoted
  | true, byte :: rest =>
    if byte == escapeByte then
      match rest with
      | _ :: rest => literalOpen true rest
      | [] => true
    else literalOpen (byte != quoteByte) rest
  | false, byte :: rest => literalOpen (byte == quoteByte) rest

/-- A word occurs as a bare name in a text that stands behind a given byte,
inside or outside a string literal. -/
def OccursFrom (word : List UInt8) (previous : Option UInt8) (quoted : Bool)
    (text : List UInt8) : Prop :=
  ∃ before behind, text = before ++ word ++ behind ∧ literalOpen quoted before = false ∧
    canBegin (before.getLast?.or previous) = true ∧ canEnd behind = true

/-- A word occurs in code as a bare name outside string literals. -/
def OccursBare (word code : String) : Prop :=
  OccursFrom (utf8Bytes word) none false (utf8Bytes code)

theorem namedHere_iff {text : List UInt8} {previous : Option UInt8} :
    namedHere word previous text = true ↔
      ∃ behind, text = word ++ behind ∧ canBegin previous = true ∧ canEnd behind = true := by
  rw [namedHere, Bool.and_eq_true, Bool.and_eq_true, List.isPrefixOf_iff_prefix]
  constructor
  · rintro ⟨⟨⟨behind, rfl⟩, begins⟩, ends⟩
    rw [List.drop_left] at ends
    exact ⟨behind, rfl, begins, ends⟩
  · rintro ⟨behind, rfl, begins, ends⟩
    rw [List.drop_left]
    exact ⟨⟨List.prefix_append _ _, begins⟩, ends⟩

/-- A word stands at the front of a text, or behind its first byte. -/
theorem occursFrom_cons {rest : List UInt8} {previous : Option UInt8} {quoted : Bool} {byte : UInt8} :
    OccursFrom word previous quoted (byte :: rest) ↔
      (quoted = false ∧ namedHere word previous (byte :: rest) = true) ∨
        ∃ before behind, rest = before ++ word ++ behind ∧
          literalOpen quoted (byte :: before) = false ∧
          canBegin (before.getLast?.or (some byte)) = true ∧ canEnd behind = true := by
  have last (before : List UInt8) :
      (byte :: before).getLast?.or previous = before.getLast?.or (some byte) := by
    rw [List.getLast?_cons]
    cases before.getLast? <;> rfl
  rw [namedHere_iff]
  constructor
  · rintro ⟨before, behind, split, closed, begins, ends⟩
    cases before with
    | nil =>
      apply Or.inl
      exact ⟨closed, behind, split, begins, ends⟩
    | cons first before =>
      injection split with same split
      subst same
      rw [last] at begins
      apply Or.inr
      exact ⟨before, behind, split, closed, begins, ends⟩
  · rintro (⟨outside, behind, split, begins, ends⟩ | ⟨before, behind, split, closed, begins, ends⟩)
    · exact ⟨[], behind, split, outside, begins, ends⟩
    · rw [← last] at begins
      exact ⟨byte :: before, behind, congrArg (byte :: ·) split, closed, begins, ends⟩

/-- The scan finds a word that does not begin with a quote exactly where the
word occurs as a bare name. -/
theorem mentionedFrom_iff {first : UInt8} (begins : word.head? = some first)
    (unquoted : first ≠ quoteByte) (previous : Option UInt8) (quoted : Bool) (text : List UInt8) :
    mentionedFrom word previous quoted text = true ↔ OccursFrom word previous quoted text := by
  have nonempty : word ≠ [] := by
    rintro rfl
    cases begins
  fun_induction mentionedFrom word previous quoted text with
  | case1 previous quoted =>
    simp [OccursFrom, nonempty]
  | case2 previous byte escapes escaped rest ih =>
    -- Neither the backslash nor the byte behind it can be in front of a word.
    apply ih.trans
    rw [occursFrom_cons]
    constructor
    · rintro ⟨before, behind, split, closed, condition⟩
      apply Or.inr
      refine ⟨escaped :: before, behind, congrArg (escaped :: ·) split, ?_, ?_⟩
      · simpa only [literalOpen, escapes, if_true] using closed
      · rw [List.getLast?_cons]
        cases last : before.getLast? <;> simpa [last] using condition
    · rintro (⟨inside, -⟩ | ⟨before, behind, split, closed, condition⟩)
      · cases inside
      · cases before with
        | nil => simp [literalOpen, escapes] at closed
        | cons second before =>
          injection split with same split
          subst same
          refine ⟨before, behind, split, ?_, ?_⟩
          · simpa only [literalOpen, escapes, if_true] using closed
          · rw [List.getLast?_cons] at condition
            cases last : before.getLast? <;> simpa [last] using condition
  | case3 previous byte escapes =>
    rw [occursFrom_cons]
    simp [nonempty]
  | case4 previous byte rest plain ih =>
    apply ih.trans
    have step (before : List UInt8) :
        literalOpen true (byte :: before) = literalOpen (byte != quoteByte) before := by
      cases before <;> simp [literalOpen, plain]
    rw [occursFrom_cons]
    simp [OccursFrom, step]
  | case5 previous byte rest quote ih =>
    have notNamed : namedHere word previous (byte :: rest) ≠ true := by
      rw [Ne, namedHere_iff]
      rintro ⟨behind, split, -⟩
      have same : first = byte := by
        have heads := congrArg List.head? split
        rw [List.head?_append, begins] at heads
        exact (Option.some.inj heads).symm
      exact unquoted (same.trans (eq_of_beq quote))
    apply ih.trans
    rw [occursFrom_cons]
    simp [OccursFrom, literalOpen, quote, notNamed]
  | case6 previous byte rest plain ih =>
    rw [Bool.or_eq_true, occursFrom_cons]
    apply (or_congr_right ih).trans
    simp [OccursFrom, literalOpen, plain]

/-- The scan of code finds a word made of bytes of a name exactly if it occurs
in the code as a bare name. -/
theorem mentions_iff {word : String} {first : UInt8}
    (begins : (utf8Bytes word).head? = some first) (unquoted : first ≠ quoteByte)
    (code : String) : mentions code word = true ↔ OccursBare word code :=
  mentionedFrom_iff begins unquoted none false (utf8Bytes code)

end EventScript
