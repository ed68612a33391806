import EventScript.Proofs.Rendering.Nesting
import EventScript.Session

/-!
# Parts of an argument

The argument of a property code ends at the parenthesis that closes it, and the
argument of a slice is cut at its commas.  Both leave out what stands in quotes,
but they do not mean the same by it: where the argument ends is decided as for
the tokens of a script, where a backslash in a quoted text takes the next
character along, while the cuts take every second quote for a closing one.

So a comma is cut at exactly if it lies outside parentheses and outside such
pairs of quotes.  If no quoted text holds an escaped quote, these are the commas
outside quoted texts.
-/

namespace EventScript

variable {depth behind : Nat} {text : List Char} {inQuotes : List Char → Prop} {character : Char}

/-! ## Depth outside quotes -/

/-- A text that begins outside quotes with `depth` open parentheses and ends
outside quotes with `behind` open parentheses.  `inQuotes` says what can stand
between two quotes that belong together. -/
inductive Leads (inQuotes : List Char → Prop) : (depth : Nat) → List Char → (behind : Nat) → Prop
  | done {depth : Nat} : Leads inQuotes depth [] depth
  | plain {depth behind : Nat} {character : Char} {rest : List Char}
      (notQuote : character ≠ '"') (others : Leads inQuotes (depthBehind depth character) rest behind) :
      Leads inQuotes depth (character :: rest) behind
  | quoted {depth behind : Nat} {inner rest : List Char} (inside : inQuotes inner)
      (others : Leads inQuotes depth rest behind) :
      Leads inQuotes depth ('"' :: (inner ++ '"' :: rest)) behind

/-- What stands between the quotes of a quoted text. -/
def IsQuotedText (inner : List Char) : Prop :=
  ∃ value, readQuoted (inner ++ ['"']) = some (value, [])

/-- What stands between a quote and the very next one. -/
def HasNoQuote (inner : List Char) : Prop :=
  '"' ∉ inner

/-- What is open behind a text where a backslash in quotes takes the next
character along: the number of parentheses, and whether a quote is open. -/
def openBehind : (depth : Nat) → (quoted : Bool) → List Char → Nat × Bool
  | depth, quoted, [] => (depth, quoted)
  | depth, true, '\\' :: _ :: rest => openBehind depth true rest
  | depth, true, character :: rest => openBehind depth (character != '"') rest
  | depth, false, character :: rest =>
    openBehind (depthBehind depth character) (character == '"') rest

/-- What is open behind a text where every quote opens or closes. -/
def openBehindPairs : (depth : Nat) → (quoted : Bool) → List Char → Nat × Bool
  | depth, quoted, [] => (depth, quoted)
  | depth, quoted, character :: rest =>
    openBehindPairs (if quoted then depth else depthBehind depth character)
      (quoted != (character == '"')) rest

/-- Whether a quote is escaped inside a quoted text. -/
def escapesQuote : (quoted : Bool) → List Char → Bool
  | _, [] => false
  | true, '\\' :: character :: rest => character == '"' || escapesQuote true rest
  | true, character :: rest => escapesQuote (character != '"') rest
  | false, character :: rest => escapesQuote (character == '"') rest

section Quoted

variable {character : Char} {text : List Char}
  (plain : ∀ escaped rest, character = '\\' → text = escaped :: rest → False)

include plain

theorem openBehind_quoted (depth : Nat) :
    openBehind depth true (character :: text) = openBehind depth (character != '"') text := by
  rw [openBehind]
  exact plain

theorem escapesQuote_quoted :
    escapesQuote true (character :: text) = escapesQuote (character != '"') text := by
  rw [escapesQuote]
  exact plain

end Quoted

/-- Without escaped quotes both ways to count come to the same. -/
theorem openBehind_eq_openBehindPairs {quoted : Bool} (plain : escapesQuote quoted text = false) :
    openBehind depth quoted text = openBehindPairs depth quoted text := by
  fun_induction openBehind depth quoted text with
  | case1 => rfl
  | case2 depth escaped rest ih =>
    rw [escapesQuote, Bool.or_eq_false_iff] at plain
    rw [ih plain.2]
    simp [openBehindPairs, plain.1]
  | case3 depth character rest notEscape ih =>
    rw [escapesQuote_quoted notEscape] at plain
    rw [ih plain, openBehindPairs, if_pos rfl, Bool.true_bne]
    rfl
  | case4 depth character rest ih =>
    rw [escapesQuote] at plain
    rw [ih plain, openBehindPairs, if_neg Bool.false_ne_true, Bool.false_bne]

theorem escapesQuote_of_append {quoted : Bool} {front behind : List Char}
    (plain : escapesQuote quoted (front ++ behind) = false) : escapesQuote quoted front = false := by
  fun_induction escapesQuote quoted front with
  | case1 => rfl
  | case2 escaped rest ih =>
    rw [List.cons_append, List.cons_append, escapesQuote, Bool.or_eq_false_iff] at plain
    rw [plain.1, ih plain.2]
    rfl
  | case3 character rest notEscape ih =>
    cases rest with
    | nil => cases character != '"' <;> rfl
    | cons second others =>
      rw [List.cons_append, escapesQuote_quoted] at plain
      · exact ih plain
      · intro _ _ isBackslash _
        exact notEscape second others isBackslash rfl
  | case4 character rest ih =>
    rw [List.cons_append, escapesQuote] at plain
    exact ih plain

/-! ## Counting and quotes that belong together -/

/-- A text up to its closing quote, and what follows it outside quotes. -/
def Closes (inQuotes : List Char → Prop) (depth : Nat) (text : List Char) (behind : Nat) : Prop :=
  ∃ inner rest, text = inner ++ '"' :: rest ∧ inQuotes inner ∧ Leads inQuotes depth rest behind

theorem leads_quote_iff :
    Leads inQuotes depth ('"' :: text) behind ↔ Closes inQuotes depth text behind := by
  constructor
  · intro leads
    cases leads with
    | plain notQuote => exact absurd rfl notQuote
    | quoted inside others => exact ⟨_, _, rfl, inside, others⟩
  · rintro ⟨inner, rest, rfl, inside, others⟩
    exact .quoted inside others

theorem leads_plain_iff (notQuote : character ≠ '"') :
    Leads inQuotes depth (character :: text) behind ↔
      Leads inQuotes (depthBehind depth character) text behind := by
  constructor
  · intro leads
    cases leads with
    | plain _ others => exact others
    | quoted => exact absurd rfl notQuote
  · exact .plain notQuote

theorem leads_nil_iff : Leads inQuotes depth [] behind ↔ depth = behind := by
  constructor
  · rintro ⟨⟩
    rfl
  · rintro rfl
    exact .done

theorem not_closes_nil : ¬Closes inQuotes depth [] behind := by
  rintro ⟨inner, rest, split, -, -⟩
  simp at split

/-- Where nothing stands between it and the last one, a quote closes. -/
theorem closes_quote_iff (empty : inQuotes []) (closed : ∀ inner, ¬inQuotes ('"' :: inner)) :
    Closes inQuotes depth ('"' :: text) behind ↔ Leads inQuotes depth text behind := by
  constructor
  · rintro ⟨inner, rest, split, inside, leads⟩
    cases inner with
    | nil =>
      cases split
      exact leads
    | cons first inner =>
      cases split
      exact absurd inside (closed inner)
  · exact fun leads => ⟨[], text, rfl, empty, leads⟩

/-- What closes nothing belongs to what stands in the quotes. -/
theorem closes_append_iff {inQuotes : List Char → Prop} {depth behind : Nat}
    {front text : List Char} (inside : ∀ inner, inQuotes (front ++ inner) ↔ inQuotes inner)
    (longer : ∀ inner rest, front ++ text = inner ++ '"' :: rest → inQuotes inner →
      front <+: inner) :
    Closes inQuotes depth (front ++ text) behind ↔ Closes inQuotes depth text behind := by
  constructor
  · rintro ⟨inner, rest, split, closed, leads⟩
    obtain ⟨others, rfl⟩ := longer inner rest split closed
    rw [List.append_assoc, List.append_cancel_left_eq] at split
    exact ⟨others, rest, split, (inside others).mp closed, leads⟩
  · rintro ⟨inner, rest, rfl, closed, leads⟩
    exact ⟨front ++ inner, rest, by rw [List.append_assoc], (inside inner).mpr closed, leads⟩

theorem closes_cons_iff (notQuote : character ≠ '"')
    (inside : ∀ inner, inQuotes (character :: inner) ↔ inQuotes inner) :
    Closes inQuotes depth (character :: text) behind ↔ Closes inQuotes depth text behind := by
  apply @closes_append_iff inQuotes depth behind [character] text inside
  intro inner rest split _
  cases inner with
  | nil =>
    cases split
    exact absurd rfl notQuote
  | cons first inner =>
    cases split
    exact List.prefix_append [character] inner

/-- Every quote closes the one before it. -/
theorem openBehindPairs_eq_iff :
    (openBehindPairs depth false text = (behind, false) ↔ Leads HasNoQuote depth text behind) ∧
      (openBehindPairs depth true text = (behind, false) ↔ Closes HasNoQuote depth text behind) := by
  induction text generalizing depth with
  | nil => simp [openBehindPairs, leads_nil_iff, not_closes_nil]
  | cons character text ih =>
    rw [openBehindPairs, openBehindPairs, if_neg Bool.false_ne_true, if_pos rfl, Bool.false_bne,
      Bool.true_bne]
    by_cases isQuote : character = '"'
    · subst isQuote
      rw [leads_quote_iff, closes_quote_iff List.not_mem_nil fun inner => by simp [HasNoQuote],
        ← ih.1, ← ih.2]
      exact ⟨Iff.rfl, Iff.rfl⟩
    · rw [leads_plain_iff isQuote, closes_cons_iff isQuote fun inner => by
          simp [HasNoQuote, Ne.symm isQuote],
        ← ih.1, ← ih.2, beq_eq_false_iff_ne.mpr isQuote]
      exact ⟨Iff.rfl, Iff.rfl⟩

/-! ## Quoted texts -/

theorem isQuotedText_nil : IsQuotedText [] :=
  ⟨[], rfl⟩

theorem not_isQuotedText_quote (inner : List Char) : ¬IsQuotedText ('"' :: inner) := by
  rintro ⟨value, read⟩
  simp [readQuoted] at read

theorem not_isQuotedText_backslash : ¬IsQuotedText ['\\'] := by
  rintro ⟨value, read⟩
  simp [readQuoted] at read

theorem isQuotedText_escape_iff (escaped : Char) (inner : List Char) :
    IsQuotedText ('\\' :: escaped :: inner) ↔ IsQuotedText inner := by
  simp [IsQuotedText, readQuoted]

theorem isQuotedText_cons_iff (notQuote : character ≠ '"') (notBackslash : character ≠ '\\')
    (inner : List Char) : IsQuotedText (character :: inner) ↔ IsQuotedText inner := by
  rw [IsQuotedText, IsQuotedText, List.cons_append, readQuoted]
  · simp
  · exact notQuote
  · exact fun _ _ isBackslash _ => notBackslash isBackslash

/-- A quote is closed as it is in the quoted texts of a script. -/
theorem openBehind_eq_iff {depth behind : Nat} {quoted : Bool} {text : List Char} :
    openBehind depth quoted text = (behind, false) ↔
      if quoted then Closes IsQuotedText depth text behind
      else Leads IsQuotedText depth text behind := by
  fun_induction openBehind depth quoted text with
  | case1 depth quoted => cases quoted <;> simp [leads_nil_iff, not_closes_nil]
  | case2 depth escaped rest ih =>
    rw [ih, if_pos rfl, if_pos rfl]
    symm
    apply @closes_append_iff _ depth behind ['\\', escaped] rest (isQuotedText_escape_iff escaped)
    intro inner others split closed
    cases inner with
    | nil => cases split
    | cons first inner =>
      cases inner with
      | nil =>
        cases split
        exact absurd closed not_isQuotedText_backslash
      | cons second inner =>
        cases split
        exact List.prefix_append ['\\', escaped] inner
  | case3 depth character rest notEscape ih =>
    rw [ih, if_pos rfl]
    by_cases isQuote : character = '"'
    · subst isQuote
      rw [closes_quote_iff isQuotedText_nil not_isQuotedText_quote]
      rfl
    · by_cases isBackslash : character = '\\'
      · -- a backslash at the end of the text leaves the quote open
        cases rest with
        | cons second others => exact absurd rfl (notEscape second others isBackslash)
        | nil =>
          have unclosed : ¬Closes IsQuotedText depth [character] behind := by
            rintro ⟨inner, others, split, -, -⟩
            cases inner with
            | nil =>
              cases split
              exact isQuote rfl
            | cons first inner => simp at split
          rw [bne_iff_ne.mpr isQuote, if_pos rfl]
          exact iff_of_false not_closes_nil unclosed
      · rw [closes_cons_iff isQuote (isQuotedText_cons_iff isQuote isBackslash),
          bne_iff_ne.mpr isQuote, if_pos rfl]
  | case4 depth character rest ih =>
    rw [ih, if_neg Bool.false_ne_true]
    by_cases isQuote : character = '"'
    · subst isQuote
      rw [leads_quote_iff]
      rfl
    · rw [leads_plain_iff isQuote, beq_eq_false_iff_ne.mpr isQuote, if_neg Bool.false_ne_true]

/-! ## Cuts -/

/-- Parts between commas, cut behind `front`. -/
inductive CutAt : List (List Char) → (front : List Char) → Prop
  | here (part next : List Char) (others : List (List Char)) : CutAt (part :: next :: others) part
  | later {others : List (List Char)} {front : List Char} (part : List Char)
      (cut : CutAt others front) : CutAt (part :: others) (part ++ ',' :: front)

/-- A comma that is cut at begins a part, and every other character goes to the
part behind it. -/
theorem splitParts_cons (depth : Nat) (quoted : Bool) (character : Char) (text : List Char) :
    ∃ first others,
      splitParts (if quoted then depth else depthBehind depth character)
        (quoted != (character == '"')) text = first :: others ∧
      splitParts depth quoted (character :: text) =
        if character == ',' && !quoted && depth == 0 then [] :: first :: others
        else (character :: first) :: others := by
  have nonempty (depth : Nat) (quoted : Bool) (text : List Char) :
      splitParts depth quoted text ≠ [] := by
    fun_cases splitParts depth quoted text <;> simp
  have split := List.exists_cons_of_ne_nil (nonempty
    (if quoted then depth else depthBehind depth character) (quoted != (character == '"')) text)
  obtain ⟨first, others, behind⟩ := split
  refine ⟨first, others, behind, ?_⟩
  rw [splitParts]
  by_cases isCut : (character == ',' && !quoted && depth == 0) = true
  · rw [if_pos isCut, if_pos isCut, ← behind]
    simp only [Bool.and_eq_true, beq_iff_eq, Bool.not_eq_true'] at isCut
    obtain ⟨⟨rfl, rfl⟩, rfl⟩ := isCut
    rfl
  · rw [if_neg isCut, if_neg isCut]
    unfold depthBehind at behind
    dsimp only
    rw [behind]

/-- Joining the parts with commas gives back the text. -/
theorem intercalate_splitParts (depth : Nat) (quoted : Bool) (text : List Char) :
    [','].intercalate (splitParts depth quoted text) = text := by
  induction text generalizing depth quoted with
  | nil => rfl
  | cons character text ih =>
    obtain ⟨first, others, behind, split⟩ := splitParts_cons depth quoted character text
    have joined := ih (if quoted then depth else depthBehind depth character)
      (quoted != (character == '"'))
    rw [behind] at joined
    rw [split]
    split
    · rename_i isCut
      simp only [Bool.and_eq_true, beq_iff_eq] at isCut
      rw [List.intercalate_cons_cons, joined, isCut.1.1]
      rfl
    · cases others with
      | nil => simpa using joined
      | cons next others =>
        rw [List.intercalate_cons_cons] at joined ⊢
        rw [← joined]
        rfl

theorem cutAt_cons_iff {first front : List Char} {others : List (List Char)} :
    CutAt ((character :: first) :: others) (character :: front) ↔ CutAt (first :: others) front := by
  constructor
  · intro cut
    generalize parts_eq : (character :: first) :: others = parts at cut
    generalize front_eq : character :: front = whole at cut
    cases cut with
    | here =>
      cases parts_eq
      cases front_eq
      exact .here ..
    | later part cut =>
      cases parts_eq
      cases front_eq
      exact .later first cut
  · intro cut
    cases cut with
    | here => exact .here ..
    | later _ cut => exact .later (character :: first) cut

/-- A comma is cut at where no parenthesis and no quote is open in front of it. -/
theorem cutAt_splitParts_iff {depth : Nat} {quoted : Bool} {front back : List Char} :
    CutAt (splitParts depth quoted (front ++ ',' :: back)) front ↔
      openBehindPairs depth quoted front = (0, false) := by
  induction front generalizing depth quoted with
  | nil =>
    obtain ⟨first, others, -, split⟩ := splitParts_cons depth quoted ',' back
    rw [List.nil_append, split, openBehindPairs, Prod.mk.injEq]
    constructor
    · intro cut
      by_cases isCut : (',' == ',' && !quoted && depth == 0) = true
      · simpa [and_comm] using isCut
      · rw [if_neg isCut] at cut
        cases cut
    · rintro ⟨rfl, rfl⟩
      exact .here ..
  | cons character front ih =>
    obtain ⟨first, others, behind, split⟩ :=
      splitParts_cons depth quoted character (front ++ ',' :: back)
    rw [List.cons_append, split, openBehindPairs, ← ih, behind]
    split
    · rename_i isCut
      simp only [Bool.and_eq_true, beq_iff_eq] at isCut
      rw [isCut.1.1]
      constructor
      · intro cut
        generalize front_eq : ',' :: front = whole at cut
        cases cut with
        | here => cases front_eq
        | later _ cut =>
          cases front_eq
          exact cut
      · exact fun cut => .later [] cut
    · exact cutAt_cons_iff

/-! ## Arguments in parentheses -/

/-- The parenthesis that closes an argument stands outside the quoted texts and
the parentheses of the argument. -/
theorem openBehind_of_readBalanced {quoted : Bool} {argument left : List Char}
    (read : Segment.readBalanced depth quoted text = some (argument, left)) :
    openBehind depth quoted argument = (0, false) := by
  fun_induction Segment.readBalanced depth quoted text generalizing argument left with
  | case1 => cases read
  | case2 depth character rest ih =>
    obtain ⟨⟨inner, behind⟩, readInner, same⟩ := Option.map_eq_some_iff.mp read
    obtain ⟨rfl, rfl⟩ := Prod.mk.inj same
    rw [openBehind]
    exact ih readInner
  | case3 depth character rest notEscape ih =>
    obtain ⟨inner, readInner, rfl⟩ := exists_of_map_fst read
    rw [openBehind_quoted]
    · exact ih readInner
    · intro escaped others isBackslash split
      rw [Segment.readBalanced_split readInner, split] at notEscape
      exact notEscape escaped _ isBackslash rfl
  | case4 depth character rest closing =>
    obtain ⟨rfl, rfl⟩ := Prod.mk.inj (Option.some.inj read)
    simp only [Bool.and_eq_true, beq_iff_eq] at closing
    rw [closing.2]
    rfl
  | case5 =>
    rename_i ih
    obtain ⟨argument, readInner, rfl⟩ := exists_of_map_fst read
    rw [openBehind]
    exact ih readInner

theorem leads_of_readArgument {left : List Char} {argument : String}
    (delimited : Segment.readArgument text = some (argument, left)) :
    Leads IsQuotedText 0 argument.toList 0 := by
  unfold Segment.readArgument at delimited
  split at delimited
  · obtain ⟨inner, read, rfl⟩ := exists_of_map_fst delimited
    rw [String.toList_ofList]
    exact openBehind_eq_iff.mp (openBehind_of_readBalanced read)
  · cases delimited

namespace Segment

/-- An argument in parentheses is cut at exactly those of its commas that lie
outside parentheses and outside pairs of successive quotes, and joining the parts
with commas gives it back.  If it holds no escaped quote, it is cut at exactly
the commas outside parentheses and outside quoted texts. -/
theorem cutAt_argument {text left : List Char} {argument : String}
    (delimited : readArgument text = some (argument, left)) :
    ∃ parts, argumentParts argument = parts.map (fun part => String.ofList (Text.trimChars part)) ∧
      [','].intercalate parts = argument.toList ∧
      Leads IsQuotedText 0 argument.toList 0 ∧
      ∀ front back, argument.toList = front ++ ',' :: back →
        (CutAt parts front ↔ Leads HasNoQuote 0 front 0) ∧
        (escapesQuote false argument.toList = false →
          (CutAt parts front ↔ Leads IsQuotedText 0 front 0)) := by
  refine ⟨splitParts 0 false argument.toList, rfl, intercalate_splitParts 0 false _,
    leads_of_readArgument delimited, fun front back split => ?_⟩
  rw [split, cutAt_splitParts_iff]
  refine ⟨openBehindPairs_eq_iff.1, fun plain => ?_⟩
  rw [← openBehind_eq_openBehindPairs (escapesQuote_of_append plain), openBehind_eq_iff,
    if_neg Bool.false_ne_true]

/-- A call with two arguments, and a quoted text with a comma, a parenthesis and
an escaped backslash at its end. -/
theorem cutAt_argument_backslash :
    readArgument "(0,f(1,2),\"a,)\\\\\")!".toList = some ("0,f(1,2),\"a,)\\\\\"", ['!']) ∧
      escapesQuote false "0,f(1,2),\"a,)\\\\\"".toList = false ∧
      ∃ parts : List (List Char), parts.length = 3 ∧
        ∀ front back, "0,f(1,2),\"a,)\\\\\"".toList = front ++ ',' :: back →
          (CutAt parts front ↔ Leads IsQuotedText 0 front 0) := by
  have delimited : readArgument "(0,f(1,2),\"a,)\\\\\")!".toList =
      some ("0,f(1,2),\"a,)\\\\\"", ['!']) := by
    decide
  have plain : escapesQuote false "0,f(1,2),\"a,)\\\\\"".toList = false := by
    decide
  obtain ⟨parts, trimmed, -, -, cuts⟩ := cutAt_argument delimited
  refine ⟨delimited, plain, parts, ?_, fun front back split => (cuts front back split).2 plain⟩
  have count := congrArg List.length trimmed
  rw [List.length_map] at count
  exact count.symm.trans (by decide)

/-- Behind an escaped quote a comma inside a quoted text is cut at, and the slice
is kept as text. -/
theorem cut_behind_escaped_quote :
    readArgument "(1,2,\"a\\\",b\")".toList = some ("1,2,\"a\\\",b\"", []) ∧
      argumentParts "1,2,\"a\\\",b\"" = ["1", "2", "\"a\\\"", "b\""] ∧
      CutAt (splitParts 0 false "1,2,\"a\\\",b\"".toList) "1,2,\"a\\\"".toList ∧
      ¬Leads IsQuotedText 0 "1,2,\"a\\\"".toList 0 ∧
      (({ options := {} } : Session).expandText "#e(1,2,\"a\\\",b\")").1 =
        "\"#e(1,2,\\\"a\\\\\\\",b\\\")\"" := by
  have outside := @openBehind_eq_iff 0 0 false "1,2,\"a\\\"".toList
  rw [if_neg Bool.false_ne_true] at outside
  refine ⟨by decide, by decide, ?_, ?_, by decide⟩
  · exact @cutAt_splitParts_iff 0 false "1,2,\"a\\\"".toList "b\"".toList |>.mpr (by decide)
  · rw [← outside]
    decide

end Segment

end EventScript
