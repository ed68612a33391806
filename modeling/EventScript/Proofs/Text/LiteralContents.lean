import EventScript.Callback
import EventScript.Proofs.Text.BareNames
import EventScript.Proofs.Text.Bytes
import EventScript.Text.Quoted

/-!
# What a literal holds

Generated code is scanned for names byte by byte, and a literal is written
character by character.  The two keep in step: whatever text it holds, the scan
leaves the literal right behind its closing quote and finds nothing inside.  So
the text of a literal has no influence on the names that code is found to use,
nor on the parameters of a callback.

`ClosedLiterals` says without the scan where code is outside its literals.
-/

namespace EventScript

variable {byte : UInt8}

/-! ## Outside of literals -/

/-- Bytes between the quotes of a literal: a backslash takes the byte behind it
along, and no other quote or backslash occurs. -/
inductive LiteralBytes : List UInt8 → Prop
  | done : LiteralBytes []
  | plain {byte : UInt8} {rest : List UInt8} (notQuote : byte ≠ quoteByte)
      (notEscape : byte ≠ escapeByte) (others : LiteralBytes rest) : LiteralBytes (byte :: rest)
  | escaped (byte : UInt8) {rest : List UInt8} (others : LiteralBytes rest) :
      LiteralBytes (escapeByte :: byte :: rest)

/-- Code in which every literal is closed, so that it ends outside of them. -/
inductive ClosedLiterals : List UInt8 → Prop
  | done : ClosedLiterals []
  | plain {byte : UInt8} {rest : List UInt8} (notQuote : byte ≠ quoteByte)
      (others : ClosedLiterals rest) : ClosedLiterals (byte :: rest)
  | literal {inner rest : List UInt8} (inside : LiteralBytes inner)
      (others : ClosedLiterals rest) : ClosedLiterals (quoteByte :: (inner ++ quoteByte :: rest))

theorem LiteralBytes.append {first second : List UInt8} (inside : LiteralBytes first)
    (insideSecond : LiteralBytes second) : LiteralBytes (first ++ second) := by
  induction inside with
  | done => exact insideSecond
  | plain notQuote notEscape _ ih =>
    exact .plain notQuote notEscape ih
  | escaped byte _ ih => exact .escaped byte ih

theorem literalBytes_of_plain {bytes : List UInt8} (noQuote : quoteByte ∉ bytes)
    (noEscape : escapeByte ∉ bytes) : LiteralBytes bytes := by
  induction bytes with
  | nil => exact .done
  | cons byte others ih =>
    rw [List.mem_cons, not_or] at noQuote noEscape
    exact .plain (Ne.symm noQuote.1) (Ne.symm noEscape.1)
      (ih noQuote.2 noEscape.2)

theorem literalOpen_true_cons (notEscape : byte ≠ escapeByte) (rest : List UInt8) :
    literalOpen true (byte :: rest) = literalOpen (byte != quoteByte) rest := by
  cases rest <;> simp [literalOpen, notEscape]

/-- A literal is over behind its closing quote. -/
theorem literalOpen_literal {inner : List UInt8} (inside : LiteralBytes inner)
    (rest : List UInt8) :
    literalOpen true (inner ++ quoteByte :: rest) = literalOpen false rest := by
  induction inside with
  | done => exact literalOpen_true_cons (by decide) rest
  | plain notQuote notEscape _ ih =>
    rw [List.cons_append, literalOpen_true_cons notEscape, bne_iff_ne.mpr notQuote]
    exact ih
  | escaped byte _ ih =>
    rw [List.cons_append, List.cons_append, literalOpen, if_pos (beq_self_eq_true _)]
    exact ih

/-- What has to stand behind the beginning of a literal, or outside of one, for
code to end outside. -/
def ClosesFrom (quoted : Bool) (text : List UInt8) : Prop :=
  if quoted then ∃ inner rest, text = inner ++ quoteByte :: rest ∧ LiteralBytes inner ∧
      ClosedLiterals rest
    else ClosedLiterals text

theorem closesFrom_of_literalOpen {quoted : Bool} {text : List UInt8}
    (closed : literalOpen quoted text = false) : ClosesFrom quoted text := by
  fun_induction literalOpen quoted text with
  | case1 quoted =>
    subst closed
    exact .done
  | case2 byte escapes escaped rest ih =>
    obtain ⟨inner, behind, rfl, inside, others⟩ := ih closed
    rw [eq_of_beq escapes]
    exact ⟨escapeByte :: escaped :: inner, behind, rfl, .escaped escaped inside, others⟩
  | case3 => cases closed
  | case4 byte rest notEscape ih =>
    have later := ih closed
    by_cases isQuote : byte = quoteByte
    · subst isQuote
      exact ⟨[], rest, rfl, .done, later⟩
    · rw [bne_iff_ne.mpr isQuote] at later
      obtain ⟨inner, behind, rfl, inside, others⟩ := later
      exact ⟨byte :: inner, behind, rfl, .plain isQuote (by simpa using notEscape) inside, others⟩
  | case5 byte rest ih =>
    have later := ih closed
    by_cases isQuote : byte = quoteByte
    · subst isQuote
      obtain ⟨inner, behind, rfl, inside, others⟩ := later
      exact .literal inside others
    · rw [beq_eq_false_iff_ne.mpr isQuote] at later
      exact .plain isQuote later

/-- No literal is open behind code exactly if all its literals are closed. -/
theorem literalOpen_eq_false_iff {text : List UInt8} :
    literalOpen false text = false ↔ ClosedLiterals text := by
  constructor
  · exact closesFrom_of_literalOpen
  · intro closed
    induction closed with
    | done => rfl
    | plain notQuote _ ih =>
      rwa [literalOpen, beq_eq_false_iff_ne.mpr notQuote]
    | literal inside _ ih =>
      rwa [literalOpen, beq_self_eq_true, literalOpen_literal inside]

/-! ## The bytes of a literal -/

/-- No quote and no backslash stands alone in the spelling of a character. -/
theorem literalBytes_escape (character : Char) :
    LiteralBytes ((Text.escape character).flatMap String.utf8EncodeChar) := by
  unfold Text.escape
  split
  case h_6 notEscape notQuote _ _ _ =>
    rw [List.flatMap_singleton]
    exact literalBytes_of_plain (Text.notMem_utf8EncodeChar notQuote (by decide))
      (Text.notMem_utf8EncodeChar notEscape (by decide))
  all_goals exact .escaped _ .done

theorem literalBytes_flatMap_escape (text : List Char) :
    LiteralBytes ((text.flatMap Text.escape).flatMap String.utf8EncodeChar) := by
  induction text with
  | nil => exact .done
  | cons character rest ih =>
    rw [List.flatMap_cons, List.flatMap_append]
    exact (literalBytes_escape character).append ih

theorem utf8Bytes_append (first second : String) :
    utf8Bytes (first ++ second) = utf8Bytes first ++ utf8Bytes second := by
  rw [utf8Bytes, String.toList_append, List.flatMap_append, utf8Bytes, utf8Bytes]

/-- The bytes of a literal stand between two quotes. -/
theorem exists_utf8Bytes_quote (text : String) :
    ∃ inner, utf8Bytes (Text.quote text) = quoteByte :: (inner ++ [quoteByte]) ∧
      LiteralBytes inner := by
  refine ⟨_, ?_, literalBytes_flatMap_escape text.toList⟩
  rw [utf8Bytes, Text.quote, Text.quoteChars, String.toList_ofList, List.flatMap_cons,
    List.flatMap_append]
  rfl

/-! ## The scan over a literal -/

theorem mentionedFrom_true_cons (word : List UInt8) (previous : Option UInt8)
    (notEscape : byte ≠ escapeByte) (rest : List UInt8) :
    mentionedFrom word previous true (byte :: rest) =
      mentionedFrom word (some byte) (byte != quoteByte) rest := by
  cases rest <;> simp [mentionedFrom, notEscape]

theorem mentionedFrom_false_cons (word : List UInt8) (previous : Option UInt8)
    (notQuote : byte ≠ quoteByte) (rest : List UInt8) :
    mentionedFrom word previous false (byte :: rest) =
      (namedHere word previous (byte :: rest) || mentionedFrom word (some byte) false rest) := by
  simp [mentionedFrom, notQuote]

/-- The scan leaves a literal behind its closing quote and finds nothing in it. -/
theorem mentionedFrom_literal (word : List UInt8) {inner : List UInt8}
    (inside : LiteralBytes inner) (previous : Option UInt8) (rest : List UInt8) :
    mentionedFrom word previous true (inner ++ quoteByte :: rest) =
      mentionedFrom word (some quoteByte) false rest := by
  induction inside generalizing previous with
  | done => exact mentionedFrom_true_cons word previous (by decide) rest
  | plain notQuote notEscape _ ih =>
    rw [List.cons_append, mentionedFrom_true_cons word previous notEscape,
      bne_iff_ne.mpr notQuote]
    exact ih _
  | escaped byte _ ih =>
    rw [List.cons_append, List.cons_append, mentionedFrom, if_pos (beq_self_eq_true _)]
    exact ih _

/-- Whether a word without a quote stands in front of a quote does not depend on
what is behind the quote. -/
theorem namedHere_append_quote {word : List UInt8} (noQuote : quoteByte ∉ word)
    (previous : Option UInt8) (before first second : List UInt8) :
    namedHere word previous (before ++ quoteByte :: first) =
      namedHere word previous (before ++ quoteByte :: second) := by
  have oneWay {first second : List UInt8}
      (named : namedHere word previous (before ++ quoteByte :: first) = true) :
      namedHere word previous (before ++ quoteByte :: second) = true := by
    rw [namedHere_iff] at named ⊢
    obtain ⟨behind, split, begins, ends⟩ := named
    -- the word ends in front of the quote, at the latest
    obtain ⟨more, rfl⟩ : word <+: before := by
      have upToQuote : before ++ [quoteByte] <+: before ++ quoteByte :: first := ⟨first, by simp⟩
      rcases List.prefix_or_prefix_of_prefix ⟨behind, split.symm⟩ upToQuote with within | beyond
      · rcases List.prefix_concat_iff.mp within with isWhole | within
        · exact absurd (isWhole ▸ List.mem_concat_self) noQuote
        · exact within
      · exact absurd (beyond.subset (List.mem_concat_self)) noQuote
    rw [List.append_assoc, List.append_cancel_left_eq] at split
    refine ⟨more ++ quoteByte :: second, List.append_assoc _ _ _, begins, ?_⟩
    rw [← split] at ends
    cases more with
    | nil => exact ends
    | cons byte others => exact ends
  rw [Bool.eq_iff_iff]
  exact ⟨oneWay, oneWay⟩

/-- Two texts behind closed code that both begin with a quote are scanned alike
if this holds of the texts alone. -/
theorem mentionedFrom_append_congr {word : List UInt8} (noQuote : quoteByte ∉ word)
    {first second : List UInt8}
    (alike : ∀ previous, mentionedFrom word previous false (quoteByte :: first) =
      mentionedFrom word previous false (quoteByte :: second))
    {before : List UInt8} (closed : ClosedLiterals before) (previous : Option UInt8) :
    mentionedFrom word previous false (before ++ quoteByte :: first) =
      mentionedFrom word previous false (before ++ quoteByte :: second) := by
  induction closed generalizing previous with
  | done => exact alike previous
  | @plain byte rest notQuote _ ih =>
    have here := namedHere_append_quote noQuote previous (byte :: rest) first second
    simp only [List.cons_append] at here ⊢
    rw [mentionedFrom_false_cons word previous notQuote, ih, here,
      mentionedFrom_false_cons word previous notQuote]
  | literal inside _ ih =>
    simp only [List.cons_append, List.append_assoc, mentionedFrom, beq_self_eq_true, if_true,
      mentionedFrom_literal word inside, ih]

/-! ## Words in code -/

/-- A word that can be a name: letters, digits and underscores. -/
structure IsWord (word : String) : Prop where
  nonempty : word ≠ ""
  named : ∀ byte ∈ utf8Bytes word, isNameByte byte = true

/-- A word stands in code as a name of its own: outside the literals, behind
neither a byte of a name nor a point, and not in front of a byte of a name. -/
def StandsBare (word code : String) : Prop :=
  ∃ before behind, utf8Bytes code = before ++ utf8Bytes word ++ behind ∧ ClosedLiterals before ∧
    (∀ byte ∈ before.getLast?, isNameByte byte = false ∧ byte ≠ pointByte) ∧
    ∀ byte ∈ behind.head?, isNameByte byte = false

theorem canBegin_iff {previous : Option UInt8} :
    canBegin previous = true ↔ ∀ byte ∈ previous, isNameByte byte = false ∧ byte ≠ pointByte := by
  cases previous <;> simp [canBegin]

theorem canEnd_iff {behind : List UInt8} :
    canEnd behind = true ↔ ∀ byte ∈ behind.head?, isNameByte byte = false := by
  cases behind <;> simp [canEnd]

theorem occursBare_iff_standsBare {word code : String} :
    OccursBare word code ↔ StandsBare word code := by
  simp only [OccursBare, OccursFrom, StandsBare, literalOpen_eq_false_iff, canBegin_iff,
    canEnd_iff, Option.or_none]

namespace IsWord

variable {word : String}

theorem quoteByte_notMem (isWord : IsWord word) : quoteByte ∉ utf8Bytes word := fun member =>
  absurd (isWord.named quoteByte member) (by decide)

theorem mentions_iff_standsBare (isWord : IsWord word) (code : String) :
    mentions code word = true ↔ StandsBare word code := by
  have nonempty : utf8Bytes word ≠ [] := by
    intro isEmpty
    obtain ⟨character, rest, begins⟩ := List.exists_cons_of_ne_nil
      (mt String.toList_eq_nil_iff.mp isWord.nonempty)
    rw [utf8Bytes, begins, List.flatMap_cons, List.append_eq_nil_iff] at isEmpty
    exact Text.utf8EncodeChar_ne_nil character isEmpty.1
  obtain ⟨first, others, begins⟩ := List.exists_cons_of_ne_nil nonempty
  have unquoted : first ≠ quoteByte := by
    rintro rfl
    exact isWord.quoteByte_notMem (begins ▸ List.mem_cons_self)
  rw [mentions_iff (by rw [begins]; rfl) unquoted, occursBare_iff_standsBare]

/-- The text of a literal outside of other literals has no influence on whether
code mentions a word. -/
theorem mentions_literal_eq (isWord : IsWord word) {before : String}
    (closed : ClosedLiterals (utf8Bytes before)) (first second behind : String) :
    mentions (before ++ Text.quote first ++ behind) word =
      mentions (before ++ Text.quote second ++ behind) word := by
  obtain ⟨inner, bytes, inside⟩ := exists_utf8Bytes_quote first
  obtain ⟨innerSecond, bytesSecond, insideSecond⟩ := exists_utf8Bytes_quote second
  have alike (previous : Option UInt8) :
      mentionedFrom (utf8Bytes word) previous false
          (quoteByte :: (inner ++ quoteByte :: utf8Bytes behind)) =
        mentionedFrom (utf8Bytes word) previous false
          (quoteByte :: (innerSecond ++ quoteByte :: utf8Bytes behind)) := by
    simp only [mentionedFrom, beq_self_eq_true, if_true, mentionedFrom_literal _ inside,
      mentionedFrom_literal _ insideSecond]
  have same := mentionedFrom_append_congr isWord.quoteByte_notMem alike closed none
  simpa [mentions, utf8Bytes_append, bytes, bytesSecond] using same

end IsWord

/-! ## Literals in callbacks -/

theorem Role.isWord_name (role : Role) : IsWord role.name := by
  cases role <;> exact ⟨by decide, List.all_eq_true.mp rfl⟩

namespace EventBody

/-- Two callbacks are given the same values, and both find the player or neither
does. -/
structure SameSignature (event other : EventBody) (prologue otherPrologue : String) : Prop where
  parameters : event.parameters prologue = other.parameters otherPrologue
  player : event.findsPlayer prologue = other.findsPlayer otherPrologue

theorem sameSignature_of_mentions {event other : EventBody} {prologue otherPrologue : String}
    (action : event.action = other.action) (isEmpty : prologue.isEmpty = otherPrologue.isEmpty)
    (body : ∀ role : Role, mentions event.body role.name = mentions other.body role.name)
    (shared : ∀ role : Role, mentions prologue role.name = mentions otherPrologue role.name) :
    SameSignature event other prologue otherPrologue where
  parameters := by simp only [EventBody.parameters, uses, action, isEmpty, body]
  player := by simp only [findsPlayer, action, body, shared]

end EventBody

/-- The text of a literal is not seen from outside.  Behind code that ends
outside of its literals, the same names are found whatever the literal holds; so
the callback takes the same parameters and finds the player in the same cases,
whether the literal stands in its body or in the prologue.  What is found are the
words that stand outside of the literals as names of their own. -/
theorem literal_contents_unseen {before : String}
    (outside : literalOpen false (utf8Bytes before) = false) (first second behind : String) :
    (∀ word, IsWord word →
      mentions (before ++ Text.quote first ++ behind) word =
          mentions (before ++ Text.quote second ++ behind) word ∧
        ∀ code, mentions code word = true ↔ StandsBare word code) ∧
      ∀ (event : EventBody) (prologue : String),
        EventBody.SameSignature { event with body := before ++ Text.quote first ++ behind }
            { event with body := before ++ Text.quote second ++ behind } prologue prologue ∧
          EventBody.SameSignature event event (before ++ Text.quote first ++ behind)
            (before ++ Text.quote second ++ behind) := by
  have closed := literalOpen_eq_false_iff.mp outside
  have visible (text : String) : (before ++ Text.quote text ++ behind).isEmpty = false := by
    rw [← Bool.not_eq_true, String.isEmpty_iff]
    intro isEmpty
    simpa [Text.quote, Text.quoteChars] using congrArg String.toList isEmpty
  refine ⟨fun word isWord => ⟨isWord.mentions_literal_eq closed first second behind,
    isWord.mentions_iff_standsBare⟩, fun event prologue => ⟨?_, ?_⟩⟩
  · refine EventBody.sameSignature_of_mentions rfl rfl (fun role => ?_) fun _ => rfl
    exact role.isWord_name.mentions_literal_eq closed first second behind
  · refine EventBody.sameSignature_of_mentions rfl ?_ (fun _ => rfl) fun role => ?_
    · rw [visible, visible]
    · exact role.isWord_name.mentions_literal_eq closed first second behind

/-- Literals that hold a backslash, and a quote with a name behind it, between a
literal that ends in a backslash and a member. -/
theorem literal_contents_unseen_backslash :
    (literalOpen false (utf8Bytes "f(\"\\\\\", ") = false ∧ IsWord Role.player.name) ∧
      mentions ("f(\"\\\\\", " ++ Text.quote "\\" ++ " $ npc.nick)") Role.player.name =
          mentions ("f(\"\\\\\", " ++ Text.quote "\", player" ++ " $ npc.nick)") Role.player.name ∧
        EventBody.SameSignature
          { action := .created, body := "f(\"\\\\\", " ++ Text.quote "\\" ++ " $ npc.nick)" }
          { action := .created
            body := "f(\"\\\\\", " ++ Text.quote "\", player" ++ " $ npc.nick)" } "" "" := by
  have outside : literalOpen false (utf8Bytes "f(\"\\\\\", ") = false := by
    decide +kernel
  have isWord := Role.player.isWord_name
  have unseen := literal_contents_unseen outside "\\" "\", player" " $ npc.nick)"
  refine ⟨⟨outside, isWord⟩, (unseen.1 _ isWord).1, ?_⟩
  exact (unseen.2 { action := .created } "").1

end EventScript
