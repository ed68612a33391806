import EventScript.Proofs.Grammar.Shape
import EventScript.Proofs.Lexing.Tokens
import EventScript.Proofs.Text.Blocks

/-!
# Written expressions and their tokens

Expressions are written without any parentheses but their own, with blanks
around operators that have two operands.  What is written reads as the tokens
of the expression, unless a minus sign is written in front of another one or a
member is selected from a number.
-/

namespace EventScript

variable {expr : Expr} {character : Char} {rest : List Char} {tokens : List Token}

namespace Expr

/-! ## Writing -/

mutual

/-- The text of an expression, given how texts are quoted. -/
def written (literal : String → String) : Expr → String
  | number spelling => spelling
  | text value => literal value
  | name spelling => spelling
  | list items => "\x7b" ++ ", ".intercalate (writtenAll literal items) ++ "\x7d"
  | range low high => "<" ++ low.written literal ++ ", " ++ high.written literal ++ ">"
  | grouped inner => "(" ++ inner.written literal ++ ")"
  | unary op operand => op.attach (operand.written literal)
  | binary op left right =>
    left.written literal ++ " " ++ op.spelling ++ " " ++ right.written literal
  | conditional condition whenTrue whenFalse =>
    condition.written literal ++ " ? " ++ whenTrue.written literal ++ " : " ++
      whenFalse.written literal
  | call function arguments =>
    function ++ "(" ++ ", ".intercalate (writtenAll literal arguments) ++ ")"
  | index target indices =>
    target.written literal ++ "[" ++ ", ".intercalate (writtenAll literal indices) ++ "]"
  | dotted segments => ".".intercalate (writtenAll literal segments)

/-- The texts of several expressions. -/
def writtenAll (literal : String → String) : List Expr → List String
  | [] => []
  | first :: others => first.written literal :: writtenAll literal others

end

/-- A quoted text that reads as that text, whatever follows. -/
structure Quotes (literal : String → String) (value : String) : Prop where
  opens : ∃ others, (literal value).toList = '"' :: others
  begins : ∀ rest, Begins (literal value).toList (.text value) rest

theorem quotes_quote (value : String) : Quotes Text.quote value :=
  ⟨⟨_, by rw [Text.quote, String.toList_ofList]; rfl⟩, begins_quote value⟩

/-- Whether an expression is written with a minus sign in front. -/
def startsMinus : Expr → Bool
  | unary .negate _ => true
  | unary .preDecrement _ => true
  | _ => false

/-- Whether an expression is a number. -/
def isNumber : Expr → Bool
  | number _ => true
  | _ => false

mutual

/-- Expressions whose texts are quoted as they should be and whose tokens do not
run into each other when they are written. -/
def Writable (literal : String → String) : Expr → Prop
  | number _ => True
  | text value => Quotes literal value
  | name _ => True
  | list items => WritableAll literal items
  | range low high => low.Writable literal ∧ high.Writable literal
  | grouped inner => inner.Writable literal
  | unary op operand =>
    operand.Writable literal ∧ (op = .negate → operand.startsMinus = false)
  | binary _ left right => left.Writable literal ∧ right.Writable literal
  | conditional condition whenTrue whenFalse =>
    condition.Writable literal ∧ whenTrue.Writable literal ∧ whenFalse.Writable literal
  | call _ arguments => WritableAll literal arguments
  | index target indices => target.Writable literal ∧ WritableAll literal indices
  | dotted segments =>
    WritableAll literal segments ∧ ∀ head ∈ segments.head?, head.isNumber = false

/-- Every one of several expressions is writable. -/
def WritableAll (literal : String → String) : List Expr → Prop
  | [] => True
  | first :: others => first.Writable literal ∧ WritableAll literal others

end

theorem writtenAll_eq_map (literal : String → String) (items : List Expr) :
    writtenAll literal items = items.map (written literal) := by
  induction items with
  | nil => rfl
  | cons first others ih => rw [writtenAll, ih, List.map_cons]

theorem writableAll_iff (literal : String → String) (items : List Expr) :
    WritableAll literal items ↔ ∀ item ∈ items, item.Writable literal := by
  induction items with
  | nil => simp [WritableAll]
  | cons first others ih =>
    rw [WritableAll, ih, List.forall_mem_cons]

/-! ## The first character -/

/-- Characters that begin an operand without an operator in front. -/
def opensText (character : Char) : Bool :=
  isNameStart character || character.isDigit || character == '.' || character == '"' ||
    character == '(' || character == '\x7b'

/-- A text that begins like an operand, or like a prefix operator if the level is
no tighter than that of prefix operators. -/
def OpensText (level : Nat) (text : List Char) : Prop :=
  ∃ character others, text = character :: others ∧
    (opensText character = true ∨
      level ≤ 9 ∧ (character = '!' ∨ character = '-' ∨ character = '+'))

theorem OpensText.append {level outer : Nat} {text : List Char} (opens : OpensText level text)
    (looser : outer ≤ 9 ∨ 10 ≤ level) (rest : List Char) : OpensText outer (text ++ rest) := by
  obtain ⟨character, others, rfl, isOperand | ⟨loose, isOp⟩⟩ := opens
  · exact ⟨character, others ++ rest, rfl, .inl isOperand⟩
  · exact ⟨character, others ++ rest, rfl, .inr ⟨by omega, isOp⟩⟩

theorem opensText_number {number : List Char} (numeral : IsNumeral number) (level : Nat) :
    OpensText level number := by
  cases number with
  | nil => cases numeral.1
  | cons character others =>
    refine ⟨character, others, rfl, .inl ?_⟩
    rcases Bool.or_eq_true _ _ |>.mp numeral.1 with digit | point
    · simp [opensText, digit]
    · rw [Bool.and_eq_true] at point
      simp [opensText, point.1]

theorem opensText_word {word : List Char} (spelled : isWord word = true) (level : Nat) :
    OpensText level word := by
  cases word with
  | nil => cases spelled
  | cons character others =>
    rw [isWord, Bool.and_eq_true] at spelled
    exact ⟨character, others, rfl, .inl (by simp [opensText, spelled.1])⟩

/-- The text of an expression begins like an operand, or like a prefix operator
if it binds no more tightly than one. -/
theorem Shaped.opensText {literal : String → String} (shaped : Shaped expr)
    (writable : expr.Writable literal) : OpensText expr.level (expr.written literal).toList := by
  induction shaped with
  | number numeral => exact opensText_number numeral _
  | text value =>
    obtain ⟨others, spelled⟩ := writable.opens
    exact ⟨'"', others, spelled, .inl rfl⟩
  | name named => exact opensText_word named.1 _
  | list _ _ | grouped _ _ =>
    simp only [written, String.toList_append]
    exact ⟨_, _, rfl, .inl rfl⟩
  | @prefixed op operand inFront _ _ _ =>
    have isLevel : (unary op operand).level ≤ 9 := by simp [level, inFront]
    simp only [written, UnaryOp.attach, inFront, Bool.false_eq_true, if_false,
      String.toList_append]
    cases op with
    | not => exact ⟨'!', _, rfl, .inr ⟨isLevel, .inl rfl⟩⟩
    | negate | preDecrement => exact ⟨'-', _, rfl, .inr ⟨isLevel, .inr (.inl rfl)⟩⟩
    | preIncrement => exact ⟨'+', _, rfl, .inr ⟨isLevel, .inr (.inr rfl)⟩⟩
    | _ => cases inFront
  | postfixed behind _ tight ih =>
    simp only [written, UnaryOp.attach, behind, if_true, String.toList_append]
    exact (ih writable.1).append (.inr tight) _
  | @assignment op _ _ _ _ _ _ ih _ | @operation op _ _ _ _ _ _ _ ih _ =>
    simp only [written, String.toList_append, List.append_assoc]
    exact (ih writable.1).append (.inl (Nat.le_succ_of_le op.strength_le)) _
  | within _ _ _ _ _ _ ih _ _ =>
    rw [written]
    simp only [String.toList_append, List.append_assoc]
    exact (ih writable.1).append (.inl (by simp [level, BinaryOp.strength])) _
  | conditional _ _ _ _ _ ih _ _ =>
    simp only [written, String.toList_append, List.append_assoc]
    exact (ih writable.1).append (.inl (by simp [level])) _
  | call named _ _ _ =>
    simp only [written, String.toList_append, List.append_assoc]
    exact (opensText_word named.1 11).append (.inr (by decide)) _
  | index _ tight _ _ ih _ =>
    simp only [written, String.toList_append, List.append_assoc]
    exact (ih writable.1).append (.inr tight) _
  | dotted _ tight _ _ _ _ ih _ =>
    rw [written, writtenAll, Text.toList_intercalate_cons]
    exact (ih writable.1.1).append (.inr tight) _

end Expr

/-! ## Symbols -/

/-- Marks that never join with what follows them. -/
def isIsolated (character : Char) : Bool :=
  ['(', ')', '{', '}', '[', ']', ',', ';', ':', '?'].contains character

/-- A mark that does not join with the character behind it. -/
theorem Lexes.mark {mark : Symbol} (single : Symbol.ofChar? character = some mark)
    (notPoint : character ≠ '.') (notSlash : character ≠ '/')
    (alone : ∀ second ∈ rest.head?, Symbol.ofPair? character second = none)
    (others : Lexes rest tokens) : Lexes (character :: rest) (.symbol mark :: tokens) :=
  (begins_symbol single alone (fun isPoint => absurd isPoint notPoint)
    (not_startsComment notSlash _)).lexes others

theorem Lexes.isolated {mark : Symbol} (single : Symbol.ofChar? character = some mark)
    (alone : isIsolated character = true) (others : Lexes rest tokens) :
    Lexes (character :: rest) (.symbol mark :: tokens) := by
  simp only [isIsolated, List.contains_iff_mem, List.mem_cons, List.not_mem_nil, or_false] at alone
  refine Lexes.mark single ?_ ?_ ?_ others
  · rintro rfl
    simp at alone
  · rintro rfl
    simp at alone
  · intro second _
    rcases alone with rfl | rfl | rfl | rfl | rfl | rfl | rfl | rfl | rfl | rfl
    all_goals simp [Symbol.ofPair?]

/-- The point in front of a member. -/
theorem Lexes.point (noDigit : startsWithDigit rest = false) (others : Lexes rest tokens) :
    Lexes ('.' :: rest) (.symbol .dot :: tokens) :=
  (begins_symbol rfl (by intro second _; simp [Symbol.ofPair?]) (fun _ => noDigit)
    (not_startsComment (by decide) _)).lexes others

/-- An operator with blanks around it. -/
theorem Lexes.operator (op : BinaryOp) (others : Lexes rest tokens) :
    Lexes (' ' :: (op.spelling.toList ++ ' ' :: rest)) (op.token :: tokens) := by
  have single {character : Char} {mark : Symbol} (isMark : Symbol.ofChar? character = some mark)
      (noPair : Symbol.ofPair? character ' ' = none) (notPoint : character ≠ '.') :
      Begins [character] (.symbol mark) (' ' :: rest) := by
    refine begins_symbol isMark ?_ (fun isPoint => absurd isPoint notPoint) ?_
    · rintro _ ⟨rfl⟩
      exact noPair
    · rintro ⟨_, same | same⟩
      all_goals simp at same
  have begun : Begins op.spelling.toList op.token (' ' :: rest) := by
    cases op with
    | add => exact single (by rfl : Symbol.ofChar? '+' = _) rfl (by decide)
    | sub => exact single (by rfl : Symbol.ofChar? '-' = _) rfl (by decide)
    | mul => exact single (by rfl : Symbol.ofChar? '*' = _) rfl (by decide)
    | div => exact single (by rfl : Symbol.ofChar? '/' = _) rfl (by decide)
    | mod => exact single (by rfl : Symbol.ofChar? '%' = _) rfl (by decide)
    | pow => exact single (by rfl : Symbol.ofChar? '^' = _) rfl (by decide)
    | less => exact single (by rfl : Symbol.ofChar? '<' = _) rfl (by decide)
    | greater => exact single (by rfl : Symbol.ofChar? '>' = _) rfl (by decide)
    | assign => exact single (by rfl : Symbol.ofChar? '=' = _) rfl (by decide)
    | isIn => exact begins_keyword .inWord (by simp; decide)
    | _ => exact begins_pair rfl _
  exact (begun.lexes (others.blank (by decide))).blank (by decide)

namespace Expr

variable {spelling : String} {operand : Expr}

/-! ## The tokens of what is written -/

/-- Characters that can run into the last token of an expression, apart from a
point. -/
def runsOn (character : Char) : Bool :=
  isNameChar character || character == '='

/-- A text in front of which an expression can be written.  A point may only
follow an operand that is no number. -/
structure Detached (expr : Expr) (rest : List Char) : Prop where
  apart : Stops runsOn rest
  noPoint : Stops (· == '.') rest ∨ 10 ≤ expr.level ∧ expr.isNumber = false

/-- An expression whose text reads as its tokens, in front of any text that does
not run into it. -/
def LexesWritten (literal : String → String) (expr : Expr) : Prop :=
  ∀ rest tokens, Detached expr rest → Lexes rest tokens →
    Lexes ((expr.written literal).toList ++ rest) (expr.tokens ++ tokens)

theorem Detached.notNamed (detached : Detached expr rest) : Stops isNameChar rest := by
  intro character isFirst
  have apart := detached.apart character isFirst
  rw [runsOn, Bool.or_eq_false_iff] at apart
  exact apart.1

/-- In front of a text that begins with a given character. -/
theorem detached_cons (apart : runsOn character = false) (noPoint : character ≠ '.') :
    Detached expr (character :: rest) := by
  refine ⟨(stops_cons _ _ _).mpr apart, .inl ((stops_cons _ _ _).mpr ?_)⟩
  simpa using noPoint

theorem Detached.of_loose {outer inner : Expr} (detached : Detached outer rest)
    (loose : outer.level < 10) : Detached inner rest := by
  refine ⟨detached.apart, .inl (detached.noPoint.resolve_right ?_)⟩
  rintro ⟨tight, _⟩
  omega

section

variable {literal : String → String}

/-- Expressions with commas between them. -/
theorem lexes_commas {items : List Expr} (lexed : ∀ item ∈ items, LexesWritten literal item)
    (detached : ∀ expr, Detached expr rest) (others : Lexes rest tokens) :
    Lexes ((", ".intercalate (writtenAll literal items)).toList ++ rest)
      (separated .comma items ++ tokens) := by
  cases items with
  | nil => exact others
  | cons first items =>
    rw [List.forall_mem_cons] at lexed
    have behind : Lexes
        ((writtenAll literal items).flatMap (fun text => ", ".toList ++ text.toList) ++ rest)
        (trailing .comma items ++ tokens) := by
      induction items with
      | nil => exact others
      | cons second items ih =>
        rw [List.forall_mem_cons] at lexed
        have later := ih ⟨lexed.1, lexed.2.2⟩
        simp only [writtenAll, trailing, List.flatMap_cons, List.append_assoc, List.cons_append]
        refine Lexes.isolated rfl rfl (Lexes.blank (by decide) (lexed.2.1 _ _ ?_ later))
        cases items with
        | nil => exact detached second
        | cons _ _ => exact detached_cons rfl (by decide)
    rw [writtenAll, Text.toList_intercalate_cons, separated, List.append_assoc, List.append_assoc]
    refine lexed.1 _ _ ?_ behind
    cases items with
    | nil => exact detached first
    | cons _ _ => exact detached_cons rfl (by decide)

/-! ### Members -/

theorem isNumber_of_isMember (member : expr.isMember = true) : expr.isNumber = false := by
  cases expr with
  | number _ => cases member
  | _ => rfl

/-- A member begins with a name, so the point in front of it begins no number. -/
theorem startsWithDigit_member (shaped : Shaped expr) (member : expr.isMember = true)
    (rest : List Char) : startsWithDigit ((expr.written literal).toList ++ rest) = false := by
  have word {spelling : String} (named : IsName spelling) (rest : List Char) :
      startsWithDigit (spelling.toList ++ rest) = false := by
    have spelled := named.1
    cases characters : spelling.toList with
    | nil =>
      rw [characters] at spelled
      cases spelled
    | cons character others =>
      rw [characters, isWord, Bool.and_eq_true] at spelled
      exact isDigit_eq_false_of_isNameStart spelled.1
  induction shaped generalizing rest with
  | name named => exact word named rest
  | call named _ _ _ =>
    simp only [written, String.toList_append, List.append_assoc]
    exact word named _
  | index _ _ _ _ ih _ =>
    simp only [written, String.toList_append, List.append_assoc]
    exact ih member _
  | _ => cases member

theorem detached_member (member : expr.isMember = true) (apart : Stops runsOn rest) :
    Detached expr rest :=
  ⟨apart, .inr ⟨level_of_isMember member, isNumber_of_isMember member⟩⟩

/-- Members with a point in front of each. -/
theorem lexes_members {members : List Expr}
    (lexed : ∀ member ∈ members, LexesWritten literal member)
    (shaped : ∀ member ∈ members, Shaped member)
    (areMembers : ∀ member ∈ members, member.isMember = true) (apart : Stops runsOn rest)
    (others : Lexes rest tokens) :
    Lexes ((writtenAll literal members).flatMap (fun text => ".".toList ++ text.toList) ++ rest)
      (trailing .dot members ++ tokens) := by
  induction members with
  | nil => exact others
  | cons first members ih =>
    rw [List.forall_mem_cons] at lexed shaped areMembers
    have later := ih lexed.2 shaped.2 areMembers.2
    simp only [writtenAll, trailing, List.flatMap_cons, List.append_assoc, List.cons_append]
    refine Lexes.point (startsWithDigit_member shaped.1 areMembers.1 _)
      (lexed.1 _ _ (detached_member areMembers.1 ?_) later)
    cases members with
    | nil => exact apart
    | cons _ _ => exact (stops_cons _ _ _).mpr rfl

/-! ### One construction after the other -/

theorem lexesWritten_number (numeral : IsNumeral spelling.toList) :
    LexesWritten literal (.number spelling) := by
  intro rest tokens detached others
  have ended : Stops continuesNumber rest := by
    intro character isFirst
    have noPoint := detached.noPoint.resolve_right (by rintro ⟨_, ⟨⟩⟩) character isFirst
    rw [continuesNumber, detached.notNamed character isFirst, Bool.false_or]
    exact noPoint
  have begun := begins_number numeral ended
  rw [String.ofList_toList] at begun
  exact begun.lexes others

theorem lexesWritten_name (named : IsName spelling) : LexesWritten literal (.name spelling) :=
  fun _ _ detached others => (begins_name named detached.notNamed).lexes others

theorem lexesWritten_list {items : List Expr}
    (lexed : ∀ item ∈ items, LexesWritten literal item) : LexesWritten literal (.list items) := by
  intro rest tokens _ others
  simp only [written, Expr.tokens, String.toList_append, List.append_assoc, List.cons_append]
  refine Lexes.isolated rfl rfl (lexes_commas lexed (fun _ => detached_cons rfl (by decide)) ?_)
  exact Lexes.isolated rfl rfl others

theorem lexesWritten_grouped {inner : Expr} (lexed : LexesWritten literal inner) :
    LexesWritten literal (.grouped inner) := by
  intro rest tokens _ others
  simp only [written, Expr.tokens, String.toList_append, List.append_assoc, List.cons_append]
  refine Lexes.isolated rfl rfl (lexed _ _ (detached_cons rfl (by decide)) ?_)
  exact Lexes.isolated rfl rfl others

theorem lexesWritten_call {function : String} {arguments : List Expr} (named : IsName function)
    (lexed : ∀ argument ∈ arguments, LexesWritten literal argument) :
    LexesWritten literal (.call function arguments) := by
  intro rest tokens _ others
  simp only [written, Expr.tokens, String.toList_append, List.append_assoc, List.cons_append]
  refine (begins_name named ((stops_cons _ _ _).mpr rfl)).lexes ?_
  refine Lexes.isolated rfl rfl (lexes_commas lexed (fun _ => detached_cons rfl (by decide)) ?_)
  exact Lexes.isolated rfl rfl others

theorem lexesWritten_index {target : Expr} {indices : List Expr}
    (lexedTarget : LexesWritten literal target)
    (lexed : ∀ item ∈ indices, LexesWritten literal item) :
    LexesWritten literal (.index target indices) := by
  intro rest tokens _ others
  simp only [written, Expr.tokens, String.toList_append, List.append_assoc, List.cons_append]
  refine lexedTarget _ _ (detached_cons rfl (by decide)) ?_
  refine Lexes.isolated rfl rfl (lexes_commas lexed (fun _ => detached_cons rfl (by decide)) ?_)
  exact Lexes.isolated rfl rfl others

theorem lexesWritten_dotted {head : Expr} {members : List Expr}
    (lexedHead : LexesWritten literal head) (tight : 10 ≤ head.level)
    (noNumber : head.isNumber = false)
    (lexed : ∀ member ∈ members, LexesWritten literal member)
    (shaped : ∀ member ∈ members, Shaped member)
    (areMembers : ∀ member ∈ members, member.isMember = true) :
    LexesWritten literal (.dotted (head :: members)) := by
  intro rest tokens detached others
  rw [written, writtenAll, Text.toList_intercalate_cons, Expr.tokens, separated, List.append_assoc,
    List.append_assoc]
  refine lexedHead _ _ ⟨?_, .inr ⟨tight, noNumber⟩⟩
    (lexes_members lexed shaped areMembers detached.apart others)
  cases members with
  | nil => exact detached.apart
  | cons _ _ => exact (stops_cons _ _ _).mpr rfl

theorem lexesWritten_binary {op : BinaryOp} {left right : Expr}
    (lexedLeft : LexesWritten literal left) (lexedRight : LexesWritten literal right) :
    LexesWritten literal (.binary op left right) := by
  intro rest tokens detached others
  have loose : (binary op left right).level < 10 := Nat.lt_of_le_of_lt op.strength_le (by decide)
  simp only [written, Expr.tokens, String.toList_append, List.append_assoc, List.cons_append]
  refine lexedLeft _ _ (detached_cons rfl (by decide)) ?_
  exact Lexes.operator op (lexedRight _ _ (detached.of_loose loose) others)

theorem lexesWritten_conditional {condition whenTrue whenFalse : Expr}
    (lexedCondition : LexesWritten literal condition) (lexedTrue : LexesWritten literal whenTrue)
    (lexedFalse : LexesWritten literal whenFalse) :
    LexesWritten literal (.conditional condition whenTrue whenFalse) := by
  intro rest tokens detached others
  have loose : (conditional condition whenTrue whenFalse).level < 10 := by simp [level]
  simp only [written, Expr.tokens, String.toList_append, List.append_assoc, List.cons_append]
  refine lexedCondition _ _ (detached_cons rfl (by decide)) ?_
  refine Lexes.blank (by decide) (Lexes.isolated rfl rfl (Lexes.blank (by decide) ?_))
  refine lexedTrue _ _ (detached_cons rfl (by decide)) ?_
  refine Lexes.blank (by decide) (Lexes.isolated rfl rfl (Lexes.blank (by decide) ?_))
  exact lexedFalse _ _ (detached.of_loose loose) others

theorem lexesWritten_postfixed {op : UnaryOp} (behind : op.isPostfix = true)
    (lexed : LexesWritten literal operand) : LexesWritten literal (.unary op operand) := by
  intro rest tokens _ others
  simp only [written, UnaryOp.attach, Expr.tokens, behind, if_true, String.toList_append,
    List.append_assoc, List.cons_append, List.nil_append]
  cases op with
  | postIncrement | postDecrement =>
    exact lexed _ _ (detached_cons rfl (by decide)) ((begins_pair rfl rest).lexes others)
  | _ => cases behind

/-! ### Prefix operators -/

/-- No symbol of two characters ends with the first character of an operand. -/
theorem ofPair?_eq_none_of_opensText (opens : opensText character = true) (first : Char) :
    Symbol.ofPair? first character = none := by
  unfold Symbol.ofPair?
  split
  all_goals first | rfl | exact absurd opens (by decide)

/-- What stands behind a prefix operator begins with an operand or with another
prefix operator, which is no minus sign unless the tree says so. -/
theorem Shaped.opensText_operand (shaped : Shaped operand) (tight : 9 ≤ operand.level)
    (writable : operand.Writable literal) :
    ∃ character others, (operand.written literal).toList = character :: others ∧
      (Expr.opensText character = true ∨ character = '!' ∨ character = '+' ∨
        character = '-' ∧ operand.startsMinus = true) := by
  obtain ⟨character, others, spelled, isOperand | ⟨loose, isOp⟩⟩ := shaped.opensText writable
  · exact ⟨character, others, spelled, .inl isOperand⟩
  · refine ⟨character, others, spelled, .inr ?_⟩
    rcases isOp with rfl | rfl | rfl
    · exact .inl rfl
    · refine .inr (.inr ⟨rfl, ?_⟩)
      cases operand with
      | unary op inner =>
        cases op with
        | negate => rfl
        | preDecrement => rfl
        | not => simp [written, UnaryOp.attach, UnaryOp.isPostfix, UnaryOp.spelling] at spelled
        | preIncrement =>
          simp [written, UnaryOp.attach, UnaryOp.isPostfix, UnaryOp.spelling] at spelled
        | postIncrement | postDecrement => simp [level, UnaryOp.isPostfix] at loose
      | binary op _ _ =>
        have bounded := op.strength_le
        simp only [level] at tight
        omega
      | _ => simp [level] at tight loose
    · exact .inr (.inl rfl)

theorem lexesWritten_prefixed {op : UnaryOp} (inFront : op.isPostfix = false)
    (shaped : Shaped operand) (tight : 9 ≤ operand.level) (writable : operand.Writable literal)
    (noMinus : op = .negate → operand.startsMinus = false) (lexed : LexesWritten literal operand) :
    LexesWritten literal (.unary op operand) := by
  intro rest tokens detached others
  have behind : Detached operand rest := by
    refine ⟨detached.apart, .inl (detached.noPoint.resolve_right ?_)⟩
    rintro ⟨tooTight, _⟩
    simp [level, inFront] at tooTight
  have later := lexed _ _ behind others
  obtain ⟨character, more, spelled, begins⟩ := shaped.opensText_operand tight writable
  simp only [written, UnaryOp.attach, Expr.tokens, inFront, Bool.false_eq_true, if_false,
    String.toList_append, List.append_assoc, List.cons_append]
  -- a sign of one character must not be joined with the character behind it
  have alone {sign : Char} (noPair : Symbol.ofPair? sign character = none) :
      ∀ second ∈ ((operand.written literal).toList ++ rest).head?,
        Symbol.ofPair? sign second = none := by
    rw [spelled]
    rintro _ ⟨rfl⟩
    exact noPair
  cases op with
  | not =>
    refine Lexes.mark (by rfl : Symbol.ofChar? '!' = _) (by decide) (by decide) (alone ?_) later
    rcases begins with opens | rfl | rfl | ⟨rfl, _⟩
    · exact ofPair?_eq_none_of_opensText opens _
    all_goals rfl
  | negate =>
    refine Lexes.mark (by rfl : Symbol.ofChar? '-' = _) (by decide) (by decide) (alone ?_) later
    rcases begins with opens | rfl | rfl | ⟨rfl, isMinus⟩
    · exact ofPair?_eq_none_of_opensText opens _
    · rfl
    · rfl
    · rw [noMinus rfl] at isMinus
      cases isMinus
  | preIncrement | preDecrement => exact (begins_pair rfl _).lexes later
  | _ => cases inFront

/-! ### Ranges -/

theorem lexesWritten_within {left low high : Expr} (lexedLeft : LexesWritten literal left)
    (shapedLow : Shaped low) (writableLow : low.Writable literal)
    (lexedLow : LexesWritten literal low) (lexedHigh : LexesWritten literal high) :
    LexesWritten literal (.binary .isIn left (.range low high)) := by
  intro rest tokens detached others
  have closing : Lexes ('>' :: rest) (.symbol .greater :: tokens) := by
    refine Lexes.mark rfl (by decide) (by decide) ?_ others
    intro second isFirst
    have apart := detached.apart second isFirst
    rw [runsOn, Bool.or_eq_false_iff, beq_eq_false_iff_ne] at apart
    simp [Symbol.ofPair?, apart.2]
  have highPart : Lexes (',' :: ' ' :: ((high.written literal).toList ++ '>' :: rest))
      (.symbol .comma :: (high.tokens ++ .symbol .greater :: tokens)) :=
    Lexes.isolated rfl rfl (Lexes.blank (by decide)
      (lexedHigh _ _ (detached_cons rfl (by decide)) closing))
  have opening : Lexes
      ('<' :: ((low.written literal).toList ++
        ',' :: ' ' :: ((high.written literal).toList ++ '>' :: rest)))
      (.symbol .less ::
        (low.tokens ++ .symbol .comma :: (high.tokens ++ .symbol .greater :: tokens))) := by
    refine Lexes.mark rfl (by decide) (by decide) ?_
      (lexedLow _ _ (detached_cons rfl (by decide)) highPart)
    obtain ⟨character, more, spelled, opens | ⟨_, isOp⟩⟩ := shapedLow.opensText writableLow
    · rw [spelled]
      rintro _ ⟨rfl⟩
      exact ofPair?_eq_none_of_opensText opens _
    · rw [spelled]
      rintro _ ⟨rfl⟩
      rcases isOp with rfl | rfl | rfl
      all_goals rfl
  simp only [written, Expr.tokens, String.toList_append, List.append_assoc, List.cons_append,
    List.nil_append]
  exact lexedLeft _ _ (detached_cons rfl (by decide)) (Lexes.operator .isIn opening)

/-! ### All expressions -/

/-- What is written for an expression of the grammar reads as its tokens. -/
theorem Shaped.lexesWritten (shaped : Shaped expr) (writable : expr.Writable literal) :
    LexesWritten literal expr := by
  induction shaped with
  | number numeral => exact lexesWritten_number numeral
  | text value => exact fun rest _ _ others => (writable.begins rest).lexes others
  | name named => exact lexesWritten_name named
  | list _ ih =>
    rw [Writable, writableAll_iff] at writable
    exact lexesWritten_list fun item member =>
      ih item member (writable item member)
  | grouped _ ih => exact lexesWritten_grouped (ih writable)
  | prefixed inFront inside tight ih =>
    exact lexesWritten_prefixed inFront inside tight writable.1 writable.2
      (ih writable.1)
  | postfixed behind _ _ ih =>
    exact lexesWritten_postfixed behind (ih writable.1)
  | assignment _ _ _ _ lexedLeft lexedRight | operation _ _ _ _ _ lexedLeft lexedRight =>
    exact lexesWritten_binary (lexedLeft writable.1) (lexedRight writable.2)
  | within _ _ shapedLow _ _ _ lexedLeft lexedLow lexedHigh =>
    exact lexesWritten_within (lexedLeft writable.1) shapedLow writable.2.1
      (lexedLow writable.2.1) (lexedHigh writable.2.2)
  | conditional _ _ _ _ _ lexedCondition lexedTrue lexedFalse =>
    exact lexesWritten_conditional (lexedCondition writable.1) (lexedTrue writable.2.1)
      (lexedFalse writable.2.2)
  | call named _ _ ih =>
    rw [Writable, writableAll_iff] at writable
    exact lexesWritten_call named fun argument member =>
      ih argument member (writable argument member)
  | index _ _ _ _ lexedTarget lexedInside =>
    rw [Writable, writableAll_iff] at writable
    exact lexesWritten_index (lexedTarget writable.1) fun item member =>
      lexedInside item member (writable.2 item member)
  | dotted _ tight _ _ inside areMembers lexedHead lexedMembers =>
    rw [Writable, WritableAll, writableAll_iff] at writable
    exact lexesWritten_dotted (lexedHead writable.1.1) tight (writable.2 _ rfl)
      (fun member isIn => lexedMembers member isIn (writable.1.2 member isIn)) inside areMembers

/-! ### One line -/

theorem oneLine_number (numeral : IsNumeral spelling.toList) : Text.OneLine spelling := by
  intro member
  rcases isDigit_or_point_of_spanNumber numeral.2 _ member with digit | point
  · exact absurd digit (by decide)
  · exact absurd point (by decide)

theorem oneLine_name (named : IsName spelling) : Text.OneLine spelling :=
  fun member => absurd (isNameChar_of_mem_word named.1 member) (by decide)

theorem oneLine_quote (value : String) : Text.OneLine (Text.quote value) := by
  intro member
  rw [Text.quote, Text.quoteChars, String.toList_ofList, List.mem_cons, List.mem_append,
    List.mem_flatMap] at member
  rcases member with isQuote | ⟨character, _, inEscape⟩ | isQuote
  · exact absurd isQuote (by decide)
  · exact Text.lineFeed_notMem_escape character inEscape
  · exact absurd isQuote (by decide)

theorem oneLine_attach (op : UnaryOp) {operand : String} (oneLine : Text.OneLine operand) :
    Text.OneLine (op.attach operand) := by
  have oneLineOp : Text.OneLine op.spelling := by cases op <;> decide
  rw [UnaryOp.attach]
  split
  · exact (Text.oneLine_append _ _).mpr ⟨oneLine, oneLineOp⟩
  · exact (Text.oneLine_append _ _).mpr ⟨oneLineOp, oneLine⟩

/-- An expression of the grammar is written on one line if quoted texts are. -/
theorem Shaped.oneLine_written (oneLineText : ∀ value, Text.OneLine (literal value))
    (shaped : Shaped expr) : Text.OneLine (expr.written literal) := by
  have commas {items : List Expr} (oneLine : ∀ item ∈ items, Text.OneLine (item.written literal)) :
      Text.OneLine (", ".intercalate (writtenAll literal items)) := by
    rw [writtenAll_eq_map]
    exact Text.oneLine_intercalate (by decide) (List.forall_mem_map.mpr oneLine)
  have blank : Text.OneLine " " := by decide
  have oneLineOp (op : BinaryOp) : Text.OneLine op.spelling := by cases op <;> decide
  induction shaped with
  | number numeral => exact oneLine_number numeral
  | text value => exact oneLineText value
  | name named => exact oneLine_name named
  | list _ ih =>
    simp only [written, Text.oneLine_append]
    exact ⟨⟨by decide, commas ih⟩, by decide⟩
  | grouped _ ih =>
    simp only [written, Text.oneLine_append]
    exact ⟨⟨by decide, ih⟩, by decide⟩
  | prefixed _ _ _ ih | postfixed _ _ _ ih => exact oneLine_attach _ ih
  | assignment _ _ _ _ left right | operation _ _ _ _ _ left right =>
    simp only [written, Text.oneLine_append]
    exact ⟨⟨⟨⟨left, blank⟩, oneLineOp _⟩, blank⟩, right⟩
  | within _ _ _ _ _ _ left low high =>
    simp only [written, Text.oneLine_append]
    exact ⟨⟨⟨⟨left, blank⟩, oneLineOp _⟩, blank⟩,
      ⟨⟨⟨by decide, low⟩, by decide⟩, high⟩, by decide⟩
  | conditional _ _ _ _ _ condition whenTrue whenFalse =>
    simp only [written, Text.oneLine_append]
    exact ⟨⟨⟨⟨condition, by decide⟩, whenTrue⟩, by decide⟩, whenFalse⟩
  | call named _ _ ih =>
    simp only [written, Text.oneLine_append]
    exact ⟨⟨⟨oneLine_name named, by decide⟩, commas ih⟩, by decide⟩
  | index _ _ _ _ target inside =>
    simp only [written, Text.oneLine_append]
    exact ⟨⟨⟨target, by decide⟩, commas inside⟩, by decide⟩
  | dotted _ _ _ _ _ _ head members =>
    rw [written, writtenAll, writtenAll_eq_map]
    refine Text.oneLine_intercalate (by decide) (List.forall_mem_cons.mpr ⟨head, ?_⟩)
    exact List.forall_mem_map.mpr members

end

end Expr

end EventScript
