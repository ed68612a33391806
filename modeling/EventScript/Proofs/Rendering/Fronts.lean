import EventScript.Proofs.Rendering.Edges

/-!
# The front of generated code

Whether the code for an expression begins with a sign that continues a prefix
operator can be read off the tree, whatever surrounds it.  It does if the
expression begins with such an operator itself, or if it is a call that is written
with an argument in front and that argument is.  The name of a variable that is
given as a text may begin with anything.
-/

namespace EventScript

/-! ## Calls that are written with an argument in front -/

/-- The place of the argument that a template begins with. -/
def templateFront : List Char → Option Nat
  | '$' :: digit :: _ => if digit.isDigit then some (digit.toNat - '0'.toNat) else none
  | _ => none

namespace Builtin

/-- The place of the argument that the code for a call begins with, by the number
of arguments. -/
def front (count : Nat) : Builtin → Option Nat
  | template least text => if least ≤ count then templateFront text.toList else none
  | variableTemplate least text => if least ≤ count then templateFront text.toList else none
  | clearFlag => if 0 < count then some 0 else none
  | _ => none

/-- Whether the first argument names a variable. -/
def takesName : Builtin → Bool
  | variableTemplate _ _ => true
  | clearFlag => true
  | _ => false

end Builtin

namespace Expr

/-- Whether an argument that names a variable is a text that begins with a given
character. -/
def namesWith (mark : Char) : Expr → Bool
  | text value => (qualify (Text.trim value)).toList.head? == some mark
  | _ => false

mutual

/-- Whether the code for an expression begins with a given sign. -/
def leads (mark : Char) : Expr → Bool
  | unary op operand =>
    if op.isPostfix then operand.leads mark else op.spelling.toList.head? == some mark
  | binary .pow _ _ => false
  | binary .mod _ _ => false
  | binary .isIn _ (range _ _) => false
  | binary .isIn _ right => right.leads mark
  | binary _ left _ => left.leads mark
  | call function arguments =>
    match Builtin.find? function with
    | some builtin =>
      match builtin.front arguments.length with
      | some place => leadsAt mark builtin.takesName place arguments
      | none => false
    | none => false
  | index target _ => target.leads mark
  | dotted (head :: _) => head.leads mark
  | _ => false

/-- Whether this holds of the argument at a place, which may name a variable. -/
def leadsAt (mark : Char) (byName : Bool) : (place : Nat) → List Expr → Bool
  | _, [] => false
  | 0, first :: _ => byName && first.namesWith mark || first.leads mark
  | place + 1, _ :: rest => leadsAt mark byName place rest

end

end Expr

theorem head?_ne_of_opensPlainly {text : String} {mark : Char} (isSign : mark ∈ ['-', '='])
    (plain : opensPlainly text = true) : text.toList.head? ≠ some mark := by
  intro isFirst
  rw [opensPlainly, isFirst] at plain
  rw [List.mem_cons, List.mem_singleton] at isSign
  rcases isSign with rfl | rfl <;> cases plain

section Layouts

variable {site : Site}
variable {builtin : Builtin}

/-- A text that is not empty decides how pieces begin. -/
theorem head?_layoutText_cons {chunk : Chunk} (nonempty : chunk.code site ≠ "")
    (rest : List Chunk) :
    (layoutText site (chunk :: rest)).toList.head? = (chunk.code site).toList.head? := by
  rw [layoutText_cons, String.toList_append, List.head?_append_of_ne_nil]
  exact fun isEmpty => nonempty (String.toList_eq_nil_iff.mp isEmpty)

theorem qualify_ne_empty (name : String) : qualify name ≠ "" := by
  rw [qualify]
  split
  · next isChain =>
    rintro rfl
    exact absurd isChain (by decide)
  · intro isEmpty
    have lengths := congrArg (fun text => text.toList.length) isEmpty
    simp at lengths

/-- The fixed texts at the front of the entries of the table, and the place of
an argument there. -/
def Builtin.isFronted : Builtin → Bool
  | template least text =>
    match templateFront text.toList with
    | some place => place < least
    | none => opensPlainly text && text.toList.head? != some '$'
  | variableTemplate least text => templateFront text.toList == some 0 && 0 < least
  | placement _ _ _ text => opensPlainly text && text.toList.head? != some '$'
  | setProperty owner => opensPlainly owner
  | _ => true

theorem Builtin.isFronted_of_find? {function : String}
    (found : Builtin.find? function = some builtin) : builtin.isFronted = true := by
  have checked : ∀ entry ∈ Builtin.table, entry.2.isFronted = true := by
    simp only [table, List.forall_mem_append]
    refine ⟨⟨⟨⟨⟨?_, ?_⟩, ?_⟩, ?_⟩, ?_⟩, ?_⟩ <;> decide +kernel
  exact checked _ (mem_table_of_find? found)

theorem exists_fillChunks_of_templateFront {template : List Char} {place : Nat}
    (begins : templateFront template = some place) (arguments : List (List Chunk)) :
    ∃ rest, fillChunks arguments template = arguments[place]?.getD [] ++ rest := by
  unfold templateFront at begins
  split at begins
  · next digit rest =>
    split at begins
    · next isDigit =>
      cases begins
      refine ⟨fillChunks arguments rest, ?_⟩
      rw [fillChunks, if_pos isDigit]
      rintro rfl
      cases isDigit
    · cases begins
  · cases begins

theorem exists_fillChunks_of_opensPlainly {text : String} (plain : opensPlainly text = true)
    (notMark : text.toList.head? ≠ some '$') (arguments : List (List Chunk)) :
    ∃ first rest, fillChunks arguments text.toList = .fixed first :: rest ∧
      opensPlainly first = true := by
  rw [opensPlainly] at plain
  cases spelled : text.toList with
  | nil =>
    rw [spelled] at plain
    cases plain
  | cons character others =>
    rw [spelled] at plain notMark
    have noMark : character ≠ '$' := fun isMark => notMark (congrArg some isMark)
    refine ⟨String.singleton character, fillChunks arguments others, ?_, ?_⟩
    · rw [fillChunks]
      · exact fun _ isMark => absurd isMark noMark
      · exact fun _ _ isMark => absurd isMark noMark
    · simpa [opensPlainly] using plain

theorem opensPlainly_of_propertyTarget? {code owner target : String}
    (plain : opensPlainly owner = true) (found : propertyTarget? code owner = some target) :
    opensPlainly target = true := by
  unfold propertyTarget? at found
  split at found
  · obtain ⟨property, -, rfl⟩ := Option.map_eq_some_iff.mp found
    exact opensPlainly_append (opensPlainly_append plain _) _
  · cases found

theorem exists_chatPieces (place : Section) (said : List Chunk) :
    ∃ text rest, place.chatPieces said = .fixed text :: rest ∧ opensPlainly text = true := by
  unfold Section.chatPieces
  split
  · split
    · exact ⟨_, _, rfl, by decide⟩
    · exact ⟨_, _, rfl, by decide⟩
  · exact ⟨_, _, rfl, by decide⟩
  · exact ⟨_, _, rfl, by decide⟩
  · exact ⟨_, _, rfl, by decide⟩

/-- A call that is written by a built-in function begins with an argument or with
a fixed text. -/
theorem Builtin.front_layout {arguments : List Spot} {pieces : List Chunk}
    (checked : builtin.isFronted = true) (laid : builtin.layout site arguments = some pieces) :
    (∃ place argument rest, builtin.front arguments.length = some place ∧
        arguments[place]? = some argument ∧
        pieces = (if builtin.takesName then argument.variablePiece else argument.piece) ++ rest) ∨
      (builtin.front arguments.length = none ∧
        ∃ text rest, pieces = .fixed text :: rest ∧ opensPlainly text = true) := by
  cases Builtin.lays_of_layout laid with
  | @template _ text _ enough =>
    rw [front, if_pos enough]
    rw [isFronted] at checked
    cases begins : templateFront text.toList with
    | some place =>
      rw [begins] at checked
      have inside : place < arguments.length :=
        Nat.lt_of_lt_of_le (of_decide_eq_true checked) enough
      obtain ⟨rest, filled⟩ :=
        exists_fillChunks_of_templateFront begins (arguments.map Spot.piece)
      refine .inl ⟨place, arguments[place], rest, rfl, List.getElem?_eq_getElem inside, ?_⟩
      rw [filled, List.getElem?_map, List.getElem?_eq_getElem inside]
      rfl
    | none =>
      rw [begins, Bool.and_eq_true, bne_iff_ne] at checked
      obtain ⟨first, rest, filled, plain⟩ :=
        exists_fillChunks_of_opensPlainly checked.1 checked.2 (arguments.map Spot.piece)
      exact .inr ⟨rfl, first, rest, filled, plain⟩
  | @variableTemplate _ _ first others enough =>
    rw [isFronted, Bool.and_eq_true, beq_iff_eq] at checked
    rw [front, List.length_cons, if_pos enough]
    obtain ⟨rest, filled⟩ := exists_fillChunks_of_templateFront checked.1
      (first.variablePiece :: others.map Spot.piece)
    exact .inl ⟨0, first, rest, checked.1, rfl, filled⟩
  | placement =>
    rw [isFronted, Bool.and_eq_true, bne_iff_ne] at checked
    obtain ⟨first, rest, filled, plain⟩ :=
      exists_fillChunks_of_opensPlainly checked.1 checked.2 _
    exact .inr ⟨rfl, first, rest, filled, plain⟩
  | helper =>
    exact .inr ⟨rfl, _, _, rfl, opensPlainly_append (opensPlainly_append (by decide) _) _⟩
  | setFlag | placeBaddy => exact .inr ⟨rfl, _, _, rfl, by decide⟩
  | clearFlag => exact .inl ⟨0, _, _, rfl, rfl, rfl⟩
  | setProperty isText found =>
    refine .inr ⟨rfl, _, _, rfl, opensPlainly_append ?_ _⟩
    exact opensPlainly_of_propertyTarget? checked found
  | @chatTest first =>
    obtain ⟨text, rest, begins, plain⟩ := exists_chatPieces site.place first.piece
    exact .inr ⟨rfl, text, rest, begins, plain⟩

/-- A call that the built-in function of that name declines begins with no
argument. -/
theorem Builtin.front_of_layout_eq_none {arguments : List Spot} (checked : builtin.isFronted = true)
    (declined : builtin.layout site arguments = none) : builtin.front arguments.length = none := by
  cases builtin with
  | template least text =>
    rw [layout] at declined
    split at declined
    · cases declined
    · next few => rw [front, if_neg few]
  | variableTemplate least text =>
    rw [isFronted, Bool.and_eq_true, decide_eq_true_iff] at checked
    rw [front, if_neg]
    cases arguments with
    | nil =>
      rw [List.length_nil]
      omega
    | cons first others =>
      rw [layout] at declined
      split at declined
      · cases declined
      · next few => exact few
  | clearFlag =>
    cases arguments with
    | nil => rfl
    | cons => cases declined
  | _ => rfl

end Layouts

/-! ## Expressions -/

namespace Expr

theorem leadsAt_of_getElem? {mark : Char} {byName : Bool} {place : Nat} {items : List Expr}
    {item : Expr} (found : items[place]? = some item) :
    leadsAt mark byName place items = (byName && item.namesWith mark || item.leads mark) := by
  induction items generalizing place with
  | nil => cases found
  | cons first rest ih =>
    cases place with
    | zero =>
      cases found
      rw [leadsAt]
    | succ place =>
      rw [leadsAt]
      exact ih found

end Expr

namespace Spot

variable {site : Site} {mark : Char}
variable {spot : Spot}

theorem head?_of_fixed {text : String} {rest : List Chunk} (isSign : mark ∈ ['-', '='])
    (laid : spot.layout site = .fixed text :: rest) (plain : opensPlainly text = true) :
    (spot.code site).value.toList.head? ≠ some mark := by
  rw [← layoutText_layout, laid]
  refine head?_ne_of_opensPlainly isSign ?_
  rw [layoutText_cons]
  exact opensPlainly_append plain _

theorem head?_of_part {part : Spot} {rest : List Chunk} (sound : spot.Sound)
    (laid : spot.layout site = .part part :: rest) :
    part ∈ spot.operands ∧
      (spot.code site).value.toList.head? = (part.code site).value.toList.head? := by
  have inside : .part part ∈ spot.layout site := by
    rw [laid]
    exact .head _
  have isOperand := mem_operands_of_mem_layout inside
  have nonempty : Chunk.code site (.part part) ≠ "" :=
    (sound.of_mem_operands isOperand).1.settled_code.ne_empty
  refine ⟨isOperand, ?_⟩
  rw [← layoutText_layout, laid]
  exact head?_layoutText_cons nonempty rest

/-- An argument is written as its code, unless it is a text that names a
variable. -/
theorem eq_piece_or_named (byName : Bool) (argument : Spot) :
    ((if byName then argument.variablePiece else argument.piece) = [.part argument] ∧
        ∀ mark, (byName && argument.expr.namesWith mark) = false) ∨
      (byName = true ∧ ∃ value, argument.expr = .text value ∧
        (if byName then argument.variablePiece else argument.piece) =
          [.fixed (qualify (Text.trim value))]) := by
  obtain ⟨context, position, expr⟩ := argument
  cases byName with
  | false => exact .inl ⟨rfl, fun _ => rfl⟩
  | true =>
    cases expr with
    | text value => exact .inr ⟨rfl, value, rfl, rfl⟩
    | _ => exact .inl ⟨rfl, fun _ => rfl⟩

/-- The code for a call begins with a sign exactly if it begins with an argument
that does. -/
theorem head?_call_iff {context : ExprContext} {function : String} {items : List Expr}
    (sound : Sound ⟨context, .free, .call function items⟩) (isSign : mark ∈ ['-', '='])
    (parts : ∀ part ∈ operands ⟨context, .free, .call function items⟩, part.position = .free →
      ((part.code site).value.toList.head? = some mark ↔ part.expr.leads mark = true)) :
    (code site ⟨context, .free, .call function items⟩).value.toList.head? = some mark ↔
      (Expr.call function items).leads mark = true := by
  have named : IsName function := by
    cases sound.shaped with
    | call named _ _ => exact named
  have counted :
      (arguments ⟨context, .free, .call function items⟩ items).length = items.length := by
    simp [arguments]
  -- where no argument stands in front, a fixed text does
  have ofFixed {text : String} {rest : List Chunk}
      (laid : layout site ⟨context, .free, .call function items⟩ = .fixed text :: rest)
      (plain : opensPlainly text = true)
      (noFront : ∀ builtin, Builtin.find? function = some builtin →
        builtin.front items.length = none) :
      (code site ⟨context, .free, .call function items⟩).value.toList.head? = some mark ↔
        (Expr.call function items).leads mark = true := by
    refine iff_of_false (head?_of_fixed isSign laid plain) ?_
    rw [Expr.leads]
    split
    · next builtin found =>
      rw [noFront builtin found]
      simp
    · simp
  have callee : opensPlainly ((site.calleeCode function).value ++ "(") = true :=
    opensPlainly_append (site.sturdy_calleeCode (sturdy_of_isName named)).plain _
  cases found : Builtin.find? function with
  | none =>
    refine ofFixed (by simp only [layout, found, Option.bind_none]; rfl) callee ?_
    rw [found]
    rintro _ ⟨⟩
  | some builtin =>
    have checked := Builtin.isFronted_of_find? found
    cases laid : builtin.layout site (arguments ⟨context, .free, .call function items⟩ items) with
    | none =>
      have declined := Builtin.front_of_layout_eq_none checked laid
      rw [counted] at declined
      refine ofFixed (by simp only [layout, found, Option.bind_some, laid]; rfl) callee ?_
      rw [found]
      rintro _ ⟨rfl⟩
      exact declined
    | some pieces =>
      have written : layout site ⟨context, .free, .call function items⟩ = pieces := by
        simp only [layout, found, Option.bind_some, laid]
      have front := Builtin.front_layout checked laid
      rw [counted] at front
      rcases front with ⟨place, argument, rest, atPlace, isArgument, begins⟩ |
        ⟨noFront, text, rest, begins, plain⟩
      · obtain ⟨item, isItem, rfl⟩ : ∃ item, items[place]? = some item ∧
            ⟨context.arguments, .free, item⟩ = argument := by
          simpa [arguments] using isArgument
        simp only [Expr.leads, found, atPlace, Expr.leadsAt_of_getElem? isItem]
        rcases eq_piece_or_named builtin.takesName ⟨context.arguments, .free, item⟩ with
          ⟨asPart, noName⟩ | ⟨byName, value, isText, asName⟩
        · obtain ⟨isPart, same⟩ := head?_of_part sound
            (written.trans (begins.trans (congrArg (· ++ rest) asPart)))
          rw [same, noName mark, Bool.false_or]
          exact parts _ isPart rfl
        · dsimp only at isText
          subst isText
          have nonempty : Chunk.code site (.fixed (qualify (Text.trim value))) ≠ "" :=
            qualify_ne_empty _
          rw [← layoutText_layout, written, begins, asName, byName, List.singleton_append,
            head?_layoutText_cons nonempty]
          simp [Expr.namesWith, Expr.leads, Chunk.code]
      · refine ofFixed (written.trans begins) plain ?_
        rw [found]
        rintro _ ⟨rfl⟩
        exact noFront

/-- The code for a tree of the grammar begins with a sign exactly if the tree
says so. -/
theorem Sound.head?_code_iff (sound : spot.Sound) (free : spot.position = .free)
    (isSign : mark ∈ ['-', '=']) :
    (spot.code site).value.toList.head? = some mark ↔ spot.expr.leads mark = true := by
  induction spot using operandInduction with
  | step spot ih =>
    have ofParts (part : Spot) (isPart : part ∈ spot.operands) (free : part.position = .free) :
        (part.code site).value.toList.head? = some mark ↔ part.expr.leads mark = true :=
      ih part isPart (sound.of_mem_operands isPart).1 free
    have ofPart (part : Spot) {rest : List Chunk} (laid : spot.layout site = .part part :: rest)
        (free : part.position = .free) :
        (spot.code site).value.toList.head? = some mark ↔ part.expr.leads mark = true := by
      obtain ⟨isPart, same⟩ := head?_of_part sound laid
      rw [same]
      exact ofParts part isPart free
    have ofFixed {text : String} {rest : List Chunk}
        (laid : spot.layout site = .fixed text :: rest) (plain : opensPlainly text = true)
        (noSign : spot.expr.leads mark = false) :
        (spot.code site).value.toList.head? = some mark ↔ spot.expr.leads mark = true :=
      iff_of_false (head?_of_fixed isSign laid plain) (by simp [noSign])
    obtain ⟨context, position, expr⟩ := spot
    dsimp only at free
    subst free
    have ofBinary {op : BinaryOp} {left right : Expr} (same : expr = .binary op left right) :
        (code site ⟨context, .free, expr⟩).value.toList.head? = some mark ↔
          expr.leads mark = true := by
      subst same
      cases op with
      | pow | mod => exact ofFixed rfl (by decide) rfl
      | isIn =>
        by_cases isRange : ∃ low high, right = .range low high
        · obtain ⟨low, high, rfl⟩ := isRange
          exact ofFixed rfl (by decide) rfl
        · rw [not_exists] at isRange
          have laid : layout site ⟨context, .free, .binary .isIn left right⟩ =
              [.part ⟨context.arguments, .free, right⟩, .fixed ".find(",
                .part ⟨context.arguments, .free, left⟩, .fixed ") !== null"] := by
            cases right with
            | range low high => exact absurd ⟨high, rfl⟩ (isRange low)
            | _ => rfl
          rw [Expr.leads]
          · exact ofPart ⟨context.arguments, .free, right⟩ laid rfl
          · rintro low high rfl
            exact isRange low ⟨high, rfl⟩
      | _ => exact ofPart ⟨context, .free, left⟩ rfl rfl
    cases sound.shaped with
    | number numeral => exact ofFixed rfl (sturdy_numberCode numeral).plain rfl
    | text value => exact ofFixed rfl (sturdy_expand value).plain rfl
    | name isName =>
      exact ofFixed rfl (site.sturdy_nameCode context (sturdy_of_isName isName)).plain rfl
    | list inside | grouped inside => exact ofFixed rfl (by decide) rfl
    | @prefixed op operand inFront inside tight =>
      have attached := @value_code_unary site context .free op operand sound.shaped
      rw [attached, UnaryOp.attach, if_neg (by simp [inFront]), Expr.leads,
        if_neg (by simp [inFront]), beq_iff_eq, String.toList_append]
      cases op <;> rfl
    | @postfixed op operand behind inside tight =>
      rw [Expr.leads, if_pos behind]
      cases op with
      | postIncrement | postDecrement => exact ofPart ⟨context, .free, operand⟩ rfl rfl
      | _ => cases behind
    | assignment | operation | within => exact ofBinary rfl
    | conditional => exact ofFixed rfl (by decide) rfl
    | call => exact head?_call_iff sound isSign ofParts
    | @index target indices =>
      rw [Expr.leads]
      exact ofPart ⟨context, .free, target⟩ rfl rfl
    | @dotted head members shapedHead tight noChain nonempty =>
      obtain ⟨member, others, rfl⟩ := List.exists_cons_of_ne_nil nonempty
      rw [Expr.leads]
      exact ofPart ⟨context, .free, head⟩ rfl rfl

end Spot

end EventScript
