import EventScript.Proofs.Lexing.Signs
import EventScript.Proofs.Rendering.ClosedLayouts

/-!
# The edges of generated code

What stands at the front and at the end of the code for an expression decides
whether an operator can be written right beside it.  Names, numbers, texts and
property codes begin with no sign that continues a prefix operator.  At the end of
code signs come in pairs, whatever the expression is.
-/

namespace EventScript

variable {op : UnaryOp} {text first mark : String} {pieces : List Chunk}

/-! ## Texts -/

namespace Settled

variable {text : String}

theorem append_left (settled : Settled text) (front : String) : Settled (front ++ text) := by
  intro sign isSign odd
  rw [String.toList_append, endsOdd_append]
  exact settled sign isSign _

/-- Another pair of signs can follow. -/
theorem append_pair (settled : Settled text) (behind : op.isPostfix = true) :
    Settled (text ++ op.spelling) := by
  have paired : ∀ sign ∈ ['+', '-'], endsOdd sign false op.spelling.toList = false := by
    rw [List.forall_mem_cons, List.forall_mem_singleton]
    cases op with
    | postIncrement | postDecrement => exact ⟨rfl, rfl⟩
    | _ => cases behind
  intro sign isSign odd
  rw [String.toList_append, endsOdd_append, settled sign isSign, paired sign isSign]

theorem ne_empty (settled : Settled text) : text ≠ "" := by
  rintro rfl
  exact absurd (settled '+' (by decide) true) (by decide)

end Settled

theorem settled_of_getLast? {text : String} {last : Char}
    (isLast : text.toList.getLast? = some last) (notSign : isStepSign last = false) :
    Settled text := by
  obtain ⟨front, split⟩ := List.getLast?_eq_some_iff.mp isLast
  intro sign isSign odd
  rw [split]
  refine endsOdd_concat ?_ odd front
  rintro rfl
  rw [List.mem_cons, List.mem_singleton] at isSign
  rcases isSign with rfl | rfl <;> cases notSign

theorem settled_of_forall (nonempty : text ≠ "")
    (noSign : ∀ character ∈ text.toList, isStepSign character = false) : Settled text := by
  cases isLast : text.toList.getLast? with
  | none =>
    exact absurd (String.toList_eq_nil_iff.mp (List.getLast?_eq_none_iff.mp isLast)) nonempty
  | some last => exact settled_of_getLast? isLast (noSign last (List.mem_of_getLast? isLast))

/-- Whether a text begins with a character that continues no prefix operator. -/
def opensPlainly (text : String) : Bool :=
  text.toList.head?.any fun character => character != '-' && character != '='

theorem opensPlainly_append (plain : opensPlainly first = true) (second : String) :
    opensPlainly (first ++ second) = true := by
  rw [opensPlainly] at plain ⊢
  rw [String.toList_append]
  cases spelled : first.toList with
  | nil =>
    rw [spelled] at plain
    cases plain
  | cons =>
    rw [spelled] at plain
    exact plain

theorem opensPlainly_of_head {first : Char} {rest : List Char}
    (spelled : text.toList = first :: rest) (notMinus : first ≠ '-') (notEqual : first ≠ '=') :
    opensPlainly text = true := by
  simp [opensPlainly, spelled, notMinus, notEqual]

/-- A text at which operators can be written on both sides. -/
structure Sturdy (text : String) : Prop where
  plain : opensPlainly text = true
  settled : Settled text

instance (text : String) : Decidable (Sturdy text) :=
  decidable_of_iff (opensPlainly text = true ∧ Settled text)
    ⟨fun both => ⟨both.1, both.2⟩, fun sturdy => ⟨sturdy.plain, sturdy.settled⟩⟩

theorem Sturdy.append {second : String} (plain : opensPlainly first = true)
    (settled : Settled second) : Sturdy (first ++ second) :=
  ⟨opensPlainly_append plain second, settled.append_left first⟩

theorem settled_intercalate {parts : List String} (nonempty : parts ≠ [])
    (settled : ∀ part ∈ parts, Settled part) : Settled (mark.intercalate parts) := by
  induction parts with
  | nil => exact absurd rfl nonempty
  | cons first rest ih =>
    rw [List.forall_mem_cons] at settled
    cases rest with
    | nil =>
      rw [String.intercalate_singleton]
      exact settled.1
    | cons second others =>
      rw [String.intercalate_cons_cons]
      exact (ih (List.cons_ne_nil _ _) settled.2).append_left _

theorem opensPlainly_intercalate (plain : opensPlainly first = true) (rest : List String) :
    opensPlainly (mark.intercalate (first :: rest)) = true := by
  cases rest with
  | nil => rwa [String.intercalate_singleton]
  | cons second others =>
    rw [String.intercalate_cons_cons]
    exact opensPlainly_append (opensPlainly_append plain _) _

/-- Whatever stands between sturdy edges. -/
theorem Sturdy.between {opening closing : String} (plain : opensPlainly opening = true)
    (settled : Settled closing) (inner : String) : Sturdy (opening ++ inner ++ closing) :=
  .append (opensPlainly_append plain inner) settled

/-- A text without signs. -/
theorem sturdy_of_forall (nonempty : text ≠ "")
    (noSign : ∀ character ∈ text.toList, isStepSign character = false ∧ character ≠ '=') :
    Sturdy text := by
  refine ⟨?_, settled_of_forall nonempty fun character inside => (noSign character inside).1⟩
  cases spelled : text.toList with
  | nil => exact absurd (String.toList_eq_nil_iff.mp spelled) nonempty
  | cons first rest =>
    obtain ⟨notStep, notEqual⟩ := noSign first (spelled ▸ List.mem_cons_self)
    refine opensPlainly_of_head spelled ?_ notEqual
    rintro rfl
    cases notStep

theorem noSign_of_isNameChar {character : Char} (named : isNameChar character = true) :
    isStepSign character = false ∧ character ≠ '=' := by
  refine ⟨?_, ne_of_isNameChar named (by decide)⟩
  rw [Bool.eq_false_iff]
  intro isStep
  rw [not_isNameChar_stepSign isStep] at named
  cases named

theorem sturdy_of_isName {name : String} (named : IsName name) : Sturdy name := by
  refine sturdy_of_forall ?_ fun character inside => ?_
  · rintro rfl
    cases named.1
  · exact noSign_of_isNameChar (isNameChar_of_mem_word named.1 inside)

theorem sturdy_of_isNumeral {number : String} (numeral : IsNumeral number.toList) :
    Sturdy number := by
  refine sturdy_of_forall ?_ fun character inside => ?_
  · rintro rfl
    cases numeral.1
  · rcases isDigit_or_point_of_spanNumber numeral.2 character inside with digit | rfl
    · exact noSign_of_isNameChar ((isNameChar_iff character).mpr (.inr digit))
    · decide

theorem sturdy_quote (value : String) : Sturdy (Text.quote value) := by
  have spelled :
      (Text.quote value).toList = '"' :: (value.toList.flatMap Text.escape ++ ['"']) := by
    simp [Text.quote, Text.quoteChars]
  constructor
  · exact opensPlainly_of_head spelled (by decide) (by decide)
  · refine @settled_of_getLast? _ '"' ?_ (by decide)
    rw [spelled, ← List.cons_append, List.getLast?_concat]

/-! ## Names -/

theorem Alias.sturdy_of_find? {name : String} {entry : Alias} (options : Options)
    (found : Alias.find? name = some entry) :
    Sturdy (options.substitute entry.replacement).1 := by
  rcases substitute_cases options found with ⟨known, unmarked, same⟩ | isFilled
  · have checked : ∀ entry ∈ table, Sturdy entry.replacement ∨ '#' ∈ entry.replacement.toList := by
      decide +kernel
    rw [same]
    exact (checked entry known).resolve_right unmarked
  · have checked : ∀ filled ∈ filledIn, Sturdy filled.2 := by decide +kernel
    have sturdy := checked _ isFilled
    dsimp only at sturdy
    exact sturdy

section Names

variable {name : String}

theorem Section.sturdy_actionTest (place : Section) (action : Action) :
    Sturdy (place.actionTest action) := by
  unfold actionTest
  split
  · split <;> decide
  · exact .between (by decide) (by decide) _
  · exact .between (by decide) (by decide) _
  · decide

theorem Site.sturdy_substitute (site : Site) {entry : Alias}
    (found : Alias.find? name = some entry) :
    Sturdy (site.substitute entry.replacement).value := by
  rw [value_substitute]
  exact Alias.sturdy_of_find? site.options found

theorem sturdy_member (sturdy : Sturdy name) : Sturdy ("this." ++ name) :=
  .append (by decide) sturdy.settled

theorem Site.sturdy_nameCode (site : Site) (context : ExprContext) (sturdy : Sturdy name) :
    Sturdy (site.nameCode context name).value := by
  rw [nameCode]
  split
  · exact site.place.sturdy_actionTest _
  · split
    · next entry found =>
      have sturdyText := site.sturdy_substitute found
      split
      · exact sturdy
      · simp only [Emission.value_bind, Emission.value_pure]
        split
        · exact sturdy_member sturdyText
        · exact sturdyText
    · rw [Emission.value_pure]
      split
      · exact sturdy
      · exact sturdy_member sturdy

theorem Site.sturdy_memberCode (site : Site) (sturdy : Sturdy name) :
    Sturdy (site.memberCode name).value := by
  rw [memberCode]
  split
  · next entry found =>
    split
    · exact site.sturdy_substitute found
    · exact sturdy
  · exact sturdy

theorem Site.sturdy_calleeCode (site : Site) (sturdy : Sturdy name) :
    Sturdy (site.calleeCode name).value := by
  rw [calleeCode]
  split
  · next entry found =>
    have sturdyText := site.sturdy_substitute found
    simp only [Emission.value_bind, Emission.value_pure]
    split
    · exact sturdy_member sturdyText
    · exact sturdyText
  · rw [Emission.value_pure]
    split
    · exact .append (by decide) sturdy.settled
    · exact sturdy_member sturdy

theorem sturdy_numberCode {spelling : String} (numeral : IsNumeral spelling.toList) :
    Sturdy (numberCode spelling) :=
  sturdy_of_isNumeral (Expr.isNumeral_numberCode numeral)

end Names

/-! ## Property strings -/

section Texts

variable {site : Site} {embedded whole : String → Emission String}

theorem opensPlainly_ownerCode (argument : Option String) :
    opensPlainly (ownerCode site embedded argument).value = true := by
  unfold ownerCode
  split
  · decide
  · decide
  · decide
  · split
    · have plainPlayers : opensPlainly site.options.players = true := by
        rw [Options.players]
        cases site.options.playerList <;> decide
      exact opensPlainly_append (opensPlainly_append (opensPlainly_append plainPlayers _) _) _
    · exact opensPlainly_append (opensPlainly_append (by decide) _) _

theorem settled_of_slotProperty? {letter : Char} {slot : Option String} {property : String}
    (found : slotProperty? letter slot = some property) : Settled property := by
  unfold slotProperty? at found
  split at found
  · cases found
    exact Settled.append_left (by decide) _
  · cases found
    exact Settled.append_left (by decide) _
  · unfold propertyName? at found
    split at found
    all_goals cases found
    all_goals decide

/-- The code for a property code has sturdy edges, whatever is embedded in it. -/
theorem sturdy_propertyCode {letter : Char} {slot argument : Option String} {rendered : String}
    (isRendered : (propertyCode site embedded whole letter slot argument).value = some rendered) :
    Sturdy rendered := by
  unfold propertyCode at isRendered
  split at isRendered
  · cases isRendered
    exact .between (by decide) (by decide) _
  · cases isRendered
    exact .between (by decide) (by decide) _
  · cases isRendered
    exact .between (by decide) (by decide) _
  · split at isRendered
    · cases isRendered
      refine .append ?_ (by decide)
      exact opensPlainly_append (opensPlainly_append (opensPlainly_append (opensPlainly_append
        (opensPlainly_append (by decide) _) _) _) _) _
    · cases isRendered
  · split at isRendered
    · cases isRendered
      decide
    · cases isRendered
      decide
    · cases isRendered
      exact .between (by decide) (by decide) _
  · split at isRendered
    · next property found =>
      cases isRendered
      exact .append (opensPlainly_append (opensPlainly_ownerCode argument) _)
        (settled_of_slotProperty? found)
    · cases isRendered

theorem sturdy_intercalate {parts : List String} (nonempty : parts ≠ [])
    (sturdy : ∀ part ∈ parts, Sturdy part) : Sturdy (mark.intercalate parts) := by
  refine ⟨?_, settled_intercalate nonempty fun part inside => (sturdy part inside).settled⟩
  obtain ⟨first, rest, rfl⟩ := List.exists_cons_of_ne_nil nonempty
  exact opensPlainly_intercalate (sturdy first (.head _)).plain rest

/-- The code for a text has sturdy edges. -/
theorem sturdy_expand (content : String) : Sturdy (expand site content).value := by
  rw [expand, expandUpTo, Emission.value_bind, Emission.value_pure, joinConcatenation]
  split
  · exact sturdy_quote ""
  · next nonempty =>
    refine sturdy_intercalate (by simpa using nonempty) (forall_mem_concatenation sturdy_quote ?_ _)
    exact fun letter slot argument _ rendered => sturdy_propertyCode

end Texts

/-! ## The end of a layout -/

/-- Pieces whose last one is the code for a spot or a settled text. -/
def SettledPieces : List Chunk → Prop
  | [] => False
  | [.fixed text] => Settled text
  | [.part _] => True
  | _ :: chunk :: rest => SettledPieces (chunk :: rest)

/-- Where the code for every spot is settled, so is the text of settled pieces. -/
theorem SettledPieces.settled_layoutText {site : Site} (settled : SettledPieces pieces)
    (parts : ∀ spot, .part spot ∈ pieces → Settled (spot.code site).value) :
    Settled (layoutText site pieces) := by
  fun_induction SettledPieces pieces with
  | case1 => cases settled
  | case2 text => simpa [Chunk.code] using settled
  | case3 spot => simpa [Chunk.code] using parts spot (.head _)
  | case4 first chunk rest ih =>
    rw [layoutText_cons]
    refine (ih settled fun spot inside => ?_).append_left _
    exact parts spot (.tail _ inside)

theorem SettledPieces.cons (settled : SettledPieces pieces) (first : Chunk) :
    SettledPieces (first :: pieces) := by
  cases pieces with
  | nil => cases settled
  | cons => cases first <;> exact settled

theorem settledPieces_fixed (settled : Settled text) : SettledPieces [.fixed text] :=
  settled

theorem SettledPieces.append {second : List Chunk} (settled : SettledPieces second)
    (first : List Chunk) : SettledPieces (first ++ second) := by
  induction first with
  | nil => exact settled
  | cons chunk rest ih => exact ih.cons chunk

theorem SettledPieces.joinedBy {pieces : List (List Chunk)} (nonempty : pieces ≠ [])
    (settled : ∀ piece ∈ pieces, SettledPieces piece) : SettledPieces (joinedBy mark pieces) := by
  fun_induction EventScript.joinedBy mark pieces with
  | case1 => exact absurd rfl nonempty
  | case2 only => exact settled only (.head _)
  | case3 first second others ih =>
    exact ((ih (List.cons_ne_nil _ _) fun piece inside =>
      settled piece (.tail _ inside)).cons _).append first

/-- Whether a template ends with a character other than a sign or with one of
the allowed arguments. -/
def endsFilled (allowed : Nat → Bool) : List Char → Bool
  | [] => false
  | '$' :: '*' :: rest => endsFilled allowed rest
  | '$' :: digit :: rest =>
    if digit.isDigit then
      rest.isEmpty && allowed (digit.toNat - '0'.toNat) || endsFilled allowed rest
    else endsFilled allowed (digit :: rest)
  | character :: rest => rest.isEmpty && !isStepSign character || endsFilled allowed rest

theorem settledPieces_fillChunks {allowed : Nat → Bool} {arguments : List (List Chunk)}
    (settled : ∀ place, allowed place = true → SettledPieces (arguments[place]?.getD []))
    {template : List Char} (ends : endsFilled allowed template = true) :
    SettledPieces (fillChunks arguments template) := by
  fun_induction fillChunks arguments template with
  | case1 => cases ends
  | case2 rest ih => exact (ih ends).append _
  | case3 digit rest notStar isDigit ih =>
    rw [endsFilled, if_pos isDigit, Bool.or_eq_true, Bool.and_eq_true] at ends
    · rcases ends with ⟨atEnd, isAllowed⟩ | later
      · rw [List.isEmpty_iff.mp atEnd]
        simpa [fillChunks] using settled _ isAllowed
      · exact (ih later).append _
    · exact notStar
  | case4 digit rest notStar notDigit ih =>
    rw [endsFilled, if_neg notDigit] at ends
    · exact (ih ends).cons _
    · exact notStar
  | case5 character rest notAll notOne ih =>
    rw [endsFilled, Bool.or_eq_true, Bool.and_eq_true] at ends
    · rcases ends with ⟨atEnd, noSign⟩ | later
      · rw [List.isEmpty_iff.mp atEnd]
        have isLast : (String.singleton character).toList.getLast? = some character := by simp
        exact settled_of_getLast? isLast (by simpa using noSign)
      · exact (ih later).cons _
    · exact notAll
    · exact notOne

/-- Whether the code for a call ends as it should: with an argument that must be
there, and not with one that names a variable. -/
def Builtin.endsSettled : Builtin → Bool
  | template least text => endsFilled (· < least) text.toList
  | variableTemplate least text =>
    endsFilled (fun place => 0 < place && place < least) text.toList
  | placement _ _ _ text => endsFilled (fun _ => false) text.toList
  | _ => true

theorem Builtin.endsSettled_of_find? {function : String} {builtin : Builtin}
    (found : Builtin.find? function = some builtin) : builtin.endsSettled = true := by
  have checked : ∀ entry ∈ Builtin.table, entry.2.endsSettled = true := by
    simp only [table, List.forall_mem_append]
    refine ⟨⟨⟨⟨⟨?_, ?_⟩, ?_⟩, ?_⟩, ?_⟩, ?_⟩ <;> decide +kernel
  exact checked _ (mem_table_of_find? found)

section Builtins

variable {site : Site} {arguments : List Spot}

theorem settledPieces_map_piece {place : Nat} (inside : place < arguments.length) :
    SettledPieces ((arguments.map Spot.piece)[place]?.getD []) := by
  rw [List.getElem?_map, List.getElem?_eq_getElem inside]
  exact trivial

theorem settledPieces_chatPieces (place : Section) (said : Spot) :
    SettledPieces (place.chatPieces said.piece) := by
  unfold Section.chatPieces
  split
  · split
    · exact trivial
    · exact settledPieces_fixed (by decide)
  · exact (settledPieces_fixed (by decide)).append (_ :: _)
  · exact (settledPieces_fixed (by decide)).append (_ :: _)
  · exact settledPieces_fixed (by decide)

theorem Builtin.settledPieces_layout {builtin : Builtin} (checked : builtin.endsSettled = true)
    (laid : builtin.layout site arguments = some pieces) : SettledPieces pieces := by
  have closing : SettledPieces [.fixed ")"] := settledPieces_fixed (by decide)
  cases Builtin.lays_of_layout laid with
  | template enough =>
    refine settledPieces_fillChunks (fun place isAllowed => ?_) checked
    exact settledPieces_map_piece (Nat.lt_of_lt_of_le (of_decide_eq_true isAllowed) enough)
  | variableTemplate enough =>
    refine settledPieces_fillChunks (fun place isAllowed => ?_) checked
    rw [Bool.and_eq_true, decide_eq_true_iff, decide_eq_true_iff] at isAllowed
    obtain ⟨place, rfl⟩ := Nat.exists_eq_add_one_of_ne_zero (Nat.ne_of_gt isAllowed.1)
    exact settledPieces_map_piece (by omega)
  | placement =>
    refine settledPieces_fillChunks (fun place isAllowed => ?_) checked
    cases isAllowed
  | helper | placeBaddy => exact closing.append (_ :: _)
  | setFlag =>
    have braced : Settled (" = true;\n  " ++ site.place.dispatchCall ++ "\n\x7d") :=
      Settled.append_left (by decide) _
    exact ((((settledPieces_fixed braced).append _).cons _).append _).cons _
  | clearFlag => exact (settledPieces_fixed (by decide)).append _
  | setProperty => exact trivial
  | @chatTest first => exact settledPieces_chatPieces site.place first

end Builtins

/-! ## The end of code -/

theorem settledPieces_brackets {indices : List (List Chunk)} (nonempty : indices ≠ []) :
    SettledPieces (indices.flatMap fun index => .fixed "[" :: (index ++ [.fixed "]"])) := by
  have closing : SettledPieces [.fixed "]"] := settledPieces_fixed (by decide)
  induction indices with
  | nil => exact absurd rfl nonempty
  | cons index others ih =>
    rw [List.flatMap_cons]
    cases others with
    | nil => simpa using closing.append (.fixed "[" :: index)
    | cons => exact (ih (List.cons_ne_nil _ _)).append _

theorem settledPieces_indexed (asBoard : Bool) (target : Spot) (indices : List (List Chunk)) :
    SettledPieces (.part target :: indexPieces asBoard indices) := by
  fun_cases indexPieces asBoard indices with
  | case1 column row =>
    exact ((((settledPieces_fixed (by decide)).append column).cons _).append row).cons _ |>.cons _
  | case2 =>
    cases indices with
    | nil => exact trivial
    | cons => exact (settledPieces_brackets (List.cons_ne_nil _ _)).cons _

theorem settledPieces_unaryPieces (inFront : op.isPostfix = false) (operand : Expr) (spot : Spot) :
    SettledPieces (unaryPieces op operand [.part spot]) := by
  unfold unaryPieces
  split
  · split
    · exact (by decide : Settled ")")
    · exact trivial
  · rw [if_neg (by simp [inFront])]
    exact trivial

theorem Expr.Shaped.of_unary {operand : Expr} (shaped : (Expr.unary op operand).Shaped) :
    operand.Shaped ∧ 9 ≤ operand.level := by
  cases shaped with
  | prefixed _ inside tight => exact ⟨inside, tight⟩
  | postfixed _ inside tight => exact ⟨inside, Nat.le_trans (by decide) tight⟩

namespace Spot

variable {site : Site}

theorem settledPieces_binaryPieces (spot : Spot) (op : BinaryOp) (left right : Expr) :
    SettledPieces (spot.binaryPieces op left right) := by
  unfold binaryPieces
  dsimp only
  split
  · exact (by decide : Settled ")")
  · exact (by decide : Settled ")")
  · exact (by decide : Settled ")")
  · exact (by decide : Settled ") !== null")
  · exact trivial

theorem settledPieces_callPieces (spot : Spot) (callee : String) (arguments : List Expr) :
    SettledPieces (spot.callPieces callee arguments) :=
  (settledPieces_fixed (by decide)).append (_ :: _)

theorem settledPieces_call (context : ExprContext) (function : String) (items : List Expr) :
    SettledPieces (layout site ⟨context, .free, .call function items⟩) := by
  rw [layout]
  dsimp only
  split
  · next pieces laid =>
    obtain ⟨builtin, found, laid⟩ := Option.bind_eq_some_iff.mp laid
    exact Builtin.settledPieces_layout (Builtin.endsSettled_of_find? found) laid
  · exact settledPieces_callPieces _ _ _

/-- The pieces of a tree of the grammar are settled, unless an operator stands
behind its operand. -/
theorem settledPieces_layout {spot : Spot} (sound : spot.Sound)
    (notPostfix : ∀ op operand, spot.expr = .unary op operand → op.isPostfix = false) :
    SettledPieces (spot.layout site) := by
  obtain ⟨context, position, expr⟩ := spot
  have closing {text : String} (settled : Settled text) (front : List Chunk) :
      SettledPieces (front ++ [.fixed text]) := (settledPieces_fixed settled).append front
  have ofBinary (op : BinaryOp) (left right : Expr) :
      SettledPieces (layout site ⟨context, position, .binary op left right⟩) :=
    settledPieces_binaryPieces ⟨context, position, .binary op left right⟩ op left right
  cases sound.shaped with
  | number numeral => exact settledPieces_fixed (sturdy_numberCode numeral).settled
  | text value => exact settledPieces_fixed (sturdy_expand value).settled
  | name isName =>
    have sturdy := sturdy_of_isName isName
    cases position with
    | free => exact settledPieces_fixed (site.sturdy_nameCode context sturdy).settled
    | member => exact settledPieces_fixed (site.sturdy_memberCode sturdy).settled
  | list inside => exact closing (by decide) (_ :: _)
  | grouped inside => exact closing (by decide) [_, _]
  | prefixed inFront inside tight => exact settledPieces_unaryPieces inFront _ _
  | @postfixed op operand behind inside tight =>
    rw [notPostfix op operand rfl] at behind
    cases behind
  | assignment | operation | within => exact ofBinary _ _ _
  | conditional => exact closing (by decide) (_ :: _)
  | call isName inside quoted =>
    cases position with
    | free => exact settledPieces_call _ _ _
    | member => exact settledPieces_callPieces _ _ _
  | index => exact settledPieces_indexed _ _ _
  | dotted =>
    refine SettledPieces.joinedBy (List.cons_ne_nil _ _) ?_
    rw [List.forall_mem_cons]
    refine ⟨trivial, fun piece among => ?_⟩
    obtain ⟨member, -, rfl⟩ := List.mem_map.mp among
    exact trivial

/-- An operator of a tree of the grammar is written right beside its operand. -/
theorem value_code_unary {context : ExprContext} {position : Position} {op : UnaryOp}
    {operand : Expr} (shaped : (Expr.unary op operand).Shaped) :
    (code site ⟨context, position, .unary op operand⟩).value =
      op.attach (code site ⟨context, .free, operand⟩).value := by
  simp [code, codeWith, renderWith, unaryCode_of_tight shaped.of_unary.2]

/-- The code for a tree of the grammar is settled. -/
theorem Sound.settled_code {spot : Spot} (sound : spot.Sound) : Settled (spot.code site).value := by
  induction spot using operandInduction with
  | step spot ih =>
    have settled (part : Spot) (isPart : part ∈ spot.operands) : Settled (part.code site).value :=
      ih part isPart (sound.of_mem_operands isPart).1
    by_cases isPostfix : ∃ op operand, spot.expr = .unary op operand ∧ op.isPostfix = true
    · obtain ⟨op, operand, isUnary, behind⟩ := isPostfix
      obtain ⟨context, position, expr⟩ := spot
      dsimp only at isUnary
      subst isUnary
      rw [value_code_unary sound.shaped, UnaryOp.attach, if_pos behind]
      exact (settled _ (.head _)).append_pair behind
    · rw [← layoutText_layout]
      refine (settledPieces_layout sound fun op operand isUnary => ?_).settled_layoutText
        fun part inside => settled part (mem_operands_of_mem_layout inside)
      rw [← Bool.not_eq_true]
      exact fun behind => isPostfix ⟨op, operand, isUnary, behind⟩

end Spot

end EventScript
