import EventScript.Proofs.Rendering.Congruence

/-!
# Layouts of code

The code for a spot is fixed text with the code for other spots between it.  A
layout says where: it is a list of chunks, each a text or a spot.  Following
spots through layouts leads to every place in generated code where the code for
an expression stands, with the text in front of it and the text behind it.
-/

namespace EventScript

variable {spot : Spot}

/-- A piece of generated code: a text, or the code for a spot. -/
inductive Chunk where
  | fixed (text : String)
  | part (spot : Spot)

/-- The text of a piece. -/
def Chunk.code (site : Site) : Chunk → String
  | fixed text => text
  | part spot => (spot.code site).value

/-- The text of several pieces. -/
def layoutText (site : Site) : List Chunk → String
  | [] => ""
  | chunk :: rest => chunk.code site ++ layoutText site rest

@[simp]
theorem layoutText_nil (site : Site) : layoutText site [] = "" :=
  rfl

@[simp]
theorem layoutText_cons (site : Site) (chunk : Chunk) (rest : List Chunk) :
    layoutText site (chunk :: rest) = chunk.code site ++ layoutText site rest :=
  rfl

@[simp]
theorem layoutText_append (site : Site) (first second : List Chunk) :
    layoutText site (first ++ second) = layoutText site first ++ layoutText site second := by
  induction first with
  | nil => simp
  | cons chunk rest ih => simp [ih, String.append_assoc]

/-- Pieces with a mark between each two. -/
def joinedBy (mark : String) : List (List Chunk) → List Chunk
  | [] => []
  | [only] => only
  | first :: second :: others => first ++ .fixed mark :: joinedBy mark (second :: others)

theorem layoutText_joinedBy (site : Site) (mark : String) (pieces : List (List Chunk)) :
    layoutText site (joinedBy mark pieces) = mark.intercalate (pieces.map (layoutText site)) := by
  fun_induction joinedBy mark pieces with
  | case1 => rfl
  | case2 only => simp
  | case3 first second others ih =>
    rw [layoutText_append, layoutText_cons, ih]
    simp [Chunk.code, String.append_assoc]

/-! ## Built-in functions -/

/-- Put pieces into a template. -/
def fillChunks (arguments : List (List Chunk)) : List Char → List Chunk
  | [] => []
  | '$' :: '*' :: rest => joinedBy ", " arguments ++ fillChunks arguments rest
  | '$' :: digit :: rest =>
    if digit.isDigit then
      arguments[digit.toNat - '0'.toNat]?.getD [] ++ fillChunks arguments rest
    else .fixed "$" :: fillChunks arguments (digit :: rest)
  | character :: rest => .fixed (String.singleton character) :: fillChunks arguments rest

theorem layoutText_fillChunks (site : Site) (arguments : List (List Chunk)) (template : List Char) :
    layoutText site (fillChunks arguments template) =
      String.ofList (fillTemplate (arguments.map (layoutText site)) template) := by
  fun_induction fillChunks arguments template with
  | case1 => rfl
  | case2 rest ih =>
    rw [layoutText_append, layoutText_joinedBy, ih, fillTemplate,
      String.ofList_append, String.ofList_toList]
    rfl
  | case3 digit rest notStar isDigit ih =>
    rw [layoutText_append, ih, fillTemplate, if_pos isDigit,
      String.ofList_append, String.ofList_toList, List.getElem?_map]
    · cases arguments[digit.toNat - '0'.toNat]? <;> rfl
    · exact notStar
  | case4 digit rest notStar notDigit ih =>
    rw [layoutText_cons, ih, fillTemplate, if_neg notDigit, String.ofList_cons]
    · rfl
    · exact notStar
  | case5 character rest notAll notOne ih =>
    rw [layoutText_cons, ih, fillTemplate, String.ofList_cons]
    · rfl
    · exact notAll
    · exact notOne

namespace Spot

/-- The pieces of an argument. -/
def piece (spot : Spot) : List Chunk :=
  [.part spot]

/-- The pieces of an argument that names a variable. -/
def variablePiece (spot : Spot) : List Chunk :=
  match spot.expr with
  | .text name => [.fixed (qualify (Text.trim name))]
  | _ => spot.piece

/-- The pieces of the kind of an enemy. -/
def baddyPiece (spot : Spot) : List Chunk :=
  match (Argument.mk spot.expr (pure "")).baddyNumber? with
  | some number => [.fixed (toString number)]
  | none => spot.piece

/-- An argument of a call with its code. -/
def argument (site : Site) (spot : Spot) : Argument :=
  ⟨spot.expr, spot.code site⟩

end Spot

/-- The pieces of a coordinate that is scaled from tiles to pixels. -/
def scaledPieces (site : Site) (coordinate : List Chunk) : List Chunk :=
  match Decimal.read? (Text.trim (layoutText site coordinate)) with
  | some value => [.fixed (value.scale tileSize).text]
  | none =>
    if isAtom (layoutText site coordinate) then
      coordinate ++ [.fixed ("*" ++ toString tileSize)]
    else .fixed "(" :: (coordinate ++ [.fixed (")*" ++ toString tileSize)])

/-- The pieces of a tile coordinate in pixels. -/
def pixelPieces (site : Site) (axis : Axis) (coordinate : List Chunk) : List Chunk :=
  match site.options.coordinates with
  | .inLevel => scaledPieces site coordinate ++ [.fixed (" + " ++ axis.origin)]
  | .inWorld => scaledPieces site coordinate

/-- The pieces of a condition on what a player says. -/
def Section.chatPieces (place : Section) (said : List Chunk) : List Chunk :=
  match place with
  | event current =>
    if current.name == Action.chat.name then .fixed "text == " :: said else [.fixed "false"]
  | dispatcher | prologue =>
    .fixed ("(_actionName == \"" ++ Action.chat.name ++ "\" && text == ") :: (said ++ [.fixed ")"])
  | _ => [.fixed "false"]

/-- The layout of a call of a built-in function, or nothing if the function
declines. -/
def Builtin.layout (builtin : Builtin) (site : Site) (arguments : List Spot) :
    Option (List Chunk) :=
  match builtin, arguments with
  | template least text, _ =>
    if least ≤ arguments.length then some (fillChunks (arguments.map Spot.piece) text.toList)
    else none
  | variableTemplate least text, first :: others =>
    if least ≤ arguments.length then
      some (fillChunks (first.variablePiece :: others.map Spot.piece) text.toList)
    else none
  | placement least x y text, _ =>
    if least ≤ arguments.length then
      let pieces := (arguments.map Spot.piece).modify x (pixelPieces site .x)
      some (fillChunks (pieces.modify y (pixelPieces site .y)) text.toList)
    else none
  | helper least name, _ =>
    if least ≤ arguments.length then
      some (.fixed ("this." ++ name ++ "(") ::
        (joinedBy ", " (arguments.map Spot.piece) ++ [.fixed ")"]))
    else none
  | setFlag, first :: _ =>
    some (.fixed "if (!" :: (first.variablePiece ++
      .fixed ") \x7b\n  " :: (first.variablePiece ++
        [.fixed (" = true;\n  " ++ site.place.dispatchCall ++ "\n\x7d")])))
  | clearFlag, first :: _ => some (first.variablePiece ++ [.fixed " = false"])
  | setProperty owner, first :: second :: _ =>
    match first.expr with
    | .text code =>
      (propertyTarget? code owner).map fun target => .fixed (target ++ " = ") :: second.piece
    | _ => none
  | chatTest, first :: _ => some (site.place.chatPieces first.piece)
  | placeBaddy least, kind :: x :: y :: others =>
    if least ≤ arguments.length then
      some (.fixed "this.level.putBaddy(" ::
        (joinedBy ", " (pixelPieces site .x x.piece :: pixelPieces site .y y.piece ::
          kind.baddyPiece :: others.map Spot.piece) ++ [.fixed ")"]))
    else none
  | _, _ => none

/-- How a built-in function lays out its arguments, if it has enough of them. -/
inductive Builtin.Lays (site : Site) : Builtin → List Spot → List Chunk → Prop
  | template {least : Nat} {text : String} {arguments : List Spot}
      (enough : least ≤ arguments.length) :
      Lays site (.template least text) arguments (fillChunks (arguments.map Spot.piece) text.toList)
  | variableTemplate {least : Nat} {text : String} {first : Spot} {others : List Spot}
      (enough : least ≤ others.length + 1) :
      Lays site (.variableTemplate least text) (first :: others)
        (fillChunks (first.variablePiece :: others.map Spot.piece) text.toList)
  | placement {least x y : Nat} {text : String} {arguments : List Spot} :
      Lays site (.placement least x y text) arguments
        (fillChunks (((arguments.map Spot.piece).modify x (pixelPieces site .x)).modify y
          (pixelPieces site .y)) text.toList)
  | helper {least : Nat} {name : String} {arguments : List Spot} :
      Lays site (.helper least name) arguments
        (.fixed ("this." ++ name ++ "(") ::
          (joinedBy ", " (arguments.map Spot.piece) ++ [.fixed ")"]))
  | setFlag {first : Spot} {others : List Spot} :
      Lays site .setFlag (first :: others)
        (.fixed "if (!" :: (first.variablePiece ++
          .fixed ") \x7b\n  " :: (first.variablePiece ++
            [.fixed (" = true;\n  " ++ site.place.dispatchCall ++ "\n\x7d")])))
  | clearFlag {first : Spot} {others : List Spot} :
      Lays site .clearFlag (first :: others) (first.variablePiece ++ [.fixed " = false"])
  | setProperty {owner code target : String} {first second : Spot} {others : List Spot}
      (isText : first.expr = .text code) (found : propertyTarget? code owner = some target) :
      Lays site (.setProperty owner) (first :: second :: others)
        (.fixed (target ++ " = ") :: second.piece)
  | chatTest {first : Spot} {others : List Spot} :
      Lays site .chatTest (first :: others) (site.place.chatPieces first.piece)
  | placeBaddy {least : Nat} {kind x y : Spot} {others : List Spot} :
      Lays site (.placeBaddy least) (kind :: x :: y :: others)
        (.fixed "this.level.putBaddy(" ::
          (joinedBy ", " (pixelPieces site .x x.piece :: pixelPieces site .y y.piece ::
            kind.baddyPiece :: others.map Spot.piece) ++ [.fixed ")"]))

section Builtins

variable {site : Site}

theorem Builtin.lays_of_layout {builtin : Builtin} {arguments : List Spot} {pieces : List Chunk}
    (laid : builtin.layout site arguments = some pieces) : builtin.Lays site arguments pieces := by
  unfold Builtin.layout at laid
  split at laid
  · split at laid
    · next enough =>
      cases laid
      exact .template enough
    · cases laid
  · split at laid
    · next enough =>
      cases laid
      exact .variableTemplate enough
    · cases laid
  · split at laid
    · cases laid
      exact .placement
    · cases laid
  · split at laid
    · cases laid
      exact .helper
    · cases laid
  · cases laid
    exact .setFlag
  · cases laid
    exact .clearFlag
  · split at laid
    · next isText =>
      obtain ⟨target, found, rfl⟩ := Option.map_eq_some_iff.mp laid
      exact .setProperty isText found
    · cases laid
  · cases laid
    exact .chatTest
  · split at laid
    · cases laid
      exact .placeBaddy
    · cases laid
  · cases laid

theorem Spot.layoutText_piece (spot : Spot) :
    layoutText site spot.piece = (spot.argument site).code.value := by
  simp [piece, argument, Chunk.code]

theorem Spot.layoutText_variablePiece (spot : Spot) :
    layoutText site spot.variablePiece = (spot.argument site).asVariable.value := by
  obtain ⟨context, position, expr⟩ := spot
  cases expr with
  | text name => simp [variablePiece, Argument.asVariable, argument, Chunk.code]
  | _ => exact layoutText_piece _

theorem Spot.layoutText_baddyPiece (spot : Spot) :
    layoutText site spot.baddyPiece = (spot.argument site).asBaddyKind.value := by
  have number : (spot.argument site).baddyNumber? =
      (Argument.mk spot.expr (pure "")).baddyNumber? := rfl
  rw [baddyPiece, Argument.asBaddyKind, number]
  cases (Argument.mk spot.expr (pure "")).baddyNumber? with
  | some kind => simp [Chunk.code]
  | none => exact layoutText_piece _

theorem layoutText_scaledPieces (coordinate : List Chunk) :
    layoutText site (scaledPieces site coordinate) =
      CoordinateMode.scaled (layoutText site coordinate) := by
  rw [scaledPieces, CoordinateMode.scaled]
  cases Decimal.read? (Text.trim (layoutText site coordinate)) with
  | some value => simp [Chunk.code]
  | none =>
    dsimp only
    split <;> simp [Chunk.code, String.append_assoc]

theorem layoutText_pixelPieces (axis : Axis) (coordinate : List Chunk) :
    layoutText site (pixelPieces site axis coordinate) =
      site.options.coordinates.toPixels (layoutText site coordinate) axis := by
  rw [pixelPieces]
  cases site.options.coordinates with
  | inLevel =>
    rw [CoordinateMode.toPixels, ← layoutText_scaledPieces]
    simp [Chunk.code, String.append_assoc]
  | inWorld => exact layoutText_scaledPieces coordinate

theorem layoutText_chatPieces (place : Section) (said : List Chunk) :
    layoutText site (place.chatPieces said) = place.chatTest (layoutText site said) := by
  unfold Section.chatPieces Section.chatTest
  cases place with
  | event current =>
    dsimp only
    split <;> simp [Chunk.code]
  | dispatcher | prologue | create | global => simp [Chunk.code, String.append_assoc]

/-- The codes of arguments are the texts of their pieces. -/
theorem value_codes (arguments : List Spot) :
    (codes (arguments.map (Spot.argument site))).value =
      arguments.map (layoutText site ∘ Spot.piece) := by
  simp [codes, Spot.layoutText_piece]

theorem map_modify_pixelPieces (axis : Axis) (pieces : List (List Chunk)) (index : Nat) :
    (pieces.modify index (pixelPieces site axis)).map (layoutText site) =
      (pieces.map (layoutText site)).modify index fun code =>
        site.options.coordinates.toPixels code axis := by
  induction pieces generalizing index with
  | nil => simp
  | cons first rest ih =>
    cases index with
    | zero => simp [layoutText_pixelPieces]
    | succ index => simp [ih]

/-- The text of a layout is the code for the call. -/
theorem Builtin.layoutText_layout {builtin : Builtin} {arguments : List Spot} :
    (builtin.layout site arguments).map (layoutText site) =
      (builtin.apply site (arguments.map (Spot.argument site))).map Emission.value := by
  cases builtin with
  | template least text =>
    rw [layout, apply, List.length_map]
    split
    · simp [layoutText_fillChunks, fill, value_codes]
    · rfl
  | variableTemplate least text =>
    cases arguments with
    | nil => rfl
    | cons first others =>
      rw [List.map_cons, layout, apply, List.length_cons, List.length_cons, List.length_map]
      split
      · simp [layoutText_fillChunks, fill, value_codes, Spot.layoutText_variablePiece]
      · rfl
  | placement least x y text =>
    rw [layout, apply, List.length_map]
    split
    · simp [layoutText_fillChunks, fill, value_codes, map_modify_pixelPieces]
    · rfl
  | helper least name =>
    rw [layout, apply, List.length_map]
    split
    · simp [layoutText_joinedBy, value_codes, joinArguments, Chunk.code, String.append_assoc]
    · rfl
  | setFlag =>
    cases arguments with
    | nil => rfl
    | cons first others =>
      simp [layout, apply, flagCode, Spot.layoutText_variablePiece, Chunk.code,
        String.append_assoc]
  | clearFlag =>
    cases arguments with
    | nil => rfl
    | cons first others =>
      simp [layout, apply, Spot.layoutText_variablePiece, Chunk.code]
  | setProperty owner =>
    rcases arguments with _ | ⟨first, _ | ⟨second, others⟩⟩
    · rfl
    · rfl
    · obtain ⟨context, position, expr⟩ := first
      cases expr with
      | text code =>
        simp only [layout, apply, List.map_cons, Spot.argument]
        cases propertyTarget? code owner with
        | none => rfl
        | some target => simp [Chunk.code, Spot.layoutText_piece, Spot.argument]
      | _ => rfl
  | chatTest =>
    cases arguments with
    | nil => rfl
    | cons first others =>
      rw [List.map_cons, layout, apply, Option.map_some, Option.map_some,
        layoutText_chatPieces, Spot.layoutText_piece]
      rfl
  | placeBaddy least =>
    rcases arguments with _ | ⟨kind, _ | ⟨x, _ | ⟨y, others⟩⟩⟩
    · rfl
    · rfl
    · rfl
    · simp only [layout, apply, List.map_cons, List.length_cons, List.length_map]
      split
      · simp [layoutText_joinedBy, layoutText_pixelPieces, Spot.layoutText_baddyPiece,
          Spot.layoutText_piece, value_codes, joinArguments, Chunk.code, String.append_assoc]
      · rfl

end Builtins

/-! ## Expressions -/

/-- The pieces of an operator in front of or behind its operand. -/
def unaryPieces (op : UnaryOp) (operand : Expr) (code : List Chunk) : List Chunk :=
  match op, operand with
  | .not, .binary inner _ _ =>
    if inner.isTest then .fixed "!(" :: (code ++ [.fixed ")"]) else .fixed "!" :: code
  | _, _ => if op.isPostfix then code ++ [.fixed op.spelling] else .fixed op.spelling :: code

/-- The pieces of an indexed expression behind its target. -/
def indexPieces (asBoard : Bool) (indices : List (List Chunk)) : List Chunk :=
  match asBoard, indices with
  | true, [column, row] =>
    .fixed "[(" :: (row ++
      .fixed (")*" ++ toString boardWidth ++ "+(") :: (column ++ [.fixed ")]"]))
  | _, _ => indices.flatMap fun index => .fixed "[" :: (index ++ [.fixed "]"])

namespace Spot

/-- The pieces of arguments, indices and members of a list. -/
def pieces (spot : Spot) (items : List Expr) : List (List Chunk) :=
  (spot.arguments items).map piece

/-- The layout of a call that no built-in function takes. -/
def callPieces (spot : Spot) (callee : String) (arguments : List Expr) : List Chunk :=
  .fixed (callee ++ "(") :: (joinedBy ", " (spot.pieces arguments) ++ [.fixed ")"])

/-- The layout of an operation with two operands. -/
def binaryPieces (spot : Spot) (op : BinaryOp) (left right : Expr) : List Chunk :=
  let operand (expr : Expr) := Chunk.part ⟨spot.context.operands op, .free, expr⟩
  match op, right with
  | .pow, _ => [.fixed "pow(", operand left, .fixed ", ", operand right, .fixed ")"]
  | .mod, _ => [.fixed "mod(", operand left, .fixed ", ", operand right, .fixed ")"]
  | .isIn, .range low high =>
    [.fixed "inRange(", operand left, .fixed ", ", operand low, .fixed ", ", operand high,
      .fixed ")"]
  | .isIn, _ => [operand right, .fixed ".find(", operand left, .fixed ") !== null"]
  | _, _ =>
    let spelling := if op = .assign ∧ spot.context.inCondition then "==" else op.spelling
    [operand left, .fixed (" " ++ spelling ++ " "), operand right]

/-- The pieces from which the code for a spot is put together. -/
def layout (site : Site) (spot : Spot) : List Chunk :=
  match spot.expr with
  | .number spelling => [.fixed (numberCode spelling)]
  | .text value => [.fixed (expand site value).value]
  | .name spelling =>
    match spot.position with
    | .free => [.fixed (site.nameCode spot.context spelling).value]
    | .member => [.fixed (site.memberCode spelling).value]
  | .list items => .fixed "[" :: (joinedBy ", " (spot.pieces items) ++ [.fixed "]"])
  | .range low high => .fixed "[" :: (joinedBy ", " (spot.pieces [low, high]) ++ [.fixed "]"])
  | .grouped inner => [.fixed "(", .part ⟨spot.context, .free, inner⟩, .fixed ")"]
  | .unary op operand => unaryPieces op operand [.part ⟨spot.context, .free, operand⟩]
  | .binary op left right => spot.binaryPieces op left right
  | .conditional condition whenTrue whenFalse =>
    .fixed "if(" :: (joinedBy ", "
      ([.part ⟨spot.context.tested, .free, condition⟩] :: spot.pieces [whenTrue, whenFalse]) ++
        [.fixed ")"])
  | .call function arguments =>
    match spot.position with
    | .free =>
      match (Builtin.find? function).bind fun builtin =>
          builtin.layout site (spot.arguments arguments) with
      | some pieces => pieces
      | none => spot.callPieces (site.calleeCode function).value arguments
    | .member => spot.callPieces function arguments
  | .index target indices =>
    .part ⟨spot.context, spot.position, target⟩ ::
      indexPieces (spot.position = .free ∧ isBoard target) (spot.pieces indices)
  | .dotted [] => []
  | .dotted (head :: members) =>
    joinedBy "." ([.part ⟨spot.context, .free, head⟩] ::
      members.map fun member => [.part ⟨spot.context.suppressed, .member, member⟩])

end Spot

section Expressions

variable {site : Site}

theorem layoutText_unaryPieces (op : UnaryOp) (operand : Expr) (code : List Chunk) :
    layoutText site (unaryPieces op operand code) = unaryCode op operand (layoutText site code) := by
  fun_cases unaryPieces op operand code with
  | case1 inner left right isTest =>
    simp [unaryCode, isTest, Chunk.code, String.append_assoc]
  | case2 inner left right notTest => simp [unaryCode, notTest, Chunk.code]
  | case3 _ _ isPostfix notSpecial =>
    rw [unaryCode, UnaryOp.attach, if_pos isPostfix, if_pos isPostfix]
    · simp [Chunk.code]
    · exact notSpecial
  | case4 _ _ notPostfix notSpecial =>
    rw [unaryCode, UnaryOp.attach, if_neg notPostfix, if_neg notPostfix]
    · simp [Chunk.code]
    · exact notSpecial

theorem layoutText_brackets (indices : List (List Chunk)) :
    layoutText site (indices.flatMap fun index => .fixed "[" :: (index ++ [.fixed "]"])) =
      String.join ((indices.map (layoutText site)).map fun index => "[" ++ index ++ "]") := by
  induction indices with
  | nil => rfl
  | cons index others ih =>
    rw [List.flatMap_cons, layoutText_append, ih]
    simp [Chunk.code, String.append_assoc]

theorem layoutText_indexPieces (asBoard : Bool) (base : String) (indices : List (List Chunk)) :
    base ++ layoutText site (indexPieces asBoard indices) =
      indexCode asBoard base (indices.map (layoutText site)) := by
  fun_cases indexPieces asBoard indices with
  | case1 column row => simp [indexCode, Chunk.code, String.append_assoc]
  | case2 _ _ notBoard =>
    rw [indexCode, layoutText_brackets]
    intro column row isBoard same
    obtain ⟨first, rest, rfl, -, isRest⟩ := List.map_eq_cons_iff.mp same
    obtain ⟨second, others, rfl, -, isNil⟩ := List.map_eq_cons_iff.mp isRest
    obtain rfl := List.map_eq_nil_iff.mp isNil
    exact notBoard first second isBoard rfl

namespace Spot

/-- The codes of arguments are the texts of their pieces. -/
theorem value_arguments (spot : Spot) (items : List Expr) :
    (Emission.sequence (renderAllWith (expand site) site spot.context.arguments .free items)).value =
      (spot.pieces items).map (layoutText site) := by
  simp [renderAllWith_eq_map, pieces, arguments, layoutText_piece, argument, code, codeWith]

theorem layoutText_callPieces (spot : Spot) (callee : String) (arguments : List Expr) :
    layoutText site (spot.callPieces callee arguments) =
      callee ++ "(" ++ joinArguments ((spot.pieces arguments).map (layoutText site)) ++ ")" := by
  simp [callPieces, layoutText_joinedBy, joinArguments, Chunk.code, String.append_assoc]

theorem layoutText_binaryPieces (spot : Spot) (op : BinaryOp) (left right : Expr) :
    layoutText site (spot.binaryPieces op left right) =
      (code site ⟨spot.context, spot.position, .binary op left right⟩).value := by
  cases op with
  | pow | mod =>
    simp [binaryPieces, code, codeWith, renderWith, Chunk.code, ExprContext.operands,
      String.append_assoc]
  | isIn =>
    cases right with
    | range low high =>
      simp [binaryPieces, code, codeWith, renderWith, Chunk.code, ExprContext.operands,
        String.append_assoc]
    | _ =>
      rw [code, codeWith, renderWith_isIn (by simp)]
      simp [binaryPieces, code, codeWith, Chunk.code, ExprContext.operands,
        String.append_assoc]
  | _ =>
    simp [binaryPieces, code, codeWith, renderWith, Chunk.code, ExprContext.operands,
      String.append_assoc]

/-- The layout of a call is that of the built-in function, unless it declines. -/
theorem layoutText_call (context : ExprContext) (function : String) (arguments : List Expr) :
    layoutText site (layout site ⟨context, .free, .call function arguments⟩) =
      (code site ⟨context, .free, .call function arguments⟩).value := by
  have sameArguments : argumentsBy (renderWith (expand site) site context.arguments .free) arguments =
      (Spot.arguments ⟨context, .free, .call function arguments⟩ arguments).map (argument site) := by
    simp [argumentsBy, Spot.arguments, argument, code, codeWith]
  rw [code, codeWith, renderWith, zipWith_renderAllWith, Site.callCode, sameArguments, layout]
  dsimp only
  cases Builtin.find? function with
  | none =>
    simp [layoutText_callPieces, pieces, value_codes]
  | some builtin =>
    have same := @Builtin.layoutText_layout site builtin
      (Spot.arguments ⟨context, .free, .call function arguments⟩ arguments)
    rw [Option.bind_some, Option.bind_some]
    cases applied : builtin.apply site
        ((Spot.arguments ⟨context, .free, .call function arguments⟩ arguments).map
          (argument site)) with
    | none =>
      rw [applied, Option.map_none, Option.map_eq_none_iff] at same
      rw [same]
      simp [layoutText_callPieces, pieces, value_codes]
    | some emission =>
      rw [applied, Option.map_some, Option.map_eq_some_iff] at same
      obtain ⟨pieces, isLayout, isValue⟩ := same
      rw [isLayout]
      exact isValue

/-- The text of the layout of a spot is the code for it. -/
theorem layoutText_layout (spot : Spot) :
    layoutText site (spot.layout site) = (spot.code site).value := by
  obtain ⟨context, position, expr⟩ := spot
  cases expr with
  | number spelling | text value => simp [layout, code, codeWith, renderWith, Chunk.code]
  | name spelling => cases position <;> simp [layout, code, codeWith, renderWith, Chunk.code]
  | list items =>
    simp [layout, code, codeWith, renderWith, layoutText_joinedBy, Chunk.code, joinArguments,
      ← value_arguments, String.append_assoc]
  | range low high | conditional condition whenTrue whenFalse =>
    simp [layout, code, codeWith, renderWith, layoutText_joinedBy, Chunk.code, pieces, arguments,
      piece, String.append_assoc]
  | grouped inner =>
    simp [layout, code, codeWith, renderWith, Chunk.code, String.append_assoc]
  | unary op operand =>
    simp [layout, code, codeWith, renderWith, layoutText_unaryPieces, Chunk.code]
  | binary op left right => exact layoutText_binaryPieces ⟨context, position, _⟩ op left right
  | call function arguments =>
    cases position with
    | free => exact layoutText_call context function arguments
    | member =>
      rw [layout, code, codeWith, renderWith]
      simp [layoutText_callPieces, ← value_arguments]
  | index target indices =>
    rw [layout, layoutText_cons, layoutText_indexPieces, ← value_arguments, code, codeWith,
      renderWith]
    rfl
  | dotted segments =>
    cases segments with
    | nil => simp [layout, code, codeWith, renderWith]
    | cons head members =>
      simp [layout, code, codeWith, renderWith, renderAllWith_eq_map, layoutText_joinedBy,
        Chunk.code, Function.comp_def]

/-- The code for one spot stands in that for another, between two texts. -/
inductive Stands (site : Site) : Spot → String → Spot → String → Prop
  | here (spot : Spot) : Stands site spot "" spot ""
  | inside {spot part inner : Spot} {front back : List Chunk} {before after : String}
      (split : spot.layout site = front ++ .part part :: back)
      (deeper : Stands site part before inner after) :
      Stands site spot (layoutText site front ++ before) inner (after ++ layoutText site back)

theorem Stands.value_code {outer inner : Spot} {before after : String}
    (stands : Stands site outer before inner after) :
    (outer.code site).value = before ++ (inner.code site).value ++ after := by
  induction stands with
  | here spot => simp
  | inside split _ ih =>
    rw [← layoutText_layout, split]
    simp [Chunk.code, ih, String.append_assoc]

end Spot

end Expressions

/-! ## Parts of layouts -/

section Parts

variable {site : Site} {part : Spot}

theorem exists_mem_of_mem_joinedBy {mark : String} {pieces : List (List Chunk)}
    (inside : .part part ∈ joinedBy mark pieces) : ∃ piece ∈ pieces, .part part ∈ piece := by
  fun_induction joinedBy mark pieces with
  | case1 => cases inside
  | case2 only => exact ⟨only, .head _, inside⟩
  | case3 first second others ih =>
    rcases List.mem_append.mp inside with inFirst | isLater
    · exact ⟨first, .head _, inFirst⟩
    · rcases List.mem_cons.mp isLater with isFixed | later
      · cases isFixed
      · obtain ⟨piece, among, inPiece⟩ := ih later
        exact ⟨piece, .tail _ among, inPiece⟩

theorem exists_mem_of_mem_fillChunks {arguments : List (List Chunk)} {template : List Char}
    (inside : .part part ∈ fillChunks arguments template) :
    ∃ piece ∈ arguments, .part part ∈ piece := by
  fun_induction fillChunks arguments template with
  | case1 => cases inside
  | case2 rest ih =>
    rcases List.mem_append.mp inside with inArguments | later
    · exact exists_mem_of_mem_joinedBy inArguments
    · exact ih later
  | case3 digit rest _ isDigit ih =>
    rcases List.mem_append.mp inside with inArgument | later
    · cases found : arguments[digit.toNat - '0'.toNat]? with
      | none =>
        rw [found] at inArgument
        cases inArgument
      | some piece =>
        rw [found] at inArgument
        exact ⟨piece, List.mem_of_getElem? found, inArgument⟩
    · exact ih later
  | case4 digit rest _ notDigit ih | case5 character rest _ _ ih =>
    rcases List.mem_cons.mp inside with isFixed | later
    · cases isFixed
    · exact ih later

theorem mem_of_mem_scaledPieces {coordinate : List Chunk}
    (inside : .part part ∈ scaledPieces site coordinate) : .part part ∈ coordinate := by
  rw [scaledPieces] at inside
  split at inside
  · simp at inside
  · split at inside <;> simpa using inside

theorem mem_of_mem_pixelPieces {axis : Axis} {coordinate : List Chunk}
    (inside : .part part ∈ pixelPieces site axis coordinate) : .part part ∈ coordinate := by
  rw [pixelPieces] at inside
  split at inside
  · have inScaled : .part part ∈ scaledPieces site coordinate := by simpa using inside
    exact mem_of_mem_scaledPieces inScaled
  · exact mem_of_mem_scaledPieces inside

theorem exists_mem_of_mem_modify {axis : Axis} {pieces : List (List Chunk)} {index : Nat}
    (inside : ∃ piece ∈ pieces.modify index (pixelPieces site axis), .part part ∈ piece) :
    ∃ piece ∈ pieces, .part part ∈ piece := by
  obtain ⟨piece, among, inPiece⟩ := inside
  induction pieces generalizing index with
  | nil => simp at among
  | cons first rest ih =>
    cases index with
    | zero =>
      rw [List.modify_zero_cons] at among
      rcases List.mem_cons.mp among with rfl | later
      · exact ⟨first, .head _, mem_of_mem_pixelPieces inPiece⟩
      · exact ⟨piece, .tail _ later, inPiece⟩
    | succ index =>
      rw [List.modify_succ_cons] at among
      rcases List.mem_cons.mp among with rfl | later
      · exact ⟨piece, .head _, inPiece⟩
      · obtain ⟨other, amongRest, inOther⟩ := ih later
        exact ⟨other, .tail _ amongRest, inOther⟩

theorem mem_of_mem_chatPieces {place : Section} {said : List Chunk}
    (inside : .part part ∈ place.chatPieces said) : .part part ∈ said := by
  unfold Section.chatPieces at inside
  split at inside
  · split at inside <;> simp at inside
    exact inside
  · simpa using inside
  · simpa using inside
  · simp at inside

theorem mem_of_mem_map_piece {arguments : List Spot}
    (inside : ∃ piece ∈ arguments.map Spot.piece, .part part ∈ piece) : part ∈ arguments := by
  obtain ⟨piece, among, inPiece⟩ := inside
  obtain ⟨spot, isArgument, rfl⟩ := List.mem_map.mp among
  cases List.mem_singleton.mp inPiece
  exact isArgument

namespace Spot

theorem mem_asVariable_of_mem_variablePiece (inside : .part part ∈ spot.variablePiece) :
    part = spot ∧ part.expr ∈ spot.expr.asVariable := by
  obtain ⟨context, position, expr⟩ := spot
  cases expr with
  | text name => simp [variablePiece] at inside
  | _ =>
    cases List.mem_singleton.mp inside
    exact ⟨rfl, .head _⟩

theorem eq_of_mem_baddyPiece (inside : .part part ∈ spot.baddyPiece) :
    part = spot ∧ (Argument.mk spot.expr (pure "")).baddyNumber? = none := by
  rw [baddyPiece] at inside
  split at inside
  · simp at inside
  · next unknown =>
    cases List.mem_singleton.mp inside
    exact ⟨rfl, unknown⟩

end Spot

/-- A built-in function lays out arguments for which it writes code. -/
theorem Builtin.mem_of_mem_layout {builtin : Builtin} {arguments : List Spot} {pieces : List Chunk}
    (laid : builtin.layout site arguments = some pieces) (inside : .part part ∈ pieces) :
    part ∈ arguments ∧ part.expr ∈ builtin.written (arguments.map Spot.expr) := by
  have ofAll (inPieces : ∃ piece ∈ arguments.map Spot.piece, .part part ∈ piece)
      (all : builtin.written (arguments.map Spot.expr) = arguments.map Spot.expr) :
      part ∈ arguments ∧ part.expr ∈ builtin.written (arguments.map Spot.expr) := by
    have isArgument := mem_of_mem_map_piece inPieces
    rw [all]
    exact ⟨isArgument, List.mem_map_of_mem isArgument⟩
  cases Builtin.lays_of_layout laid with
  | template => exact ofAll (exists_mem_of_mem_fillChunks inside) rfl
  | placement =>
    have inPieces := exists_mem_of_mem_fillChunks inside
    exact ofAll (exists_mem_of_mem_modify (exists_mem_of_mem_modify inPieces)) rfl
  | helper =>
    have inArguments : .part part ∈ joinedBy ", " (arguments.map Spot.piece) := by
      simpa using inside
    exact ofAll (exists_mem_of_mem_joinedBy inArguments) rfl
  | variableTemplate enough =>
    obtain ⟨piece, among, inPiece⟩ := exists_mem_of_mem_fillChunks inside
    rw [List.map_cons, written, List.length_cons, List.length_map, if_pos enough]
    rcases List.mem_cons.mp among with rfl | later
    · obtain ⟨rfl, isVariable⟩ := Spot.mem_asVariable_of_mem_variablePiece inPiece
      exact ⟨.head _, List.mem_append_left _ isVariable⟩
    · have isArgument := mem_of_mem_map_piece ⟨piece, later, inPiece⟩
      exact ⟨.tail _ isArgument, List.mem_append_right _ (List.mem_map_of_mem isArgument)⟩
  | @setFlag first | @clearFlag first =>
    have inFirst : .part part ∈ first.variablePiece := by simpa using inside
    obtain ⟨rfl, isVariable⟩ := Spot.mem_asVariable_of_mem_variablePiece inFirst
    exact ⟨.head _, isVariable⟩
  | @setProperty _ _ _ _ second _ isText found =>
    have isSecond : part = second := by simpa [Spot.piece] using inside
    subst isSecond
    rw [List.map_cons, List.map_cons, isText, written, found]
    exact ⟨.tail _ (.head _), .head _⟩
  | chatTest =>
    cases List.mem_singleton.mp (mem_of_mem_chatPieces inside)
    exact ⟨.head _, .head _⟩
  | @placeBaddy _ kind x y others =>
    have inArguments : .part part ∈ joinedBy ", " (pixelPieces site .x x.piece ::
        pixelPieces site .y y.piece :: kind.baddyPiece :: others.map Spot.piece) := by
      simpa using inside
    obtain ⟨piece, among, inPiece⟩ := exists_mem_of_mem_joinedBy inArguments
    rw [List.map_cons, List.map_cons, List.map_cons, written]
    rcases List.mem_cons.mp among with rfl | among
    · cases List.mem_singleton.mp (mem_of_mem_pixelPieces inPiece)
      exact ⟨.tail _ (.head _), List.mem_append_right _ (.head _)⟩
    rcases List.mem_cons.mp among with rfl | among
    · cases List.mem_singleton.mp (mem_of_mem_pixelPieces inPiece)
      exact ⟨.tail _ (.tail _ (.head _)), List.mem_append_right _ (.tail _ (.head _))⟩
    rcases List.mem_cons.mp among with rfl | among
    · obtain ⟨rfl, unknown⟩ := Spot.eq_of_mem_baddyPiece inPiece
      rw [unknown, if_neg (by simp)]
      exact ⟨.head _, List.mem_append_left _ (.head _)⟩
    · have isArgument := mem_of_mem_map_piece ⟨piece, among, inPiece⟩
      exact ⟨.tail _ (.tail _ (.tail _ isArgument)),
        List.mem_append_right _ (.tail _ (.tail _ (List.mem_map_of_mem isArgument)))⟩

theorem exists_mem_of_mem_indexPieces {asBoard : Bool} {indices : List (List Chunk)}
    (inside : .part part ∈ indexPieces asBoard indices) :
    ∃ index ∈ indices, .part part ∈ index := by
  fun_cases indexPieces asBoard indices with
  | case1 column row =>
    have inEither : .part part ∈ row ∨ .part part ∈ column := by
      simpa [indexPieces] using inside
    rcases inEither with inRow | inColumn
    · exact ⟨row, .tail _ (.head _), inRow⟩
    · exact ⟨column, .head _, inColumn⟩
  | case2 _ _ notBoard =>
    rw [indexPieces] at inside
    · obtain ⟨index, among, inIndex⟩ := List.mem_flatMap.mp inside
      exact ⟨index, among, by simpa using inIndex⟩
    · exact notBoard

namespace Spot

theorem mem_arguments_of_mem_callPieces {callee : String} {items : List Expr}
    (inside : .part part ∈ spot.callPieces callee items) : part ∈ spot.arguments items := by
  have inPieces : .part part ∈ joinedBy ", " (spot.pieces items) := by
    simpa [callPieces] using inside
  exact mem_of_mem_map_piece (exists_mem_of_mem_joinedBy inPieces)

/-- The layout of a call holds arguments for which code is written. -/
theorem mem_arguments_of_mem_layout_call {context : ExprContext} {function : String}
    {items : List Expr} (inside : .part part ∈ layout site ⟨context, .free, .call function items⟩) :
    part ∈ arguments ⟨context, .free, .call function items⟩ (writtenArguments function items) := by
  have exprs : (arguments ⟨context, .free, .call function items⟩ items).map expr = items := by
    simp [arguments, Function.comp_def]
  have ofWritten {written : List Expr}
      (isArgument : part ∈ arguments ⟨context, .free, .call function items⟩ items)
      (isWritten : part.expr ∈ written) :
      part ∈ arguments ⟨context, .free, .call function items⟩ written := by
    obtain ⟨item, -, rfl⟩ := List.mem_map.mp isArgument
    exact List.mem_map_of_mem isWritten
  rw [layout] at inside
  dsimp only at inside
  rw [writtenArguments]
  cases found : Builtin.find? function with
  | none =>
    rw [found] at inside
    exact mem_arguments_of_mem_callPieces inside
  | some builtin =>
    rw [found, Option.bind_some] at inside
    dsimp only
    cases laid : builtin.layout site (arguments ⟨context, .free, .call function items⟩ items) with
    | some pieces =>
      rw [laid] at inside
      obtain ⟨isArgument, isWritten⟩ := Builtin.mem_of_mem_layout laid inside
      rw [exprs] at isWritten
      exact ofWritten isArgument isWritten
    | none =>
      rw [laid] at inside
      have declines : builtin.apply site (argumentsBy
          (fun item => code site ⟨context.arguments, .free, item⟩) items) = none := by
        have same := @Builtin.layoutText_layout site builtin
          (arguments ⟨context, .free, .call function items⟩ items)
        rw [laid, Option.map_none, eq_comm, Option.map_eq_none_iff] at same
        simpa [argumentsBy, arguments, argument, Function.comp_def] using same
      rw [Builtin.written_of_declines declines]
      exact mem_arguments_of_mem_callPieces inside

/-- The spots in a layout are operands. -/
theorem mem_operands_of_mem_layout (inside : .part part ∈ spot.layout site) :
    part ∈ spot.operands := by
  obtain ⟨context, position, expr⟩ := spot
  cases expr with
  | number spelling | text value => simp [layout] at inside
  | name spelling => cases position <;> simp [layout] at inside
  | list items =>
    have inPieces : .part part ∈ joinedBy ", " (Spot.pieces ⟨context, position, .list items⟩ items) := by
      simpa [layout] using inside
    exact mem_of_mem_map_piece (exists_mem_of_mem_joinedBy inPieces)
  | range low high =>
    have inPieces : .part part ∈ joinedBy ", "
        (Spot.pieces ⟨context, position, .range low high⟩ [low, high]) := by
      simpa [layout] using inside
    exact mem_of_mem_map_piece (exists_mem_of_mem_joinedBy inPieces)
  | grouped inner => simpa [layout, operands] using inside
  | unary op operand =>
    have isOperand : part = ⟨context, .free, operand⟩ := by
      rw [layout] at inside
      dsimp only at inside
      unfold unaryPieces at inside
      split at inside
      · split at inside <;> simpa using inside
      · split at inside <;> simpa using inside
    exact List.mem_singleton.mpr isOperand
  | binary op left right =>
    cases op with
    | isIn =>
      cases right with
      | range low high =>
        simpa [layout, binaryPieces, operands, Expr.operandsOf, Expr.bounds] using inside
      | _ =>
        simpa [layout, binaryPieces, operands, Expr.operandsOf, Expr.bounds, or_comm] using inside
    | _ => simpa [layout, binaryPieces, operands, Expr.operandsOf] using inside
  | conditional condition whenTrue whenFalse =>
    simpa [layout, joinedBy, pieces, arguments, piece, operands] using inside
  | call function arguments =>
    cases position with
    | free =>
      exact mem_arguments_of_mem_layout_call inside
    | member => exact mem_arguments_of_mem_callPieces inside
  | index target indices =>
    rw [layout] at inside
    rcases List.mem_cons.mp inside with isTarget | isIndex
    · cases isTarget
      exact .head _
    · exact .tail _ (mem_of_mem_map_piece (exists_mem_of_mem_indexPieces isIndex))
  | dotted segments =>
    cases segments with
    | nil => simp [layout] at inside
    | cons head members =>
      rw [layout] at inside
      obtain ⟨piece, among, inPiece⟩ := exists_mem_of_mem_joinedBy inside
      rcases List.mem_cons.mp among with rfl | isMember
      · cases List.mem_singleton.mp inPiece
        exact .head _
      · obtain ⟨member, inMembers, rfl⟩ := List.mem_map.mp isMember
        cases List.mem_singleton.mp inPiece
        exact .tail _ (List.mem_map_of_mem inMembers)

end Spot

end Parts

end EventScript
