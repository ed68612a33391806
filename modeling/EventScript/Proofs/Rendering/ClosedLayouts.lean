import EventScript.Proofs.Code.Closing
import EventScript.Proofs.Events.Guards
import EventScript.Proofs.Rendering.Layouts
import EventScript.Proofs.Rendering.Scanning

/-!
# Layouts are closed

In every layout brackets and quotes are closed, and spots stand outside of
quotes.  The tables of built-in functions and of names with a meaning of their
own are checked entry by entry; the rest follows the layouts.
-/

namespace EventScript

variable {state last : CodeState} {pieces : List Chunk} {name : String} {entry : Alias}
  {builtin : Builtin} {spot : Spot}
variable (options : Options)

/-! ## Pieces of closed code -/

/-- Pass over pieces of code.  A spot must stand outside of quotes, and the code
for it is taken to be closed. -/
def runChunks : CodeState → List Chunk → Option CodeState
  | state, [] => some state
  | state, .fixed text :: rest =>
    (state.run text.toList).bind fun next => runChunks next rest
  | .code depth, .part _ :: rest => runChunks (.code depth) rest
  | _, .part _ :: _ => none

/-- Pieces in which brackets and quotes are closed. -/
def ClosedPieces (pieces : List Chunk) : Prop :=
  runChunks (.code 0) pieces = some (.code 0)

theorem runChunks_append (state : CodeState) (first second : List Chunk) :
    runChunks state (first ++ second) =
      (runChunks state first).bind fun next => runChunks next second := by
  fun_induction runChunks state first with
  | case1 => rfl
  | case2 state text rest ih =>
    rw [List.cons_append, runChunks, Option.bind_assoc]
    exact Option.bind_congr fun next _ => ih next
  | case3 depth spot rest ih =>
    rw [List.cons_append, runChunks, ih]
  | case4 state spot rest notCode =>
    rw [List.cons_append, runChunks]
    · rfl
    · exact notCode

theorem runChunks_under (more : Nat) (passed : runChunks state pieces = some last) :
    runChunks (state.under more) pieces = some (last.under more) := by
  fun_induction runChunks state pieces with
  | case1 =>
    cases passed
    rfl
  | case2 state text rest ih =>
    obtain ⟨next, passedText, passedRest⟩ := Option.bind_eq_some_iff.mp passed
    exact Option.bind_eq_some_iff.mpr
      ⟨next.under more, CodeState.run_under more passedText, ih next passedRest⟩
  | case3 depth spot rest ih => exact ih passed
  | case4 => cases passed

theorem ClosedPieces.run (closed : ClosedPieces pieces) (depth : Nat) :
    runChunks (.code depth) pieces = some (.code depth) := by
  have shifted := runChunks_under depth closed
  rwa [CodeState.under, Nat.zero_add] at shifted

/-- Where the code for every spot is closed, the text of pieces is passed over
like the pieces. -/
theorem run_layoutText {site : Site}
    (parts : ∀ spot, .part spot ∈ pieces → Closed (spot.code site).value)
    (passed : runChunks state pieces = some last) :
    state.run (layoutText site pieces).toList = some last := by
  fun_induction runChunks state pieces with
  | case1 => exact passed
  | case2 state text rest ih =>
    obtain ⟨next, passedText, passedRest⟩ := Option.bind_eq_some_iff.mp passed
    rw [layoutText_cons, String.toList_append, CodeState.run_append, Chunk.code, passedText]
    exact ih next (fun spot inside => parts spot (.tail _ inside)) passedRest
  | case3 depth spot rest ih =>
    rw [layoutText_cons, String.toList_append, CodeState.run_append, Chunk.code,
      (parts spot (.head _)).run]
    exact ih (fun spot inside => parts spot (.tail _ inside)) passed
  | case4 => cases passed

theorem closedPieces_nil : ClosedPieces [] :=
  rfl

theorem closedPieces_part (spot : Spot) : ClosedPieces [.part spot] :=
  rfl

theorem closedPieces_fixed {text : String} (closed : Closed text) : ClosedPieces [.fixed text] := by
  rw [ClosedPieces, runChunks, closed]
  rfl

theorem ClosedPieces.append {first second : List Chunk} (closedFirst : ClosedPieces first)
    (closedSecond : ClosedPieces second) : ClosedPieces (first ++ second) := by
  rw [ClosedPieces, runChunks_append, closedFirst, Option.bind_some, closedSecond]

theorem ClosedPieces.fixed_cons {text : String} {rest : List Chunk} (closed : Closed text)
    (closedRest : ClosedPieces rest) : ClosedPieces (.fixed text :: rest) :=
  (closedPieces_fixed closed).append closedRest

/-- Closed pieces between a text that opens brackets and one that closes them. -/
theorem ClosedPieces.enclosed {opening closing : String} (closed : ClosedPieces pieces)
    (depth : Nat) (opens : (CodeState.code 0).run opening.toList = some (.code depth))
    (closes : (CodeState.code depth).run closing.toList = some (.code 0)) :
    ClosedPieces (.fixed opening :: (pieces ++ [.fixed closing])) := by
  rw [ClosedPieces, runChunks, opens, Option.bind_some, runChunks_append, closed.run,
    Option.bind_some, runChunks, closes]
  rfl

theorem ClosedPieces.joinedBy {mark : String} (closedMark : Closed mark)
    {pieces : List (List Chunk)} (closed : ∀ piece ∈ pieces, ClosedPieces piece) :
    ClosedPieces (joinedBy mark pieces) := by
  fun_induction EventScript.joinedBy mark pieces with
  | case1 => exact closedPieces_nil
  | case2 only => exact closed only (.head _)
  | case3 first second others ih =>
    exact (closed first (.head _)).append
      (.fixed_cons closedMark (ih fun piece inside => closed piece (.tail _ inside)))

/-- A callee in front of its arguments. -/
theorem run_callee {callee : String} (closed : Closed callee) :
    (CodeState.code 0).run (callee ++ "(").toList = some (.code 1) := by
  rw [String.toList_append, CodeState.run_append, closed]
  rfl

/-! ## Templates -/

/-- Pass over a template whose arguments are closed.  Arguments must stand outside
of quotes. -/
def runTemplate : CodeState → List Char → Option CodeState
  | state, [] => some state
  | .code depth, '$' :: '*' :: rest => runTemplate (.code depth) rest
  | .code depth, '$' :: digit :: rest =>
    if digit.isDigit then runTemplate (.code depth) rest else none
  | _, '$' :: _ => none
  | state, character :: rest => (state.step character).bind fun next => runTemplate next rest

theorem runChunks_fillChunks {arguments : List (List Chunk)}
    (closed : ∀ piece ∈ arguments, ClosedPieces piece) {template : List Char}
    (passed : runTemplate state template = some last) :
    runChunks state (fillChunks arguments template) = some last := by
  fun_induction runTemplate state template with
  | case1 => exact passed
  | case2 depth rest ih =>
    rw [fillChunks, runChunks_append, (ClosedPieces.joinedBy (by decide) closed).run]
    exact ih passed
  | case3 depth digit rest notStar isDigit ih =>
    have closedArgument : ClosedPieces (arguments[digit.toNat - '0'.toNat]?.getD []) := by
      cases found : arguments[digit.toNat - '0'.toNat]? with
      | none => exact closedPieces_nil
      | some piece => exact closed piece (List.mem_of_getElem? found)
    rw [fillChunks, if_pos isDigit, runChunks_append, closedArgument.run]
    · exact ih passed
    · exact notStar
  | case4 => cases passed
  | case5 => cases passed
  | case6 state character rest _ _ notMark ih =>
    obtain ⟨next, stepped, passedRest⟩ := Option.bind_eq_some_iff.mp passed
    have passedCharacter : state.run (String.singleton character).toList = some next := by
      rw [String.toList_singleton, CodeState.run, stepped]
      rfl
    rw [fillChunks, runChunks, passedCharacter]
    · exact ih next passedRest
    · exact fun _ isMark => absurd isMark notMark
    · exact fun _ _ isMark => absurd isMark notMark

/-! ## Fixed texts -/

theorem isPlain_of_mem_toDigits {number : Nat} {character : Char}
    (inside : character ∈ Nat.toDigits 10 number) : CodeState.isPlain character = true := by
  have digit := Nat.isDigit_of_mem_toDigits (by decide) (by decide) inside
  exact CodeState.isPlain_of_isNameChar ((isNameChar_iff character).mpr (.inr digit))

theorem closed_toString (number : Nat) : Closed (toString number) := by
  refine closed_of_isPlain fun character inside => ?_
  rw [Nat.toString_eq_ofList_toDigits, String.toList_ofList] at inside
  exact isPlain_of_mem_toDigits inside

theorem isPlain_of_mem_positional {digits : Nat} {exponent : Int} {character : Char}
    (inside : character ∈ Decimal.positional digits exponent) :
    CodeState.isPlain character = true := by
  have ofPadded {count : Nat}
      (among : character ∈ List.replicate count '0' ++ Nat.toDigits 10 digits) :
      CodeState.isPlain character = true := by
    rcases List.mem_append.mp among with isZero | isDigit
    · rw [List.eq_of_mem_replicate isZero]
      rfl
    · exact isPlain_of_mem_toDigits isDigit
  have ofFraction {places : List Char} (among : character ∈ Decimal.dropTrailingZeros places) :
      character ∈ places := by
    rw [Decimal.dropTrailingZeros, List.mem_reverse] at among
    exact List.mem_reverse.mp ((List.dropWhile_suffix _).subset among)
  unfold Decimal.positional at inside
  dsimp only at inside
  split at inside
  · rcases List.mem_append.mp inside with isDigit | isZero
    · exact isPlain_of_mem_toDigits isDigit
    · rw [List.eq_of_mem_replicate isZero]
      rfl
  · split at inside
    · exact ofPadded (List.mem_of_mem_take inside)
    · rcases List.mem_append.mp inside with isWhole | isRest
      · exact ofPadded (List.mem_of_mem_take isWhole)
      · rcases List.mem_cons.mp isRest with rfl | isFraction
        · rfl
        · exact ofPadded (List.mem_of_mem_drop (ofFraction isFraction))

/-- The text of a number holds neither brackets nor quotes. -/
theorem Binary64.closed_text (value : Binary64) : Closed value.text := by
  cases value with
  | notANumber => decide
  | infinite negative => cases negative <;> decide
  | finite negative significand exponent =>
    refine closed_of_isPlain fun character inside => ?_
    rw [text, String.toList_ofList] at inside
    rcases List.mem_append.mp inside with isSign | isDigit
    · split at isSign
      · rw [List.mem_singleton.mp isSign]
        rfl
      · cases isSign
    · split at isDigit
      · exact isPlain_of_mem_toDigits isDigit
      · exact isPlain_of_mem_positional isDigit

theorem closed_numberCode {spelling : String} (numeral : IsNumeral spelling.toList) :
    Closed (numberCode spelling) := by
  refine closed_of_isPlain fun character inside => ?_
  have spelled := (Expr.isNumeral_numberCode numeral).2
  rcases isDigit_or_point_of_spanNumber spelled character inside with digit | rfl
  · exact CodeState.isPlain_of_isNameChar ((isNameChar_iff character).mpr (.inr digit))
  · rfl

/-- Closed code between a text that opens brackets and one that closes them. -/
theorem Closed.between {opening text closing : String} (closed : Closed text) (depth : Nat)
    (opens : (CodeState.code 0).run opening.toList = some (.code depth))
    (closes : (CodeState.code depth).run closing.toList = some (.code 0)) :
    Closed (opening ++ text ++ closing) := by
  rw [Closed, String.toList_append, String.toList_append, CodeState.run_append,
    CodeState.run_append, opens, Option.bind_some, closed.run, Option.bind_some, closes]

theorem Text.replaceFrom_of_not_mem {first : Char} {pattern replacement text : List Char}
    (absent : first ∉ text) : replaceFrom (first :: pattern) replacement 0 text = text := by
  induction text with
  | nil => rfl
  | cons character rest ih =>
    rw [List.mem_cons, not_or] at absent
    have noMatch : ((first :: pattern).isPrefixOf (character :: rest)) = false := by
      simp [List.isPrefixOf, absent.1]
    rw [replaceFrom, noMatch, ih absent.2]
    rfl

theorem Text.occursIn_of_not_mem {first : Char} {pattern text : List Char} (absent : first ∉ text) :
    occursIn (first :: pattern) text = false := by
  induction text with
  | nil => rfl
  | cons character rest ih =>
    rw [List.mem_cons, not_or] at absent
    rw [occursIn, ih absent.2]
    simp [List.isPrefixOf, absent.1]

/-- A text without marks is left as it is. -/
theorem Options.substitute_of_no_mark {text : String} (unmarked : '#' ∉ text.toList) :
    options.substitute text = (text, []) := by
  have players : options.fillPlayers text = text := by
    rw [fillPlayers, Text.replace, playersMark]
    exact (congrArg String.ofList (Text.replaceFrom_of_not_mem unmarked)).trans String.ofList_toList
  have axes (axis : Axis) : options.fillAxis axis text = (text, []) := by
    have absent : Text.contains text axis.mark = false := by
      cases axis <;> exact Text.occursIn_of_not_mem unmarked
    rw [fillAxis, if_neg (by simp [absent])]
  rw [substitute, players, axes]
  dsimp only
  rw [axes]
  rfl

/-- The side that the code runs on has no part in filling in marks. -/
theorem Options.substitute_eq (text : String) :
    options.substitute text =
      Options.substitute ⟨false, options.coordinates, options.playerList⟩ text := by
  have axes (axis : Axis) (text : String) : options.fillAxis axis text =
      Options.fillAxis ⟨false, options.coordinates, options.playerList⟩ axis text := by
    rw [fillAxis, fillAxis]
  have filled : options.fillPlayers text =
      Options.fillPlayers ⟨false, options.coordinates, options.playerList⟩ text := by
    rw [fillPlayers, fillPlayers, players, players]
  simp only [substitute, axes, filled]

/-- The replacements with marks, filled in for every mode. -/
def Alias.filledIn : List (Bool × String) :=
  [(true, "localTileX(player.mouseX)"),
    (true, "localTileY(player.mouseY)"),
    (true, "tileX(player.mouseX)"),
    (true, "tileY(player.mouseY)"),
    (false, "this.level.players"),
    (false, "this.level.players.size"),
    (false, "players"),
    (false, "players.size")]

/-- What a name stands for is written in the table, unless it holds a mark. -/
theorem Alias.substitute_cases (found : Alias.find? name = some entry) :
    (entry ∈ table ∧ '#' ∉ entry.replacement.toList ∧
        (options.substitute entry.replacement).1 = entry.replacement) ∨
      (entry.ofSelf, (options.substitute entry.replacement).1) ∈ filledIn := by
  let marked : List Alias :=
    [⟨"mousex", true, "#x#(player.mouseX)"⟩, ⟨"mousey", true, "#y#(player.mouseY)"⟩,
      ⟨"players", false, "#players#"⟩, ⟨"playerscount", false, "#players#.size"⟩]
  have checked : ∀ entry ∈ table, entry ∈ marked ∨ '#' ∉ entry.replacement.toList := by
    decide +kernel
  have filled : ∀ entry ∈ marked,
      (entry.ofSelf, (options.substitute entry.replacement).1) ∈ filledIn := by
    simp only [options.substitute_eq]
    cases options.coordinates <;> cases options.playerList <;> decide +kernel
  have known : entry ∈ table := List.mem_of_find?_eq_some found
  rcases checked entry known with isMarked | unmarked
  · exact .inr (filled entry isMarked)
  · exact .inl ⟨known, unmarked, by rw [options.substitute_of_no_mark unmarked]⟩

/-- What stands for a name is closed, in every mode. -/
theorem Alias.closed_of_find? (found : Alias.find? name = some entry) :
    Closed (options.substitute entry.replacement).1 := by
  rcases substitute_cases options found with ⟨known, -, same⟩ | isFilled
  · have checked : ∀ entry ∈ table, Closed entry.replacement := by decide +kernel
    rw [same]
    exact checked entry known
  · have checked : ∀ filled ∈ filledIn, Closed filled.2 := by decide +kernel
    have closed := checked _ isFilled
    dsimp only at closed
    exact closed

theorem Site.value_substitute (site : Site) (replacement : String) :
    (site.substitute replacement).value = (site.options.substitute replacement).1 := by
  rw [substitute]
  generalize site.options.substitute replacement = filled
  rfl

section Names

variable {name : String}

theorem closed_member (closed : Closed name) : Closed ("this." ++ name) :=
  Closed.append (by decide) closed

theorem Section.closed_actionTest (place : Section) {action : Action}
    (known : action ∈ Action.table) : Closed (place.actionTest action) := by
  have closed : Closed ("_actionName == \"" ++ action.name ++ "\"") := by
    have split : "_actionName == \"" ++ action.name ++ "\"" =
        "_actionName == " ++ Text.quote action.name := by
      rw [quote_of_isWord (isWord_of_mem_table known), ← String.toList_inj]
      simp only [String.toList_append]
      rfl
    rw [split]
    exact Closed.append (by decide) (closed_quote action.name)
  cases place with
  | event current =>
    unfold actionTest
    dsimp only
    split <;> decide
  | dispatcher | prologue => exact closed
  | create | global =>
    change Closed "false"
    decide

theorem Site.closed_substitute (site : Site) (found : Alias.find? name = some entry) :
    Closed (site.substitute entry.replacement).value := by
  rw [value_substitute]
  exact Alias.closed_of_find? site.options found

theorem Site.closed_nameCode (site : Site) (context : ExprContext) (closed : Closed name) :
    Closed (site.nameCode context name).value := by
  rw [nameCode]
  split
  · next action isFlag =>
    have found : Action.find? name = some action := by
      split at isFlag
      · exact isFlag
      · cases isFlag
    exact site.place.closed_actionTest (Action.mem_table_of_find? found)
  · split
    · next entry found =>
      have closedText := site.closed_substitute found
      split
      · exact closed
      · simp only [Emission.value_bind, Emission.value_pure]
        split
        · exact closed_member closedText
        · exact closedText
    · rw [Emission.value_pure]
      split
      · exact closed
      · exact closed_member closed

theorem Site.closed_memberCode (site : Site) (closed : Closed name) :
    Closed (site.memberCode name).value := by
  rw [memberCode]
  split
  · next entry found =>
    split
    · exact site.closed_substitute found
    · exact closed
  · exact closed

theorem Site.closed_calleeCode (site : Site) (closed : Closed name) :
    Closed (site.calleeCode name).value := by
  rw [calleeCode]
  split
  · next entry found =>
    have closedText := site.closed_substitute found
    simp only [Emission.value_bind, Emission.value_pure]
    split
    · exact closed_member closedText
    · exact closedText
  · rw [Emission.value_pure]
    split
    · exact Closed.append (by decide) closed
    · exact closed_member closed

theorem closed_qualify (closed : Closed name) : Closed (qualify name) := by
  rw [qualify]
  split
  · exact closed
  · exact closed_member closed

end Names

/-- The event of a callback is a known one. -/
def Section.Known (place : Section) : Prop :=
  ∀ action, place = .event action → action ∈ Action.table

theorem Section.Known.closed_dispatchCall {place : Section} (known : place.Known) :
    Closed place.dispatchCall := by
  have closedName : Closed place.actionName := by
    cases place with
    | event action =>
      have closed := closed_quote action.name
      rwa [quote_of_isWord (isWord_of_mem_table (known action rfl))] at closed
    | dispatcher | prologue | create | global => decide
  have closedRole (role : Role) : Closed (place.roleArgument role) := by
    rw [roleArgument]
    split
    · cases role <;> decide
    · decide
  have comma : Closed ", " := by decide
  have split : place.dispatchCall = "this._actions(" ++ (place.actionName ++ ", " ++
      place.roleArgument .player ++ ", " ++ place.roleArgument .npc ++ ", " ++
        place.roleArgument .chatText) ++ ");" := by
    unfold dispatchCall
    simp only [String.append_assoc]
  rw [split]
  have inside := ((((((closedName.append comma).append (closedRole .player)).append comma).append
    (closedRole .npc)).append comma).append (closedRole .chatText))
  exact inside.between 1 (by decide) (by decide)

/-! ## Properties -/

namespace Segment

theorem closed_of_readSlot {most : Nat} {text left : List Char} {slot : String}
    (read : readSlot most text = some (slot, left)) : Closed slot := by
  unfold readSlot at read
  dsimp only at read
  split at read
  · cases read
  · obtain ⟨rfl, -⟩ := Prod.mk.inj (Option.some.inj read)
    refine closed_of_isPlain fun character inside => ?_
    rw [String.toList_ofList] at inside
    have digit := List.mem_takeWhile_imp inside
    exact CodeState.isPlain_of_isNameChar ((isNameChar_iff character).mpr (.inr digit))

/-- The slot of a segment is closed. -/
def HasClosedSlot : Segment → Prop
  | text _ => True
  | code _ slot _ => ∀ number ∈ slot, Closed number

theorem hasClosedSlot_read (text : List Char) : (Segment.read text).1.HasClosedSlot := by
  unfold Segment.read
  split
  · trivial
  · next rest _ =>
    cases isCode : readCode rest with
    | none => trivial
    | some read =>
      rw [Option.getD_some]
      cases rest with
      | nil => cases isCode
      | cons letter rest =>
        rw [readCode] at isCode
        split at isCode
        · obtain ⟨⟨slot, slotLeft⟩, read, rfl⟩ := Option.map_eq_some_iff.mp isCode
          rintro _ ⟨⟩
          exact closed_of_readSlot read
        · split at isCode
          · obtain ⟨_, _, rfl⟩ := Option.map_eq_some_iff.mp isCode
            rintro _ ⟨⟩
          · split at isCode
            · obtain rfl := Option.some.inj isCode
              rintro _ ⟨⟩
            · cases isCode
  · trivial

theorem hasClosedSlot_of_mem_readUpTo {bound : Nat} {text : List Char} {segment : Segment}
    (among : segment ∈ readUpTo bound text) : segment.HasClosedSlot := by
  induction bound generalizing text with
  | zero => cases among
  | succ bound ih =>
    cases text with
    | nil => cases among
    | cons character rest =>
      rcases List.mem_cons.mp among with rfl | later
      · exact hasClosedSlot_read (character :: rest)
      · exact ih later

end Segment

theorem closed_of_slotProperty? {letter : Char} {slot argument : Option String} {property : String}
    {content : String} (among : .code letter slot argument ∈ segments content)
    (found : slotProperty? letter slot = some property) : Closed property := by
  have closedSlot : ∀ number ∈ slot, Closed number := Segment.hasClosedSlot_of_mem_readUpTo among
  unfold slotProperty? at found
  split at found
  · cases found
    exact (closedSlot _ rfl).between 1 (by decide) (by decide)
  · cases found
    exact (closedSlot _ rfl).between 1 (by decide) (by decide)
  · unfold propertyName? at found
    split at found
    all_goals cases found
    all_goals decide

theorem closed_of_propertyTarget? {code owner target : String} (closed : Closed owner)
    (found : propertyTarget? code owner = some target) : Closed target := by
  unfold propertyTarget? at found
  split at found
  · next letter slot same =>
    obtain ⟨property, isProperty, rfl⟩ := Option.map_eq_some_iff.mp found
    have among : .code letter slot none ∈ segments (Text.trim code) := by
      rw [same]
      exact .head _
    have closedProperty := closed_of_slotProperty? among isProperty
    exact (closed.append (by decide)).append closedProperty
  · cases found

/-! ## Built-in functions -/

namespace Builtin

/-- The texts of an entry are closed, with arguments outside of quotes. -/
def isClosed : Builtin → Bool
  | template _ text => runTemplate (.code 0) text.toList = some (.code 0)
  | variableTemplate _ text => runTemplate (.code 0) text.toList = some (.code 0)
  | placement _ _ _ text => runTemplate (.code 0) text.toList = some (.code 0)
  | helper _ name => Closed name
  | setProperty owner => Closed owner
  | _ => true

theorem isClosed_of_find? {function : String} (found : Builtin.find? function = some builtin) :
    builtin.isClosed = true := by
  have checked : ∀ entry ∈ Builtin.table, entry.2.isClosed = true := by
    simp only [table, List.forall_mem_append]
    refine ⟨⟨⟨⟨⟨?_, ?_⟩, ?_⟩, ?_⟩, ?_⟩, ?_⟩ <;> decide +kernel
  exact checked _ (mem_table_of_find? found)

/-- The texts among the arguments of a call that are written as names of
variables. -/
def names : Builtin → List Expr → List String
  | variableTemplate _ _, .text name :: _ => [name]
  | setFlag, .text name :: _ => [name]
  | clearFlag, .text name :: _ => [name]
  | _, _ => []

theorem mem_of_mem_names {arguments : List Expr} (isName : name ∈ builtin.names arguments) :
    .text name ∈ arguments := by
  unfold names at isName
  split at isName
  all_goals first
    | (cases List.mem_singleton.mp isName; exact .head _)
    | cases isName

end Builtin

section Builtins

variable {site : Site} {arguments : List Spot}

theorem closedPieces_scaledPieces {coordinate : List Chunk} (closed : ClosedPieces coordinate) :
    ClosedPieces (scaledPieces site coordinate) := by
  rw [scaledPieces]
  split
  · exact closedPieces_fixed (Binary64.closed_text _)
  · split
    · exact closed.append (closedPieces_fixed (by decide))
    · exact closed.enclosed 1 (by decide) (by decide)

theorem closedPieces_pixelPieces {axis : Axis} {coordinate : List Chunk}
    (closed : ClosedPieces coordinate) : ClosedPieces (pixelPieces site axis coordinate) := by
  rw [pixelPieces]
  split
  · refine (closedPieces_scaledPieces closed).append (closedPieces_fixed ?_)
    cases axis <;> decide
  · exact closedPieces_scaledPieces closed

theorem closedPieces_modify {pieces : List (List Chunk)}
    (closed : ∀ piece ∈ pieces, ClosedPieces piece) (axis : Axis) (index : Nat) :
    ∀ piece ∈ pieces.modify index (pixelPieces site axis), ClosedPieces piece := by
  induction pieces generalizing index with
  | nil => simp
  | cons first rest ih =>
    rw [List.forall_mem_cons] at closed
    cases index with
    | zero =>
      rw [List.modify_zero_cons, List.forall_mem_cons]
      exact ⟨closedPieces_pixelPieces closed.1, closed.2⟩
    | succ index =>
      rw [List.modify_succ_cons, List.forall_mem_cons]
      exact ⟨closed.1, ih closed.2 index⟩

theorem closedPieces_of_mem_pieces {piece : List Chunk} (inside : piece ∈ arguments.map Spot.piece) :
    ClosedPieces piece := by
  obtain ⟨spot, -, rfl⟩ := List.mem_map.mp inside
  exact closedPieces_part spot

theorem closedPieces_variablePiece
    (named : ∀ name, spot.expr = .text name → Closed (Text.trim name)) :
    ClosedPieces spot.variablePiece := by
  rw [Spot.variablePiece]
  split
  · next name isText => exact closedPieces_fixed (closed_qualify (named name isText))
  · exact closedPieces_part spot

theorem closedPieces_baddyPiece (spot : Spot) : ClosedPieces spot.baddyPiece := by
  rw [Spot.baddyPiece]
  split
  · exact closedPieces_fixed (closed_toString _)
  · exact closedPieces_part spot

theorem closedPieces_chatPieces (place : Section) {said : List Chunk}
    (closed : ClosedPieces said) : ClosedPieces (place.chatPieces said) := by
  unfold Section.chatPieces
  split
  · split
    · exact .fixed_cons (by decide) closed
    · exact closedPieces_fixed (by decide)
  · exact closed.enclosed 1 (by decide) (by decide)
  · exact closed.enclosed 1 (by decide) (by decide)
  · exact closedPieces_fixed (by decide)

/-- The layout of a call of a built-in function is closed if the names of
variables are. -/
theorem Builtin.closedPieces_layout (checked : builtin.isClosed = true) (known : site.place.Known)
    (named : ∀ name ∈ builtin.names (arguments.map Spot.expr), Closed (Text.trim name))
    (laid : builtin.layout site arguments = some pieces) : ClosedPieces pieces := by
  cases Builtin.lays_of_layout laid with
  | template =>
    exact runChunks_fillChunks (fun _ => closedPieces_of_mem_pieces) (of_decide_eq_true checked)
  | @variableTemplate _ _ first =>
    have closedFirst : ClosedPieces first.variablePiece :=
      closedPieces_variablePiece fun name isText => named name (by simp [isText, names])
    refine runChunks_fillChunks ?_ (of_decide_eq_true checked)
    exact List.forall_mem_cons.mpr ⟨closedFirst, fun _ => closedPieces_of_mem_pieces⟩
  | @placement _ x y =>
    refine runChunks_fillChunks ?_ (of_decide_eq_true checked)
    exact closedPieces_modify (closedPieces_modify (fun _ => closedPieces_of_mem_pieces) .x x) .y y
  | helper =>
    have closedName := closed_member (of_decide_eq_true checked)
    exact (ClosedPieces.joinedBy (by decide) fun _ => closedPieces_of_mem_pieces).enclosed 1
      (run_callee closedName) (by decide)
  | @setFlag first =>
    have closedFirst : ClosedPieces first.variablePiece :=
      closedPieces_variablePiece fun name isText => named name (by simp [isText, names])
    have closedCall : Closed (" = true;\n  " ++ site.place.dispatchCall) :=
      Closed.append (by decide) known.closed_dispatchCall
    rw [ClosedPieces, runChunks, Option.bind_eq_some_iff]
    refine ⟨.code 1, by decide, ?_⟩
    rw [runChunks_append, closedFirst.run, Option.bind_some, runChunks, Option.bind_eq_some_iff]
    refine ⟨.code 1, by decide, ?_⟩
    rw [runChunks_append, closedFirst.run, Option.bind_some, runChunks, String.toList_append,
      CodeState.run_append, closedCall.run]
    rfl
  | @clearFlag first =>
    have closedFirst : ClosedPieces first.variablePiece :=
      closedPieces_variablePiece fun name isText => named name (by simp [isText, names])
    exact closedFirst.append (closedPieces_fixed (by decide))
  | @setProperty _ _ _ _ second _ _ found =>
    have closedTarget := closed_of_propertyTarget? (of_decide_eq_true checked) found
    exact .fixed_cons (closedTarget.append (by decide)) (closedPieces_part second)
  | @chatTest first => exact closedPieces_chatPieces site.place (closedPieces_part first)
  | @placeBaddy _ kind x y =>
    refine (ClosedPieces.joinedBy (by decide) ?_).enclosed 1 (by decide) (by decide)
    simp only [List.forall_mem_cons]
    exact ⟨closedPieces_pixelPieces (closedPieces_part x),
      closedPieces_pixelPieces (closedPieces_part y), closedPieces_baddyPiece kind,
      fun _ => closedPieces_of_mem_pieces⟩

end Builtins

/-! ## Expressions -/

theorem closedPieces_unaryPieces (op : UnaryOp) (operand : Expr) {code : List Chunk}
    (closed : ClosedPieces code) : ClosedPieces (unaryPieces op operand code) := by
  have closedSpelling : Closed op.spelling := by cases op <;> decide
  unfold unaryPieces
  split
  · split
    · exact closed.enclosed 1 (by decide) (by decide)
    · exact .fixed_cons (by decide) closed
  · split
    · exact closed.append (closedPieces_fixed closedSpelling)
    · exact .fixed_cons closedSpelling closed

theorem closedPieces_brackets {indices : List (List Chunk)}
    (closed : ∀ index ∈ indices, ClosedPieces index) :
    ClosedPieces (indices.flatMap fun index => .fixed "[" :: (index ++ [.fixed "]"])) := by
  induction indices with
  | nil => exact closedPieces_nil
  | cons index others ih =>
    rw [List.forall_mem_cons] at closed
    rw [List.flatMap_cons]
    exact (closed.1.enclosed 1 (by decide) (by decide)).append (ih closed.2)

theorem closedPieces_indexPieces (asBoard : Bool) {indices : List (List Chunk)}
    (closed : ∀ index ∈ indices, ClosedPieces index) :
    ClosedPieces (indexPieces asBoard indices) := by
  fun_cases indexPieces asBoard indices with
  | case1 column row =>
    rw [ClosedPieces, runChunks, Option.bind_eq_some_iff]
    refine ⟨.code 2, by decide, ?_⟩
    rw [runChunks_append, (closed row (.tail _ (.head _))).run, Option.bind_some, runChunks,
      Option.bind_eq_some_iff]
    refine ⟨.code 2, by decide, ?_⟩
    rw [runChunks_append, (closed column (.head _)).run]
    rfl
  | case2 => exact closedPieces_brackets closed

namespace Spot

variable {site : Site}

theorem closedPieces_of_mem_pieces {items : List Expr} {piece : List Chunk}
    (inside : piece ∈ spot.pieces items) : ClosedPieces piece :=
  EventScript.closedPieces_of_mem_pieces inside

theorem closedPieces_callPieces (spot : Spot) {callee : String} (closed : Closed callee)
    (arguments : List Expr) : ClosedPieces (spot.callPieces callee arguments) :=
  (ClosedPieces.joinedBy (by decide) fun _ => closedPieces_of_mem_pieces).enclosed 1
    (run_callee closed) (by decide)

theorem closedPieces_binaryPieces (spot : Spot) (op : BinaryOp) (left right : Expr) :
    ClosedPieces (spot.binaryPieces op left right) := by
  have closedSpelling (op : BinaryOp) : Closed (" " ++ op.spelling ++ " ") := by
    cases op <;> decide
  unfold binaryPieces
  dsimp only
  split
  · rfl
  · rfl
  · rfl
  · rfl
  · refine (closedPieces_part _).append (.fixed_cons ?_ (closedPieces_part _))
    split
    · decide
    · exact closedSpelling op

/-- The texts that are written as names of variables, for an expression. -/
def names (spot : Spot) : List String :=
  match spot.position, spot.expr with
  | .free, .call function arguments =>
    ((Builtin.find? function).map fun builtin => builtin.names arguments).getD []
  | _, _ => []

theorem closedPieces_call {context : ExprContext} {function : String} {items : List Expr}
    (closed : Closed function) (known : site.place.Known)
    (named : ∀ name ∈ names ⟨context, .free, .call function items⟩, Closed (Text.trim name)) :
    ClosedPieces (layout site ⟨context, .free, .call function items⟩) := by
  rw [layout]
  dsimp only
  split
  · next pieces laid =>
    obtain ⟨builtin, found, laid⟩ := Option.bind_eq_some_iff.mp laid
    refine Builtin.closedPieces_layout (Builtin.isClosed_of_find? found) known ?_ laid
    intro name inside
    refine named name ?_
    simpa [names, found, arguments, Function.comp_def] using inside
  · exact closedPieces_callPieces _ (site.closed_calleeCode closed) items

/-- The layout of a tree of the grammar is closed, if texts are written as
closed code and the names of variables are closed. -/
theorem closedPieces_layout (sound : spot.Sound) (known : site.place.Known)
    (named : ∀ name ∈ spot.names, Closed (Text.trim name))
    (texts : ∀ value, spot.expr = .text value → Closed (expand site value).value) :
    ClosedPieces (spot.layout site) := by
  obtain ⟨context, position, expr⟩ := spot
  obtain ⟨shaped, -⟩ := sound
  have ofBinary (op : BinaryOp) (left right : Expr) :
      ClosedPieces (layout site ⟨context, position, .binary op left right⟩) :=
    closedPieces_binaryPieces ⟨context, position, .binary op left right⟩ op left right
  dsimp only at shaped
  cases shaped with
  | number numeral => exact closedPieces_fixed (closed_numberCode numeral)
  | text value => exact closedPieces_fixed (texts value rfl)
  | name isName =>
    have closed := closed_of_isWord isName.1
    cases position with
    | free => exact closedPieces_fixed (site.closed_nameCode context closed)
    | member => exact closedPieces_fixed (site.closed_memberCode closed)
  | list inside =>
    exact (ClosedPieces.joinedBy (by decide) fun _ => closedPieces_of_mem_pieces).enclosed 1
      (by decide) (by decide)
  | grouped inside => rfl
  | prefixed | postfixed => exact closedPieces_unaryPieces _ _ (closedPieces_part _)
  | assignment | operation | within => exact ofBinary _ _ _
  | conditional => rfl
  | call isName inside quoted =>
    have closed := closed_of_isWord isName.1
    cases position with
    | free => exact closedPieces_call closed known named
    | member => exact closedPieces_callPieces _ closed _
  | index shapedTarget tight noChain inside =>
    exact (closedPieces_part _).append
      (closedPieces_indexPieces _ fun _ => closedPieces_of_mem_pieces)
  | dotted shapedHead tight noChain nonempty inside areMembers =>
    refine ClosedPieces.joinedBy (by decide) ?_
    rw [List.forall_mem_cons]
    refine ⟨closedPieces_part _, fun piece among => ?_⟩
    obtain ⟨member, -, rfl⟩ := List.mem_map.mp among
    exact closedPieces_part _

end Spot

end EventScript
