import EventScript.Proofs.Bundle.Unmarked
import EventScript.Proofs.Events.Performing
import EventScript.Proofs.Events.Functions
import EventScript.Proofs.Outline.Layout

/-!
# The functions that generated code defines

The code for a script is a list of functions, an empty line apart: the declared
ones, the callbacks, the shared functions and the helpers.  In the text they are
told apart by the lines that open them.
-/

namespace EventScript

open Text

variable {name : String}

/-! ## Counting definitions -/

/-- The number of functions with a name that a text defines: of lines that open
one. -/
def definitions (name code : String) : Nat :=
  (code.toList.splitOn '\n').countP (functionOpening name).isPrefixOf

section Counting

variable {name : String}

theorem isPrefixOf_functionOpening_of_isInner {content : List Char} (inner : IsInner content) :
    (functionOpening name).isPrefixOf content = false := by
  rw [Bool.eq_false_iff, ne_eq, List.isPrefixOf_iff_prefix]
  exact not_opening_of_isInner inner

theorem definitions_of_lines {contents : List (List Char)} {text : String}
    (noFeed : ∀ content ∈ contents, '\n' ∉ content)
    (spelled : text.toList = contents.flatMap (line 0)) :
    definitions name text = contents.countP (functionOpening name).isPrefixOf := by
  have behind : ([[]] : List (List Char)).countP (functionOpening name).isPrefixOf = 0 := by
    rw [List.countP_singleton, isPrefixOf_functionOpening_of_isInner (.inl rfl)]
    rfl
  rw [definitions, spelled, splitOn_lines noFeed, List.countP_append, behind, Nat.add_zero]

theorem definitions_empty : definitions name "" = 0 :=
  definitions_of_lines (List.forall_mem_nil _) rfl

/-- Definitions in texts of whole lines add up. -/
theorem definitions_append {first second : String} (whole : Consists (fun _ => True) first)
    (wholeSecond : Consists (fun _ => True) second) :
    definitions name (first ++ second) = definitions name first + definitions name second := by
  obtain ⟨contents, plain, spelled⟩ := whole
  obtain ⟨others, plainOthers, spelledOthers⟩ := wholeSecond
  have noFeed : ∀ content ∈ contents ++ others, '\n' ∉ content :=
    List.forall_mem_append.mpr
      ⟨fun content member => (plain content member).1,
        fun content member => (plainOthers content member).1⟩
  have together : (first ++ second).toList = (contents ++ others).flatMap (line 0) := by
    rw [String.toList_append, spelled, spelledOthers, List.flatMap_append]
  rw [List.forall_mem_append] at noFeed
  rw [definitions_of_lines (List.forall_mem_append.mpr noFeed) together,
    definitions_of_lines noFeed.1 spelled, definitions_of_lines noFeed.2 spelledOthers,
    List.countP_append]

/-- A function defines its own name, once, and no other one. -/
theorem definitions_text (bare : '(' ∉ name.toList) {function : CodeFunction}
    (wellFormed : function.WellFormed) :
    definitions name function.text = if function.name == name then 1 else 0 := by
  obtain ⟨contents, inner, -, headed, spelled⟩ := wellFormed.exists_lines
  have noFeed : ∀ content ∈ function.header :: (contents ++ [['\x7d']]), '\n' ∉ content := by
    rw [List.forall_mem_cons, List.forall_mem_append, List.forall_mem_singleton]
    exact ⟨headed, fun content member => (inner content member).1, by decide⟩
  have inside : (contents ++ [['\x7d']]).countP (functionOpening name).isPrefixOf = 0 := by
    rw [List.countP_eq_zero, List.forall_mem_append, List.forall_mem_singleton]
    refine ⟨fun content member => ?_, ?_⟩
    · simp [isPrefixOf_functionOpening_of_isInner (inner content member).2]
    · rw [List.isPrefixOf_iff_prefix, functionOpening, String.append_assoc, String.toList_append]
      intro begins
      exact absurd (List.cons_prefix_cons.mp begins).1 (by decide)
  have opens : (functionOpening name).isPrefixOf function.header = (function.name == name) := by
    rw [Bool.eq_iff_iff, List.isPrefixOf_iff_prefix, beq_iff_eq]
    exact opening_prefix_header bare wellFormed
  rw [definitions_of_lines noFeed spelled, List.countP_cons, inside, opens, Nat.zero_add]

theorem CodeFunction.WellFormed.whole {function : CodeFunction}
    (wellFormed : function.WellFormed) : Consists (fun _ => True) function.text := by
  obtain ⟨contents, inner, -, headed, spelled⟩ := wellFormed.exists_lines
  refine ⟨_, ?_, spelled⟩
  rw [List.forall_mem_cons, List.forall_mem_append, List.forall_mem_singleton]
  exact ⟨⟨headed, trivial⟩, fun content member => ⟨(inner content member).1, trivial⟩,
    by decide, trivial⟩

/-- Functions, an empty line apart, define each name as often as it occurs
among theirs. -/
theorem definitions_intercalate (bare : '(' ∉ name.toList) {functions : List CodeFunction}
    (wellFormed : ∀ function ∈ functions, function.WellFormed) :
    definitions name ("\n".intercalate (functions.map CodeFunction.text)) =
      functions.countP fun function => function.name == name := by
  induction functions with
  | nil => exact definitions_empty
  | cons function others ih =>
    rw [List.forall_mem_cons] at wellFormed
    have own := definitions_text bare wellFormed.1
    rw [List.countP_cons, ← ih wellFormed.2, ← own, Nat.add_comm]
    cases others with
    | nil => simp [definitions_empty]
    | cons next more =>
      have gap : Consists (fun _ => True) "\n" := consists_line List.not_mem_nil trivial rfl
      have emptyLine : definitions name "\n" = 0 := by
        rw [definitions_of_lines (List.forall_mem_singleton.mpr List.not_mem_nil) rfl,
          List.countP_singleton, isPrefixOf_functionOpening_of_isInner (.inl rfl)]
        rfl
      have later : Consists (fun _ => True)
          ("\n".intercalate ((next :: more).map CodeFunction.text)) :=
        consists_intercalate trivial
          (List.forall_mem_map.mpr fun function member => (wellFormed.2 function member).whole)
      rw [List.map_cons, List.map_cons, String.intercalate_cons_cons, ← List.map_cons,
        definitions_append (wellFormed.1.whole.append gap) later,
        definitions_append wellFormed.1.whole gap, emptyLine, Nat.add_zero]

end Counting

/-! ## Helpers -/

/-- A helper in a conversion. -/
def Helper.function (options : Options) (helper : Helper) : CodeFunction :=
  { name := helper.name
    parameters := helper.parameters
    body := String.join (helper.body.map fun line => codeLine 1 (options.fillPlayers line)) }

section Helpers

variable {helper : Helper} (known : helper ∈ Helper.table) (options : Options)

include known

/-- The name of a helper ends in front of its parameters, and its marks stand in
its body. -/
theorem Helper.plain_of_mem_table :
    '(' ∉ helper.name.toList ∧ '#' ∉ helper.name.toList ∧ '#' ∉ helper.parameters.toList := by
  have plain : ∀ helper ∈ Helper.table, '(' ∉ helper.name.toList ∧ '#' ∉ helper.name.toList ∧
      '#' ∉ helper.parameters.toList := by decide +kernel
  exact plain helper known

/-- Filling in the player list changes the body of a helper only. -/
theorem Helper.text_function :
    (helper.function options).text = options.fillPlayers helper.source := by
  obtain ⟨-, named, listed⟩ := Helper.plain_of_mem_table known
  have unmarked : '#' ∉
      ("function " ++ helper.name ++ "(" ++ helper.parameters ++ ") \x7b").toList := by
    simp [named, listed]
  have filled {front : List Char} (absent : '#' ∉ front) (rest : List Char) :
      replaceFrom playersMark.toList options.players.toList 0 (front ++ rest) =
        front ++ replaceFrom playersMark.toList options.players.toList 0 rest :=
    replaceFrom_append_of_notMem absent _ _ rest
  have header := filled unmarked []
  have closing := @filled ['\x7d'] (by decide) []
  have inside (lines : List String) :
      (String.join (lines.map fun line => codeLine 1 (options.fillPlayers line))).toList =
        ((lines.map fun line => ("  " ++ line).toList).map
          (replaceFrom playersMark.toList options.players.toList 0)).flatMap (line 0) := by
    rw [String.toList_join, List.map_map, List.flatMap_map, List.flatMap_map]
    refine List.flatMap_congr fun content _ => ?_
    rw [Function.comp_apply, String.toList_append, filled (by decide), codeLine,
      String.toList_ofList, Options.fillPlayers, Text.replace, String.toList_ofList]
    rfl
  rw [← String.toList_inj, Options.fillPlayers, Text.replace, String.toList_ofList,
    Bundle.toList_source, replaceFrom_lines (by decide) (by decide), Bundle.helperLines]
  rw [List.append_nil] at header closing
  rw [List.map_append, List.map_cons, List.map_singleton, header, closing, List.flatMap_append,
    List.flatMap_cons, ← inside]
  simp [CodeFunction.text, functionCode, function, codeLine, replaceFrom]

theorem Helper.wellFormed_function : (helper.function options).WellFormed where
  named := (Bundle.oneLine_of_mem_helperTable known).1
  bare := (Helper.plain_of_mem_table known).1
  listed := (Bundle.oneLine_of_mem_helperTable known).2.1
  indented := by
    have players : OneLine options.players := by
      rw [Options.players]
      cases options.playerList <;> decide
    refine consists_join (List.forall_mem_map.mpr fun line member => indented_codeLine 0 ?_)
    intro feed
    rw [Options.fillPlayers, Text.replace, String.toList_ofList] at feed
    rcases mem_replaceFrom feed with inPlayers | inLine
    · exact players inPlayers
    · exact (Bundle.oneLine_of_mem_helperTable known).2.2 line member inLine

end Helpers

/-! ## Declared functions -/

/-- The function that a statement declares. -/
def Stmt.declared? (options : Options) : Stmt → Option CodeFunction
  | .function name body =>
    some ⟨name, "", (renderStmt ⟨options, .global⟩ .contents 1 body).value⟩
  | _ => none

/-- Only declarations are global. -/
theorem Stmt.GoesTo.declared?_eq_none {statement : Stmt} {route : Route}
    (goes : statement.GoesTo route) (elsewhere : route.place ≠ .global) (options : Options) :
    statement.declared? options = none := by
  cases goes with
  | declaration => exact absurd rfl elsewhere
  | creation other => cases statement <;> first | rfl | exact other.elim
  | _ => rfl

theorem wellFormed_declared (options : Options) (named : IsName name) (body : Stmt) :
    CodeFunction.WellFormed
      ⟨name, "", (renderStmt ⟨options, .global⟩ .contents 1 body).value⟩ where
  named := fun member => absurd (isNameChar_of_mem_word named.1 member) (by decide)
  bare := fun member => absurd (isNameChar_of_mem_word named.1 member) (by decide)
  listed := List.not_mem_nil
  indented := indented_renderStmt _ .contents 0 body

/-- The code for a declared function is that function. -/
theorem value_renderStmt_function (options : Options) (named : IsName name) (body : Stmt) :
    (renderStmt ⟨options, .global⟩ .plain 0 (.function name body)).value =
      CodeFunction.text ⟨name, "", (renderStmt ⟨options, .global⟩ .contents 1 body).value⟩ := by
  have oneLine := (wellFormed_declared options named body).named
  have opening : codeLine 0 ("function " ++ name ++ "(" ++ "" ++ ") \x7b") =
      Text.block 0 ("function " ++ name ++ "()" ++ " \x7b") := by
    have same : "function " ++ name ++ "(" ++ "" ++ ") \x7b" =
        "function " ++ name ++ "()" ++ " \x7b" := by
      simp [String.append_assoc]
    rw [same]
    refine codeLine_eq_block 0 (by simp) ?_
    simp only [oneLine_append, and_assoc]
    exact ⟨by decide, oneLine, by decide, by decide⟩
  have closing : codeLine 0 "\x7d" = Text.block 0 "\x7d" :=
    codeLine_eq_block 0 (by decide) (by decide)
  rw [CodeFunction.text, functionCode, opening, closing]
  rfl

theorem Piece.codesIn_cons (place : Section) (first : Piece) (others : List Piece) :
    codesIn place (first :: others) =
      (if first.route.place = place then [first.code] else []) ++ codesIn place others := by
  by_cases here : first.route.place = place <;> simp [codesIn, here]

/-- The code of declared functions is those functions. -/
theorem codesIn_global (options : Options) {statements : List Stmt}
    (shaped : ∀ statement ∈ statements, Stmt.Shaped statement)
    (routed : ∀ statement ∈ statements, statement.GoesTo statement.route) :
    Piece.codesIn .global
        (statements.map fun statement => statement.route.piece options statement) =
      (statements.filterMap (Stmt.declared? options)).map CodeFunction.text := by
  induction statements with
  | nil => rfl
  | cons first others ih =>
    rw [List.forall_mem_cons] at shaped routed
    have later := ih shaped.2 routed.2
    have goes := routed.1
    rw [List.map_cons, Piece.codesIn_cons, later, Route.piece_eq]
    generalize first.route = route at goes ⊢
    by_cases elsewhere : route.place ≠ .global
    · rw [List.filterMap_cons_none (goes.declared?_eq_none elsewhere options), if_neg elsewhere,
        List.nil_append]
    · cases goes with
      | declaration name body =>
        cases shaped.1 with
        | function named _ _ =>
          have code := value_renderStmt_function options named body
          simp [Route.place, Stmt.declared?, Route.emission, code]
      | _ => simp [Route.place] at elsewhere

/-! ## The functions of an outline -/

/-- The callback of an event. -/
def EventBody.function (options : Options) (prologue : String) (event : EventBody) :
    CodeFunction :=
  { name := event.action.callback
    parameters := ", ".intercalate ((event.parameters prologue).map Role.name)
    body := String.join ((event.preamble options prologue).map (codeLine 1)) ++ event.body }

/-- One of the two shared functions. -/
def CodeFunction.shared (name body : String) : CodeFunction :=
  ⟨name, "_actionName, player, npc, text", body⟩

theorem CodeFunction.text_ne_empty (function : CodeFunction) : function.text ≠ "" := by
  simp [CodeFunction.text, functionCode, codeLine, Text.line]

/-- Texts that make up one section stand an empty line apart like sections. -/
theorem intercalate_section {codes : List String} (hasCode : ∀ code ∈ codes, code ≠ "")
    (others : List String) :
    "\n".intercalate ((if ("\n".intercalate codes).isEmpty then []
        else ["\n".intercalate codes]) ++ others) =
      "\n".intercalate (codes ++ others) := by
  cases codes with
  | nil => rfl
  | cons first rest =>
    rw [Outline.isEmpty_intercalate_cons hasCode, if_neg Bool.false_ne_true]
    cases others with
    | nil => simp
    | cons next more =>
      rw [String.intercalate_append_of_ne_nil (List.cons_ne_nil _ _) (List.cons_ne_nil _ _),
        String.intercalate_append_of_ne_nil (List.cons_ne_nil _ _) (List.cons_ne_nil _ _),
        String.intercalate_singleton]

namespace Outline

/-- The functions of an outline: the declared ones, the callbacks, the shared
functions and the helpers. -/
def functions (outline : Outline) (declared : List CodeFunction) : List CodeFunction :=
  declared ++ (outline.callbacks.map (EventBody.function outline.options outline.prologue) ++
    (if outline.dispatcher.isEmpty && !outline.ledger.dispatcherCalled then []
      else [CodeFunction.shared dispatcherName outline.dispatcher]) ++
    (if outline.prologue.isEmpty then []
      else [CodeFunction.shared prologueName outline.prologue]) ++
    outline.ledger.helpers.filterMap fun name =>
      (Helper.find? name).map (Helper.function outline.options))

variable {outline : Outline} {declared : List CodeFunction}

/-- The text of an outline is that of its functions, an empty line apart. -/
theorem text_eq_functions
    (global : outline.global = "\n".intercalate (declared.map CodeFunction.text)) :
    outline.text = "\n".intercalate ((outline.functions declared).map CodeFunction.text) := by
  have optional (chosen : Bool) (name body : String) :
      (if chosen then [] else [sharedFunction name body]) =
        (if chosen then [] else [CodeFunction.shared name body]).map CodeFunction.text := by
    cases chosen <;> rfl
  have helpers : outline.ledger.helpers.filterMap outline.options.helperSource =
      (outline.ledger.helpers.filterMap fun name =>
        (Helper.find? name).map (Helper.function outline.options)).map CodeFunction.text := by
    rw [List.map_filterMap]
    refine List.filterMap_congr fun name _ => ?_
    cases found : Helper.find? name with
    | none => simp [Options.helperSource, found]
    | some helper =>
      have known : helper ∈ Helper.table := List.mem_of_find?_eq_some found
      simp [Options.helperSource, found, Helper.text_function known]
  have hasCode : ∀ code ∈ declared.map CodeFunction.text, code ≠ "" :=
    List.forall_mem_map.mpr fun function _ => function.text_ne_empty
  rw [text, sections, global, optional, optional, helpers, List.append_assoc, List.append_assoc,
    List.append_assoc, intercalate_section hasCode, functions, List.map_append, List.map_append,
    List.map_append, List.map_append, List.map_map, List.append_assoc, List.append_assoc]
  rfl

/-- The functions of an unmarked outline are well-formed. -/
theorem Unmarked.wellFormed_functions (unmarked : outline.Unmarked)
    (wellFormed : ∀ function ∈ declared, function.WellFormed) :
    ∀ function ∈ outline.functions declared, function.WellFormed := by
  have shared {name body : String} (chosen : Bool) (named : OneLine name)
      (bare : '(' ∉ name.toList) (indented : Indented body) :
      ∀ function ∈ if chosen then [] else [CodeFunction.shared name body],
        function.WellFormed := by
    have listed : OneLine "_actionName, player, npc, text" := by decide
    cases chosen with
    | true => simp
    | false => exact List.forall_mem_singleton.mpr ⟨named, bare, listed, indented⟩
  simp only [functions, List.forall_mem_append]
  refine ⟨wellFormed, ⟨⟨?_, ?_⟩, ?_⟩, ?_⟩
  · rw [List.forall_mem_map]
    intro event member
    obtain ⟨known, indented⟩ := unmarked.callbacks event member
    exact ⟨(oneLine_of_mem_table known).2, bare_callback_of_mem_table known, oneLine_parameters event _,
      indented_callbackBody _ _ known indented⟩
  · exact shared _ (by decide) (by decide) unmarked.dispatcher
  · exact shared _ (by decide) (by decide) unmarked.prologue
  · intro function member
    obtain ⟨name, _, found⟩ := List.mem_filterMap.mp member
    obtain ⟨helper, isHelper, rfl⟩ := Option.map_eq_some_iff.mp found
    exact Helper.wellFormed_function (List.mem_of_find?_eq_some isHelper) _

end Outline

/-! ## The functions of a script -/

/-- The functions that a script declares. -/
def Script.declared (options : Options) (script : Script) : List CodeFunction :=
  (Script.flattened script).filterMap (Stmt.declared? options)

section Source

variable (options : Options) (source : String)

/-- After all statements the outline holds the pieces of the script. -/
theorem Outline.addScript_eq_ofPieces (script : Script) :
    Outline.addScript { options := options } script =
      Outline.ofPieces options (Script.pieces options script) :=
  Outline.foldl_add_eq_ofPieces options _ fun _ => Script.goesTo_route_of_mem_flattened

/-- The code for a script that was read is that of its functions. -/
theorem convert_code_eq_functions :
    (convert options source).code =
      "\n".intercalate (((Outline.addScript { options := options }
        (Script.parse source).script).functions
          (Script.declared options (Script.parse source).script)).map CodeFunction.text) := by
  have global := codesIn_global options
    (fun _ => @Stmt.shaped_of_mem_flattened_parse source _)
    (fun _ => Script.goesTo_route_of_mem_flattened)
  rw [convert_code]
  refine Outline.text_eq_functions ?_
  rw [Outline.addScript_eq_ofPieces, Outline.ofPieces, Script.pieces, global, Script.declared]

theorem wellFormed_functions_parse :
    ∀ function ∈ (Outline.addScript { options := options }
      (Script.parse source).script).functions
        (Script.declared options (Script.parse source).script), function.WellFormed := by
  refine (Outline.unmarked_addScript options source).wellFormed_functions fun function member => ?_
  obtain ⟨statement, among, declares⟩ := List.mem_filterMap.mp member
  cases Stmt.shaped_of_mem_flattened_parse among with
  | function named _ _ =>
    obtain rfl := Option.some.inj declares
    exact wellFormed_declared options named _
  | _ => cases declares

/-- The number of definitions of a name in the code for a script. -/
theorem definitions_convert (bare : '(' ∉ name.toList) :
    definitions name (convert options source).code =
      ((Outline.addScript { options := options } (Script.parse source).script).functions
        (Script.declared options (Script.parse source).script)).countP
          fun function => function.name == name := by
  rw [convert_code_eq_functions]
  exact definitions_intercalate bare (wellFormed_functions_parse options source)

end Source

end EventScript
