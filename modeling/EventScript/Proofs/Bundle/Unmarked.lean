import EventScript.Bundle
import EventScript.Proofs.Grammar.Statements
import EventScript.Proofs.Outline.Indentation

/-!
# Generated code holds no mark of a script

Generated code consists of whole lines, and none of them is the line behind
which a bundle holds its script.  Inside functions every line is indented or
empty, whatever the script holds, and the lines that are not indented are made
of names.
-/

namespace EventScript

variable {action : Action} {statement : Stmt}
variable (options : Options) (source : String)

namespace Bundle

variable {name : String} {helper : Helper}

/-- The line in front of the script. -/
def markLine : List Char :=
  '/' :: '/' :: "gs1script".toList

/-- A text of whole lines, none of which is the mark of a script. -/
def Unmarked (text : String) : Prop :=
  Text.Consists (· ≠ markLine) text

/-- Indented text is unmarked, whatever it holds. -/
theorem unmarked_of_indented {text : String} (indented : Text.Indented text) : Unmarked text := by
  refine indented.mono ?_
  rintro _ (rfl | ⟨rest, rfl⟩)
  · exact (List.cons_ne_nil _ _).symm
  · intro isMark
    exact absurd (List.cons.inj isMark).1 (by decide)

/-! ## Functions -/

/-- The line that opens a function is not the mark. -/
theorem function_ne_markLine (rest : String) : ("function " ++ rest).toList ≠ markLine := by
  rw [String.toList_append, markLine]
  intro isMark
  exact absurd (List.cons.inj isMark).1 (by decide)

/-- A function is unmarked if its body is indented and its name and parameters
are on one line. -/
theorem unmarked_functionCode {parameters body : String} (named : Text.OneLine name)
    (listed : Text.OneLine parameters) (indented : Text.Indented body) :
    Unmarked (functionCode name parameters body) := by
  have line {content : String} (oneLine : Text.OneLine content)
      (notMark : content.toList ≠ markLine) : Unmarked (codeLine 0 content) :=
    Text.consists_line oneLine notMark String.toList_ofList
  have opening : Unmarked (codeLine 0 ("function " ++ name ++ "(" ++ parameters ++ ") \x7b")) := by
    rw [String.append_assoc, String.append_assoc, String.append_assoc]
    refine line ?_ (function_ne_markLine _)
    simp only [Text.oneLine_append]
    exact ⟨by decide, named, by decide, listed, by decide⟩
  exact (opening.append (unmarked_of_indented indented)).append (line (by decide) (by decide))

/-- A declared function is unmarked: its name has no line feed. -/
theorem unmarked_declaration (site : Site) (form : StmtForm) (body : Stmt) (named : IsName name) :
    Unmarked (renderStmt site form 0 (.function name body)).value := by
  have oneLine : Text.OneLine name :=
    fun member => absurd (isNameChar_of_mem_word named.1 member) (by decide)
  have line {text : String} (nonempty : text ≠ "") (oneLine : Text.OneLine text)
      (notMark : text.toList ≠ markLine) : Unmarked (Text.block 0 text) := by
    refine Text.consists_line oneLine notMark ?_
    rw [Text.toList_block_of_oneLine 0 nonempty oneLine]
    rfl
  have opening : Unmarked (Text.block 0 ("function " ++ name ++ "()" ++ " \x7b")) := by
    rw [String.append_assoc, String.append_assoc]
    refine line (by simp) ?_ (function_ne_markLine _)
    simp only [Text.oneLine_append]
    exact ⟨by decide, oneLine, by decide, by decide⟩
  have inside := unmarked_of_indented (indented_renderStmt site .contents 0 body)
  exact (opening.append inside).append (line (by decide) (by decide) (by decide))

/-! ## Callbacks and helpers -/

theorem unmarked_callback (options : Options) (prologue : String) {event : EventBody}
    (known : event.action ∈ Action.table) (indented : Text.Indented event.body) :
    Unmarked (event.callback options prologue) :=
  unmarked_functionCode (oneLine_of_mem_table known).2 (oneLine_parameters event prologue)
    (indented_callbackBody options prologue known indented)

/-- The lines of a helper. -/
def helperLines (helper : Helper) : List (List Char) :=
  ("function " ++ helper.name ++ "(" ++ helper.parameters ++ ") \x7b").toList ::
    (helper.body.map fun line => ("  " ++ line).toList) ++ [['\x7d']]

theorem toList_source (helper : Helper) :
    helper.source.toList = (helperLines helper).flatMap (Text.line 0) := by
  have body (lines : List String) :
      (String.join (lines.map fun line => "  " ++ line ++ "\n")).toList =
        (lines.map fun line => ("  " ++ line).toList).flatMap (Text.line 0) := by
    induction lines with
    | nil => rfl
    | cons first others ih =>
      rw [List.map_cons, String.join_cons, String.toList_append, ih,
        String.toList_append, List.map_cons, List.flatMap_cons]
      rfl
  unfold Helper.source helperLines
  rw [String.toList_append, String.toList_append, body, List.flatMap_append, List.flatMap_cons]
  simp [Text.line, Text.indentation]

/-- Every line of a helper begins with a letter, a blank or a brace. -/
theorem helperLine_begins {content : List Char} (member : content ∈ helperLines helper) :
    ∃ first others, content = first :: others ∧ first ≠ '/' ∧ first ≠ '#' := by
  rcases List.mem_append.mp member with inside | closing
  · rcases List.mem_cons.mp inside with rfl | inBody
    · simp only [String.toList_append, List.append_assoc]
      exact ⟨'f', _, rfl, by decide, by decide⟩
    · obtain ⟨line, _, rfl⟩ := List.mem_map.mp inBody
      rw [String.toList_append]
      exact ⟨' ', _, rfl, by decide, by decide⟩
  · exact ⟨'\x7d', [], List.mem_singleton.mp closing, by decide, by decide⟩

/-- Names, parameters and lines of helpers are on one line each. -/
theorem oneLine_of_mem_helperTable (known : helper ∈ Helper.table) :
    Text.OneLine helper.name ∧ Text.OneLine helper.parameters ∧
      ∀ line ∈ helper.body, Text.OneLine line := by
  have oneLine : ∀ helper ∈ Helper.table, Text.OneLine helper.name ∧
      Text.OneLine helper.parameters ∧ ∀ line ∈ helper.body, Text.OneLine line := by
    decide +kernel
  exact oneLine helper known

theorem oneLine_of_mem_helpers (known : helper ∈ Helper.table) {content : List Char}
    (member : content ∈ helperLines helper) : '\n' ∉ content := by
  obtain ⟨named, listed, body⟩ := oneLine_of_mem_helperTable known
  rcases List.mem_append.mp member with inside | closing
  · rcases List.mem_cons.mp inside with rfl | inBody
    · refine (Text.oneLine_append _ _).mpr ⟨?_, by decide⟩
      simp only [Text.oneLine_append]
      exact ⟨⟨⟨by decide, named⟩, by decide⟩, listed⟩
    · obtain ⟨line, isLine, rfl⟩ := List.mem_map.mp inBody
      exact (Text.oneLine_append _ _).mpr ⟨by decide, body line isLine⟩
  · rw [List.mem_singleton.mp closing]
    decide

/-- Filling in the player list keeps the lines of a helper apart. -/
theorem unmarked_helperSource {options : Options} {text : String}
    (found : options.helperSource name = some text) : Unmarked text := by
  obtain ⟨helper, isHelper, rfl⟩ := Option.map_eq_some_iff.mp found
  have known : helper ∈ Helper.table := List.mem_of_find?_eq_some isHelper
  have noFeed : '\n' ∉ options.playerList.accessor.toList := by
    cases options.playerList <;> decide
  refine ⟨(helperLines helper).map
    (Text.replaceFrom playersMark.toList options.playerList.accessor.toList 0), ?_, ?_⟩
  · rw [List.forall_mem_map]
    intro content member
    obtain ⟨first, others, rfl, noSlash, noMark⟩ := helperLine_begins member
    refine ⟨?_, ?_⟩
    · intro feed
      rcases Text.mem_replaceFrom feed with inPlayers | inContent
      · exact noFeed inPlayers
      · exact oneLine_of_mem_helpers known member inContent
    · have kept : playersMark.toList.isPrefixOf (first :: others) = false := by
        rw [Bool.eq_false_iff, ne_eq, List.isPrefixOf_iff_prefix]
        intro begins
        exact noMark (List.cons_prefix_cons.mp begins).1.symm
      rw [Text.replaceFrom, kept, if_neg Bool.false_ne_true]
      intro isMark
      exact noSlash (List.cons.inj isMark).1
  · rw [Options.fillPlayers, Options.players, Text.replace, String.toList_ofList, toList_source,
      Text.replaceFrom_lines (by decide) (by decide)]

end Bundle

/-! ## Outlines -/

/-- What holds of the changed event and of a new one holds of all events. -/
theorem forall_mem_updateEvent {property : EventBody → Prop} {change : EventBody → EventBody}
    {events : List EventBody} (new : property (change { action := action }))
    (changed : ∀ event, property event → property (change event))
    (old : ∀ event ∈ events, property event) :
    ∀ event ∈ updateEvent action change events, property event := by
  induction events with
  | nil => exact List.forall_mem_singleton.mpr new
  | cons first others ih =>
    rw [List.forall_mem_cons] at old
    rw [updateEvent]
    split
    · exact List.forall_mem_cons.mpr ⟨changed first old.1, old.2⟩
    · exact List.forall_mem_cons.mpr ⟨old.1, ih old.2⟩

namespace Outline

open Bundle

/-- An outline of unmarked sections, with events of the table. -/
structure Unmarked (outline : Outline) : Prop where
  global : Bundle.Unmarked outline.global
  events : ∀ event ∈ outline.events,
    event.action ∈ Action.table ∧ Text.Indented event.body
  dispatcher : Text.Indented outline.dispatcher
  prologue : Text.Indented outline.prologue

variable {outline : Outline}

theorem Unmarked.appendTo (unmarked : outline.Unmarked) (known : action ∈ Action.table)
    {code : Emission String} (indented : Text.Indented code.value) :
    (outline.appendTo action code).Unmarked where
  global := unmarked.global
  events := by
    refine forall_mem_updateEvent ⟨known, ?_⟩ ?_ unmarked.events
    · exact Text.consists_empty.append indented
    · exact fun event ⟨inTable, indentedBody⟩ => ⟨inTable, indentedBody.append indented⟩
  dispatcher := unmarked.dispatcher
  prologue := unmarked.prologue

theorem Unmarked.forward (unmarked : outline.Unmarked) (known : action ∈ Action.table) :
    (outline.forward action).Unmarked where
  global := unmarked.global
  events := by
    refine forall_mem_updateEvent ?_ ?_ unmarked.events
    · exact indented_forward known Text.consists_empty
    · exact fun event ⟨inTable, indentedBody⟩ => indented_forward inTable indentedBody
  dispatcher := unmarked.dispatcher
  prologue := unmarked.prologue

theorem Unmarked.foldl_forward (unmarked : outline.Unmarked) {actions : List Action}
    (known : ∀ action ∈ actions, action ∈ Action.table) :
    (actions.foldl Outline.forward outline).Unmarked := by
  induction actions generalizing outline with
  | nil => exact unmarked
  | cons first others ih =>
    rw [List.forall_mem_cons] at known
    exact ih (unmarked.forward known.1) known.2

theorem Unmarked.declare (unmarked : outline.Unmarked) {code : Emission String}
    (unmarkedCode : Bundle.Unmarked code.value) : (outline.declare code).Unmarked where
  global := by
    refine (unmarked.global.append ?_).append unmarkedCode
    split
    · exact Text.consists_empty
    · exact Text.consists_line List.not_mem_nil (List.cons_ne_nil _ _).symm rfl
  events := unmarked.events
  dispatcher := unmarked.dispatcher
  prologue := unmarked.prologue

/-- Adding a statement keeps an outline unmarked. -/
theorem Unmarked.add (unmarked : outline.Unmarked) (shaped : Stmt.Shaped statement)
    (goes : statement.GoesTo statement.route) : (outline.add statement).Unmarked := by
  rw [Outline.add]
  generalize statement.route = route at goes
  cases goes with
  | declaration name body =>
    cases shaped with
    | function named _ _ => exact unmarked.declare (unmarked_declaration _ _ body named)
  | @contents condition action body isFlag =>
    obtain ⟨_, _, found⟩ := isFlag
    exact unmarked.appendTo (Action.mem_table_of_find? found) (indented_renderStmt _ _ 0 body)
  | prologue _ _ _ =>
    exact
      { unmarked with prologue := unmarked.prologue.append (indented_renderStmt _ _ 0 _) }
  | @guarded condition action body _ tested =>
    have known : action ∈ Action.table :=
      Expr.mem_table_of_mem_actions (tested ▸ List.mem_singleton_self action)
    exact unmarked.appendTo known (indented_renderStmt _ _ 0 _)
  | dispatched _ _ _ _ =>
    refine Unmarked.foldl_forward ?_ fun action => Expr.mem_table_of_mem_actions
    exact
      { unmarked with dispatcher := unmarked.dispatcher.append (indented_renderStmt _ _ 0 _) }
  | creation _ => exact unmarked.appendTo (by decide) (indented_renderStmt _ _ 0 _)

/-- Adding statements keeps an outline unmarked. -/
theorem Unmarked.foldl_add (unmarked : outline.Unmarked) {statements : List Stmt}
    (shaped : ∀ statement ∈ statements, Stmt.Shaped statement)
    (routed : ∀ statement ∈ statements, statement.GoesTo statement.route) :
    (statements.foldl Outline.add outline).Unmarked := by
  induction statements generalizing outline with
  | nil => exact unmarked
  | cons first others ih =>
    rw [List.forall_mem_cons] at shaped routed
    exact ih (unmarked.add shaped.1 routed.1) shaped.2 routed.2

theorem Unmarked.callbacks (unmarked : outline.Unmarked) :
    ∀ event ∈ outline.callbacks, event.action ∈ Action.table ∧ Text.Indented event.body := by
  rw [Outline.callbacks]
  split
  · exact List.forall_mem_singleton.mpr ⟨by decide, Text.consists_empty⟩
  · exact unmarked.events

theorem Unmarked.text (unmarked : outline.Unmarked) : Bundle.Unmarked outline.text := by
  have optional {code : String} (chosen : Bool) (unmarkedCode : Bundle.Unmarked code) :
      ∀ text ∈ if chosen then [] else [code], Bundle.Unmarked text := by
    cases chosen with
    | true => simp
    | false => simpa using unmarkedCode
  have parameters : Text.OneLine "_actionName, player, npc, text" := by decide
  refine Text.consists_intercalate (List.cons_ne_nil _ _).symm ?_
  simp only [sections, List.forall_mem_append]
  refine ⟨⟨⟨⟨optional _ unmarked.global, ?_⟩, optional _ ?_⟩, optional _ ?_⟩, ?_⟩
  · rw [List.forall_mem_map]
    intro event member
    obtain ⟨known, indented⟩ := unmarked.callbacks event member
    exact unmarked_callback _ _ known indented
  · exact unmarked_functionCode (by decide) parameters unmarked.dispatcher
  · exact unmarked_functionCode (by decide) parameters unmarked.prologue
  · intro text member
    obtain ⟨_, _, found⟩ := List.mem_filterMap.mp member
    exact unmarked_helperSource found

end Outline

/-! ## Conversions -/

theorem Script.mem_flattened_iff {script : List Stmt} :
    statement ∈ Script.flattened script ↔ ∃ first ∈ script, statement ∈ first.flattened := by
  induction script with
  | nil => simp [Script.flattened]
  | cons first others ih =>
    simp [Script.flattened, ih]

/-- What a statement of the grammar stands for are statements of the grammar. -/
theorem Stmt.Shaped.of_mem_flattened {first : Stmt} (shaped : Stmt.Shaped first)
    (member : statement ∈ first.flattened) : Stmt.Shaped statement := by
  induction shaped with
  | block _ ih =>
    obtain ⟨inner, among, inside⟩ := Script.mem_flattened_iff.mp member
    exact ih inner among inside
  | empty => cases member
  | _ =>
    rw [List.mem_singleton.mp member]
    constructor <;> assumption

/-- The statements of a script that was read are statements of the grammar. -/
theorem Stmt.shaped_of_mem_flattened_parse {source : String} {statement : Stmt}
    (member : statement ∈ Script.flattened (Script.parse source).script) :
    Stmt.Shaped statement := by
  obtain ⟨first, among, inside⟩ := Script.mem_flattened_iff.mp member
  exact (Script.shaped_parse source first among).of_mem_flattened inside

/-- The outline of a script that was read is unmarked. -/
theorem Outline.unmarked_addScript :
    Outline.Unmarked
      (Outline.addScript { options := options } (Script.parse source).script) := by
  have begins : Outline.Unmarked { options := options } :=
    ⟨Text.consists_empty, by simp, Text.consists_empty, Text.consists_empty⟩
  exact begins.foldl_add (fun _ => Stmt.shaped_of_mem_flattened_parse)
    fun _ => Script.goesTo_route_of_mem_flattened

/-- The generated code is the text of the outline. -/
theorem convert_code :
    (convert options source).code =
      (Outline.addScript { options := options } (Script.parse source).script).text := by
  unfold convert Script.convert Outline.conversion
  dsimp only

/-- The code for a script is unmarked. -/
theorem unmarked_convert : Bundle.Unmarked (convert options source).code := by
  rw [convert_code]
  exact (Outline.unmarked_addScript options source).text

end EventScript
