import EventScript.Proofs.Events.Guards
import EventScript.Proofs.Outline.Indentation
import EventScript.Proofs.Outline.Pieces

/-!
# What lines of code perform

`Performs` relates generated code to the commands that running it performs.  It
is closed under putting code in a row, so the code of a function can be treated
line by line.
-/

namespace EventScript

theorem Stmt.tokensAll_append (first second : List Stmt) :
    Stmt.tokensAll (first ++ second) = Stmt.tokensAll first ++ Stmt.tokensAll second := by
  induction first with
  | nil => rfl
  | cons statement others ih => simp [Stmt.tokensAll, ih]

theorem Stmt.commandsOfAll?_append (scene : Scene) (dispatch : String → Option (List String))
    (first second : List Stmt) :
    Stmt.commandsOfAll? scene dispatch (first ++ second) = do
      let performed ← Stmt.commandsOfAll? scene dispatch first
      return performed ++ (← Stmt.commandsOfAll? scene dispatch second) := by
  induction first with
  | nil => simp [Stmt.commandsOfAll?]
  | cons statement others ih =>
    simp [Stmt.commandsOfAll?, ih, Option.bind_assoc]

/-- Code reads as statements, and running these performs commands. -/
def Performs (scene : Scene) (dispatch : String → Option (List String)) (code : String)
    (commands : List String) : Prop :=
  ∃ statements, Spells code (Stmt.tokensAll statements) ∧
    (∀ statement ∈ statements, Stmt.Braced statement) ∧
      Stmt.commandsOfAll? scene dispatch statements = some commands

section

variable {scene : Scene} {dispatch : String → Option (List String)}
variable {commands : List String} {function : String}
variable (options : Options) (depth : Nat) (action : Action)

theorem performs_empty : Performs scene dispatch "" [] :=
  ⟨[], spells_empty, by simp, rfl⟩

theorem Performs.append {first second : String} {performed more : List String}
    (performsFirst : Performs scene dispatch first performed)
    (performsSecond : Performs scene dispatch second more) :
    Performs scene dispatch (first ++ second) (performed ++ more) := by
  obtain ⟨statements, spelled, braced, run⟩ := performsFirst
  obtain ⟨others, spelledOthers, bracedOthers, runOthers⟩ := performsSecond
  refine ⟨statements ++ others, ?_, List.forall_mem_append.mpr ⟨braced, bracedOthers⟩, ?_⟩
  · rw [Stmt.tokensAll_append]
    exact spelled.append spelledOthers
  · rw [Stmt.commandsOfAll?_append, run, runOthers]
    rfl

/-- Code that reads as one statement. -/
theorem performs_statement {code : String} (statement : Stmt)
    (spelled : Spells code statement.tokens) (braced : statement.Braced)
    (run : statement.commands? scene dispatch = some commands) :
    Performs scene dispatch code commands := by
  refine ⟨[statement], ?_, List.forall_mem_singleton.mpr braced, ?_⟩
  · rwa [Stmt.tokensAll, Stmt.tokensAll, List.append_nil]
  · simp [Stmt.commandsOfAll?, run]

/-- The commands of a function whose body performs them. -/
theorem Performs.exists_statements {code name body : String}
    (found : functionBody? code name = some body) (performs : Performs scene dispatch body commands) :
    ∃ statements, functionStatements? code name = some statements ∧
      Stmt.commandsOfAll? scene dispatch statements = some commands := by
  obtain ⟨statements, spelled, braced, run⟩ := performs
  have lexed := spelled [] [] lexes_nil
  rw [List.append_nil, List.append_nil] at lexed
  refine ⟨statements, ?_, run⟩
  simp [functionStatements?, found, Script.parse_of_lexes lexed braced]

theorem codeLine_eq_block {content : String} (nonempty : content ≠ "")
    (oneLine : Text.OneLine content) : codeLine depth content = Text.block depth content := by
  rw [← String.toList_inj, Text.toList_block_of_oneLine depth nonempty oneLine, codeLine,
    String.toList_ofList]
  simp [Text.line]

/-! ## Calls -/

/-- A call of a method can be written and read back. -/
theorem printable_method {owner : String} {arguments : List Expr} (owned : IsName owner)
    (named : IsName function) (printable : ∀ argument ∈ arguments, argument.Printable)
    (quoted : Expr.QuotesRaw function arguments) :
    (Expr.dotted [.name owner, .call function arguments]).Printable := by
  refine ⟨.dotted (.name owned) (by simp [Expr.level]) rfl (by simp) ?_ ?_, ?_, ?_⟩
  · exact List.forall_mem_singleton.mpr
      (.call named (fun argument member => (printable argument member).shaped) quoted)
  · exact List.forall_mem_singleton.mpr rfl
  · refine ⟨trivial, ?_, trivial⟩
    exact (Expr.writableAll_iff _ _).mpr fun argument member => (printable argument member).writable
  · rintro _ ⟨rfl⟩
    rfl

/-- A line that calls a method. -/
theorem performs_methodLine {owner : String} {arguments : List Expr}
    (printable : (Expr.dotted [.name owner, .call function arguments]).Printable)
    (run : callCommands? dispatch owner function arguments = some commands) :
    Performs scene dispatch
      (Text.block depth ((Expr.dotted [.name owner, .call function arguments]).code ++ ";"))
      commands := by
  refine performs_statement (.expression _) (spells_expressionLine depth printable)
    (.expression printable.shaped ⟨by simp, ?_⟩) run
  simp [Expr.tokens, Expr.separated, Expr.trailing, Parser.startsCommand]

/-- A function that is not known reads no argument unquoted. -/
theorem quotesRaw_of_unknown (unknown : (Signature.find? function).isNone) (arguments : List Expr) :
    Expr.QuotesRaw function arguments := by
  intro position argument _ raw
  rw [Option.isNone_iff_eq_none] at unknown
  rw [Signature.readsRaw, unknown] at raw
  cases raw

theorem isName_roleArgument (place : Section) (role : Role) :
    IsName (place.roleArgument role) := by
  rw [Section.roleArgument]
  split
  · cases role <;> decide
  · decide

/-- The call of the dispatcher in an event, as an expression. -/
def dispatchTree (action : Action) : Expr :=
  .dotted [.name "this", .call dispatcherName
    (.text action.name ::
      [.player, .npc, .chatText].map fun role => .name ((Section.event action).roleArgument role))]

theorem printable_dispatchTree : (dispatchTree action).Printable := by
  refine printable_method (by decide) (by decide) ?_ ?_
  · rw [List.forall_mem_cons, List.forall_mem_map]
    refine ⟨⟨.text _, Expr.quotes_quote _⟩, fun role _ => ?_⟩
    exact ⟨.name (isName_roleArgument _ role), trivial⟩
  · exact quotesRaw_of_unknown (by decide) _

theorem code_dispatchTree {action : Action} (known : action ∈ Action.table) :
    (dispatchTree action).code ++ ";" = (Section.event action).dispatchCall := by
  have opening : "this._actions(" = "this" ++ "." ++ dispatcherName ++ "(" := by decide
  have closing : ");" = ")" ++ ";" := by decide
  have quoted := quote_of_isWord (isWord_of_mem_table known)
  unfold dispatchTree Section.dispatchCall Section.actionName
  simp only [Expr.code, Expr.written, Expr.writtenAll, List.map_cons, List.map_nil, quoted,
    String.intercalate_cons_cons, String.intercalate_singleton, String.append_assoc, opening,
    closing]

/-- The line with which an event calls the dispatcher performs what the dispatcher
does. -/
theorem performs_forwardingLine {action : Action} (known : action ∈ Action.table)
    (dispatched : dispatch action.name = some commands) :
    Performs scene dispatch (Piece.forwardingLine action) commands := by
  have called := code_dispatchTree known
  have oneLine := oneLine_dispatchCall known
  rw [Piece.forwardingLine, codeLine_eq_block 1 (by simp [← called]) oneLine, ← called]
  exact performs_methodLine 1 (printable_dispatchTree action) dispatched

/-! ## Branches -/

/-- A branch performs what its body does if its condition holds, and nothing if it
does not. -/
theorem performs_branch (depth : Nat) {condition : Expr} (printable : condition.Printable)
    {holds : Bool} (truth : scene.truth? condition = some holds) {body : String}
    {statements : List Stmt} (spelled : Spells body (Stmt.tokensAll statements))
    (braced : ∀ statement ∈ statements, Stmt.Braced statement) {commands : List String}
    (run : holds = true → Stmt.commandsOfAll? scene dispatch statements = some commands) :
    Performs scene dispatch
      (Text.block depth ("if (" ++ condition.code ++ ") \x7b") ++ body ++ Text.block depth "\x7d")
      (if holds then commands else []) := by
  have opening := spells_branchLine .plain depth printable
  rw [show StmtForm.plain.lead ++ "if (" = "if (" from rfl] at opening
  have whole := (opening.append spelled).append (spells_closeBrace depth)
  refine performs_statement (.branch condition (.block statements) none) ?_ ?_ ?_
  · simpa [Stmt.tokens, StmtForm.leadTokens] using whole
  · exact .branch printable.shaped rfl (.block braced)
  · cases holds with
    | false => simp [Stmt.commands?, truth]
    | true => simpa [Stmt.commands?, truth] using run rfl

/-! ## Lines that callbacks begin with -/

/-- Where a callback finds the player, as an expression. -/
def playerTree (options : Options) (action : Action) : Expr :=
  if options.clientSide then .call "getLocalPlayer" []
  else if action.ofWeapon then .dotted [.name "this", .name "player"]
  else
    match options.playerList with
    | .level => .dotted [.name "this", .name "level", .index (.name "players") [.number "0"]]
    | .server => .index (.name "players") [.number "0"]

theorem code_playerTree :
    (playerTree options action).code = EventBody.playerSource options action := by
  unfold playerTree EventBody.playerSource
  repeat' split
  · decide
  · decide
  · rename_i listed
    rw [listed]
    decide
  · rename_i listed
    rw [listed]
    decide

theorem printable_playerTree : (playerTree options action).Printable := by
  have first : (Expr.index (.name "players") [.number "0"]).Printable := by
    refine ⟨.index (.name (by decide)) (by decide) rfl ?_, trivial, trivial, trivial⟩
    exact List.forall_mem_singleton.mpr (.number (by decide))
  unfold playerTree
  repeat' split
  · exact ⟨.call (by decide) (by simp) (by simp [Expr.QuotesRaw]), trivial⟩
  · exact ⟨Expr.shaped_member_this (by decide), Expr.writable_member_this _⟩
  · refine ⟨.dotted (.name (by decide)) (by decide) rfl (by simp) ?_ ?_,
      ⟨trivial, trivial, first.writable, trivial⟩, by rintro _ ⟨rfl⟩; rfl⟩
    · rw [List.forall_mem_cons, List.forall_mem_singleton]
      exact ⟨.name (by decide), first.shaped⟩
    · simp [Expr.isMember]
  · exact first

/-- The declaration of the player performs nothing. -/
theorem performs_playerLine (options : Options) (action : Action) :
    Performs scene dispatch
      (codeLine depth ("var player = " ++ EventBody.playerSource options action ++ ";")) [] := by
  have found := printable_playerTree options action
  let assigned : Expr := .binary .assign (.name "player") (playerTree options action)
  have printable : assigned.Printable :=
    ⟨.assignment rfl (.name (by decide)) (by simp [Expr.level]) found.shaped, trivial,
      found.writable⟩
  have spelledLine : "var player = " ++ EventBody.playerSource options action ++ ";" =
      "var " ++ assigned.code ++ ";" := by
    change _ = "var " ++ ("player" ++ " " ++ "=" ++ " " ++ (playerTree options action).code) ++ ";"
    rw [code_playerTree]
    simp only [← String.toList_inj, String.toList_append, List.append_assoc]
    rfl
  have oneLine : Text.OneLine ("var " ++ assigned.code ++ ";") := by
    simp only [Text.oneLine_append]
    exact ⟨⟨by decide, printable.oneLine_code⟩, by decide⟩
  rw [spelledLine, codeLine_eq_block depth (by simp) oneLine]
  refine performs_statement (.command "var" [assigned]) (spells_line depth (by simp) oneLine ?_) ?_ rfl
  · intro rest others later
    rw [Stmt.tokens, Expr.separated, Expr.trailing]
    simp only [String.toList_append, List.append_assoc, List.append_nil, List.cons_append,
      List.nil_append]
    have named : IsName "var" := by decide
    change Lexes ("var".toList ++ ' ' :: (assigned.code.toList ++ ';' :: '\n' :: rest)) _
    refine (begins_name named ((stops_cons _ _ _).mpr rfl)).lexes (Lexes.blank (by decide) ?_)
    exact printable.lexes_code rfl (by decide) (Lexes.isolated rfl rfl later.lineFeed)
  · refine .command rfl (List.forall_mem_singleton.mpr printable.shaped) ?_
    exact quotesRaw_of_unknown (by decide) _

/-- The player was found, so a timer does not wait for one. -/
theorem performs_waitingLines :
    Performs scene dispatch
      (String.join (["if (player == null) \x7b", "  this.timeout = 0.05;", "  return;",
        "\x7d"].map (codeLine 1))) [] := by
  have absent : (Expr.binary .equal (.name "player") (.name "null")).Printable :=
    ⟨.operation (by decide) (.name (by decide)) (by decide) (.name (by decide)) (by decide),
      trivial, trivial⟩
  have delayed : (Expr.binary .assign (.dotted [.name "this", .name "timeout"])
      (.number "0.05")).Printable :=
    ⟨.assignment rfl (Expr.shaped_member_this (by decide)) (by decide) (.number (by decide)),
      Expr.writable_member_this _, trivial⟩
  have spelled : Spells _ (Stmt.tokensAll [.expression _, .giveBack none]) :=
    (spells_expressionLine 2 delayed).append (spells_keywordLine 2 .returnWord rfl)
  have alone : Stmt.Braced (.expression (.binary .assign
      (.dotted [.name "this", .name "timeout"]) (.number "0.05"))) :=
    .expression delayed.shaped ⟨by simp, rfl⟩
  have braced := List.forall_mem_cons.mpr
    ⟨alone, List.forall_mem_singleton.mpr (@Stmt.Braced.giveBack none (by simp))⟩
  -- the branch is not taken: what its body would do does not matter
  have skipped : Performs scene dispatch _ [] :=
    @performs_branch scene dispatch 1 _ absent false rfl _ _ spelled braced [] nofun
  refine Eq.mp (congrArg (fun code => Performs scene dispatch code []) ?_) skipped
  decide

/-- The lines in front of the body of a callback perform nothing. -/
theorem performs_preamble (event : EventBody) :
    Performs scene dispatch
      (String.join ((event.preamble options "").map (codeLine 1))) [] := by
  rw [EventBody.preamble, if_pos (show ("" : String).isEmpty = true from rfl), List.append_nil]
  split
  · have declared : Performs scene dispatch _ [] := performs_playerLine 1 options event.action
    rw [EventBody.playerLines]
    split
    · have waiting : Performs scene dispatch _ [] := performs_waitingLines
      simpa [String.join_cons] using declared.append waiting
    · simpa [String.join_cons] using declared
  · exact performs_empty

end

end EventScript
