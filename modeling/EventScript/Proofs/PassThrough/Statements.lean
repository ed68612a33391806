import EventScript.Proofs.PassThrough.Expressions
import EventScript.Session

/-!
# Scripts that pass through

Code for a script of the core reads as the same script again, with its
expressions qualified, without empty statements, and with braces around every
body.
-/

namespace EventScript

variable {tested : Bool}

/-! ## The core -/

namespace Stmt

mutual

/-- Statements of the core: no commands, and all expressions in the core. -/
def isCore : Stmt → Bool
  | .block statements => isCoreAll statements
  | .branch condition whenTrue none => condition.isCore true && whenTrue.isCore
  | .branch condition whenTrue (some other) =>
    condition.isCore true && whenTrue.isCore && other.isCore
  | .forLoop init condition step body =>
    init.all (Expr.isCore false) && condition.all (Expr.isCore true) &&
      step.all (Expr.isCore false) && body.isCore
  | .whileLoop condition body => condition.isCore true && body.isCore
  | .breakLoop => true
  | .continueLoop => true
  | .giveBack value => value.all (Expr.isCore false)
  | .command _ _ => false
  | .function _ body => body.isCore
  | .expression value => value.isCore false
  | .empty => true

/-- Statements that all belong to the core. -/
def isCoreAll : List Stmt → Bool
  | [] => true
  | first :: others => first.isCore && isCoreAll others

end

/-! ## What is read back -/

/-- Whether a statement is empty. -/
def isEmpty : Stmt → Bool
  | .empty => true
  | _ => false

/-- The statements that a body consists of. -/
def contents : Stmt → List Stmt
  | .block statements => statements
  | .empty => []
  | other => [other]

/-- A body in braces. -/
def asBody (body : Stmt) : Stmt :=
  .block body.contents

/-- The other branch of a branch, in braces unless it is a branch itself. -/
def asAlternative (other : Stmt) : Stmt :=
  if other.isBranch then other else other.asBody

mutual

/-- The statement that generated code for a statement of the core reads as. -/
def tidied : Stmt → Stmt
  | .block statements => .block (tidiedAll statements)
  | .branch condition whenTrue none => .branch condition.qualified whenTrue.tidied.asBody none
  | .branch condition whenTrue (some other) =>
    .branch condition.qualified whenTrue.tidied.asBody (some other.tidied.asAlternative)
  | .forLoop init condition step body =>
    .forLoop (init.map Expr.qualified) (condition.map Expr.qualified)
      (step.map Expr.qualified) body.tidied.asBody
  | .whileLoop condition body => .whileLoop condition.qualified body.tidied.asBody
  | .giveBack value => .giveBack (value.map Expr.qualified)
  | .function name body => .function name body.tidied.asBody
  | .expression value => .expression value.qualified
  | other => other

/-- The statements that generated code for statements of the core reads as;
empty ones are left out. -/
def tidiedAll : List Stmt → List Stmt
  | [] => []
  | first :: others =>
    if first.isEmpty then tidiedAll others else first.tidied :: tidiedAll others

end

theorem isCoreAll_iff (statements : List Stmt) :
    isCoreAll statements = true ↔ ∀ statement ∈ statements, statement.isCore = true := by
  induction statements with
  | nil => simp [isCoreAll]
  | cons first others ih =>
    rw [isCoreAll, Bool.and_eq_true, ih, List.forall_mem_cons]

theorem isBranch_tidied (statement : Stmt) : statement.tidied.isBranch = statement.isBranch := by
  cases statement with
  | branch _ _ otherwise => cases otherwise <;> rfl
  | _ => rfl

end Stmt

/-! ## Code and its tokens -/

/-- Code without effects that reads as given tokens, whatever follows. -/
def Yields (emission : Emission String) (tokens : List Token) : Prop :=
  ∃ code, emission = pure code ∧ Spells code tokens

theorem Spells.yields {code : String} {tokens : List Token} (spells : Spells code tokens) :
    Yields (pure code) tokens :=
  ⟨code, rfl, spells⟩

/-! ### Expressions of the core inside a line -/

namespace Expr

/-- A text whose last character is no closing brace. -/
def LastPlain (text : String) : Prop :=
  ∃ last, text.toList.getLast? = some last ∧ last ≠ '\x7d'

theorem LastPlain.append (first : String) {second : String} (plain : LastPlain second) :
    LastPlain (first ++ second) := by
  obtain ⟨last, isLast, noBrace⟩ := plain
  refine ⟨last, ?_, noBrace⟩
  rw [String.toList_append, List.getLast?_append, isLast, Option.some_or]

theorem lastPlain_of_forall_mem {text : String} (nonempty : text.toList ≠ [])
    (noBrace : '\x7d' ∉ text.toList) : LastPlain text := by
  refine ⟨text.toList.getLast nonempty, List.getLast?_eq_some_getLast nonempty, ?_⟩
  intro isBrace
  exact noBrace (isBrace ▸ List.getLast_mem nonempty)

theorem lastPlain_number {spelling : String} (numeral : IsNumeral spelling.toList) :
    LastPlain spelling := by
  refine lastPlain_of_forall_mem ?_ ?_
  · intro isEmpty
    rw [isEmpty] at numeral
    exact absurd numeral.1 (by decide)
  · intro member
    rcases isDigit_or_point_of_spanNumber numeral.2 _ member with digit | point
    · exact absurd digit (by decide)
    · exact absurd point (by decide)

theorem lastPlain_name {spelling : String} (named : IsName spelling) : LastPlain spelling := by
  refine lastPlain_of_forall_mem ?_ ?_
  · intro isEmpty
    rw [IsName, isEmpty] at named
    exact absurd named.1 (by decide)
  · intro member
    exact absurd (isNameChar_of_mem_word named.1 member) (by decide)

theorem Shaped.lastPlain_qualified {expr : Expr} (shaped : Shaped expr)
    (core : expr.isCore tested = true) : LastPlain expr.qualified.code := by
  have spelled (op : UnaryOp) : LastPlain op.spelling := by
    cases op <;> exact ⟨_, rfl, by decide⟩
  induction shaped with
  | number numeral => exact lastPlain_number (isNumeral_numberCode numeral)
  | text value =>
    refine ⟨'"', ?_, by decide⟩
    change (Text.quote value).toList.getLast? = _
    rw [Text.quote, Text.quoteChars, String.toList_ofList, ← List.cons_append,
      List.getLast?_concat]
  | name named => exact LastPlain.append "this." (lastPlain_name named)
  | grouped _ _ => exact LastPlain.append _ ⟨')', rfl, by decide⟩
  | @prefixed op operand inFront _ _ ih =>
    rw [isCore, Bool.and_eq_true] at core
    have code : code (unary op operand).qualified = op.spelling ++ operand.qualified.code :=
      if_neg (by simp [inFront])
    rw [code]
    exact (ih core.1).append op.spelling
  | @postfixed op operand behind _ _ _ =>
    have code : code (unary op operand).qualified = operand.qualified.code ++ op.spelling := if_pos behind
    rw [code]
    exact (spelled op).append _
  | assignment _ _ _ _ _ lastRight | operation _ _ _ _ _ _ lastRight =>
    rw [isCore, Bool.and_eq_true] at core
    exact (lastRight core.2).append _
  | _ => cases core

theorem renderOptional_of_isCore (site : Site) {context : ExprContext} {expr : Option Expr}
    (notMember : context.suppressSelf = false) (shaped : ∀ value ∈ expr, Shaped value)
    (core : expr.all (isCore context.inCondition) = true) :
    renderOptional site context expr = pure (optionalCode (expr.map qualified)) := by
  cases expr with
  | none => rfl
  | some value => exact render_of_isCore site notMember (shaped value rfl) core

/-- Optional expressions of the core can be read back. -/
theorem printable_map_qualified {expr : Option Expr} (shaped : ∀ value ∈ expr, Shaped value)
    (core : expr.all (isCore tested) = true) : ∀ value ∈ expr.map qualified, value.Printable := by
  intro value member
  obtain ⟨original, rfl, rfl⟩ := Option.map_eq_some_iff.mp member
  exact printable_qualified (shaped original rfl) core

end Expr

/-- Code for an expression of the core does not end like a block. -/
theorem terminated_code {expr : Expr} (shaped : expr.Shaped) (core : expr.isCore tested = true)
    (depth : Nat) :
    terminated depth expr.qualified.code = Text.block depth (expr.qualified.code ++ ";") := by
  obtain ⟨last, isLast, noBrace⟩ := shaped.lastPlain_qualified core
  have notBlock : Text.endsWith expr.qualified.code '\x7d' = false := by
    rw [Text.endsWith, isLast, beq_eq_false_iff_ne]
    rintro ⟨rfl⟩
    exact noBrace rfl
  rw [terminated, notBlock, if_neg Bool.false_ne_true]

/-! ## The code for statements -/

namespace Stmt

variable {statement body : Stmt} {statements : List Stmt} {condition : Expr}

/-- The tokens of a statement in a given form: by itself, as the contents of a
body, or as the other branch behind the one that it closes. -/
def tokensIn (form : StmtForm) (statement : Stmt) : List Token :=
  match form with
  | .plain => tokensAll (tidiedAll [statement])
  | .contents => tokensAll statement.tidied.contents
  | .alternative => form.leadTokens ++ statement.tidied.tokens

/-- A statement whose code reads as the tidied statement, in every form. -/
def Passes (statement : Stmt) : Prop :=
  ∀ site form depth, statement.isCore = true →
    (form = .alternative → statement.isBranch = true) →
      Yields (renderStmt site form depth statement) (statement.tokensIn form)

/-- A statement that is written the same way in every form. -/
theorem tokensIn_of_single {form : StmtForm} (noBlock : statement.isBlock = false)
    (noEmpty : statement.isEmpty = false) (noBranch : statement.isBranch = false)
    (branches : form = .alternative → statement.isBranch = true) :
    statement.tokensIn form = statement.tidied.tokens := by
  have single : tokensAll statement.tidied.contents = statement.tidied.tokens := by
    cases statement with
    | block _ => cases noBlock
    | empty => cases noEmpty
    | branch _ _ _ => cases noBranch
    | _ => simp [tidied, contents, tokensAll]
  cases form with
  | plain => simp [tokensIn, tidiedAll, noEmpty, tokensAll]
  | contents => exact single
  | alternative =>
    rw [branches rfl] at noBranch
    cases noBranch

theorem yields_renderStmts (passes : ∀ value ∈ statements, Passes value)
    (core : isCoreAll statements = true) (site : Site) (depth : Nat) :
    Yields (renderStmts site depth statements) (tokensAll (tidiedAll statements)) := by
  induction statements with
  | nil => exact spells_empty.yields
  | cons first others ih =>
    rw [List.forall_mem_cons] at passes
    rw [isCoreAll, Bool.and_eq_true] at core
    obtain ⟨code, rendered, spells⟩ :=
      passes.1 site .plain depth core.1 (by rintro ⟨⟩)
    obtain ⟨rest, renderedRest, spellsRest⟩ := ih passes.2 core.2
    have joined := spells.append spellsRest
    have split : tokensAll (tidiedAll [first]) ++ tokensAll (tidiedAll others) =
        tokensAll (tidiedAll (first :: others)) := by
      simp only [tidiedAll]
      split <;> simp [tokensAll]
    rw [tokensIn, split] at joined
    rw [renderStmts, rendered, renderedRest]
    exact joined.yields

/-- The contents of a body. -/
theorem Passes.yields_contents (passes : Passes body) (core : body.isCore = true) (site : Site)
    (depth : Nat) :
    Yields (renderStmt site .contents depth body) (tokensAll body.tidied.contents) :=
  passes site .contents depth core (by rintro ⟨⟩)

theorem tokensIn_branch (form : StmtForm) (condition : Expr) (whenTrue : Stmt)
    (otherwise : Option Stmt) :
    (branch condition whenTrue otherwise).tokensIn form =
      form.leadTokens ++ (branch condition whenTrue otherwise).tidied.tokens := by
  cases form with
  | plain => simp [tokensIn, tidiedAll, isEmpty, tokensAll, StmtForm.leadTokens]
  | contents =>
    cases otherwise <;> simp [tokensIn, tidied, contents, tokensAll, StmtForm.leadTokens]
  | alternative => rfl

/-! ### One construction after the other -/

theorem passes_block (passes : ∀ value ∈ statements, Passes value) : Passes (block statements) := by
  intro site form depth core branches
  cases form with
  | plain =>
    obtain ⟨body, rendered, spells⟩ :=
      yields_renderStmts passes core site (depth + 1)
    rw [renderStmt, rendered, pure_bind]
    · have code := ((spells_openBrace depth).append spells).append (spells_closeBrace depth)
      simpa [tokensIn, tidiedAll, isEmpty, tidied, tokensAll, tokens] using code.yields
    · rintro ⟨⟩
  | contents => exact yields_renderStmts passes core site depth
  | alternative => cases branches rfl

theorem passes_branch {whenTrue : Stmt} (shaped : condition.Shaped) (passes : Passes whenTrue) :
    Passes (branch condition whenTrue none) := by
  intro site form depth core _
  rw [isCore, Bool.and_eq_true] at core
  obtain ⟨body, rendered, spells⟩ := passes.yields_contents core.2 site (depth + 1)
  have code := ((spells_branchLine form depth (Expr.printable_qualified shaped core.1)).append spells).append
    (spells_closeBrace depth)
  rw [renderStmt, render_of_isCore site rfl shaped core.1, pure_bind, rendered, pure_bind,
    tokensIn_branch]
  simpa [tidied, asBody, tokens] using code.yields

theorem passes_choice {whenTrue other : Stmt} (shaped : condition.Shaped) (passes : Passes whenTrue)
    (passesOther : Passes other) : Passes (branch condition whenTrue (some other)) := by
  intro site form depth core _
  rw [isCore, Bool.and_eq_true, Bool.and_eq_true] at core
  obtain ⟨⟨coreCondition, coreTrue⟩, coreOther⟩ := core
  obtain ⟨body, rendered, spells⟩ := passes.yields_contents coreTrue site (depth + 1)
  have opened := (spells_branchLine form depth
    (Expr.printable_qualified shaped coreCondition)).append spells
  rw [renderStmt, render_of_isCore site rfl shaped coreCondition, pure_bind, rendered, pure_bind,
    tokensIn_branch]
  by_cases isBranch : other.isBranch = true
  · obtain ⟨rest, renderedRest, spellsRest⟩ :=
      passesOther site .alternative depth coreOther fun _ => isBranch
    have code := opened.append spellsRest
    simp only [isBranch, if_true, renderedRest, pure_bind]
    simpa [tidied, asBody, asAlternative, isBranch_tidied, isBranch, tokens, tokensIn,
      StmtForm.leadTokens] using code.yields
  · obtain ⟨rest, renderedRest, spellsRest⟩ :=
      passesOther.yields_contents coreOther site (depth + 1)
    have code := opened.append (((spells_elseLine depth).append spellsRest).append
      (spells_closeBrace depth))
    simp only [isBranch, if_false, renderedRest, pure_bind, enclosed, Bool.false_eq_true]
    simpa [tidied, asBody, asAlternative, isBranch_tidied, isBranch, tokens] using code.yields

theorem passes_whileLoop (shaped : condition.Shaped) (passes : Passes body) :
    Passes (whileLoop condition body) := by
  intro site form depth core branches
  rw [tokensIn_of_single rfl rfl rfl branches]
  rw [isCore, Bool.and_eq_true] at core
  obtain ⟨code, rendered, spells⟩ := passes.yields_contents core.2 site (depth + 1)
  have loop := ((spells_whileLine depth (Expr.printable_qualified shaped core.1)).append spells).append
    (spells_closeBrace depth)
  rw [renderStmt, render_of_isCore site rfl shaped core.1, pure_bind, rendered, pure_bind]
  simpa [tidied, asBody, tokens, enclosed] using loop.yields

theorem passes_forLoop {init condition step : Option Expr} (shapedInit : ∀ expr ∈ init, expr.Shaped)
    (tested : ∀ expr ∈ condition, expr.Shaped) (shapedStep : ∀ expr ∈ step, expr.Shaped)
    (passes : Passes body) : Passes (forLoop init condition step body) := by
  intro site form depth core branches
  rw [tokensIn_of_single rfl rfl rfl branches]
  rw [isCore, Bool.and_eq_true, Bool.and_eq_true, Bool.and_eq_true] at core
  obtain ⟨⟨⟨coreInit, coreCondition⟩, coreStep⟩, coreBody⟩ := core
  obtain ⟨code, rendered, spells⟩ := passes.yields_contents coreBody site (depth + 1)
  have opened := spells_forLine depth (Expr.printable_map_qualified shapedInit coreInit)
    (Expr.printable_map_qualified tested coreCondition)
    (Expr.printable_map_qualified shapedStep coreStep)
  have loop := (opened.append spells).append (spells_closeBrace depth)
  rw [renderStmt, Expr.renderOptional_of_isCore site rfl shapedInit coreInit, pure_bind,
    Expr.renderOptional_of_isCore site rfl tested coreCondition, pure_bind,
    Expr.renderOptional_of_isCore site rfl shapedStep coreStep, pure_bind, rendered, pure_bind]
  simpa [tidied, asBody, tokens, enclosed] using loop.yields

theorem passes_function {name : String} (named : IsName name) (passes : Passes body) :
    Passes (function name body) := by
  intro site form depth core branches
  rw [tokensIn_of_single rfl rfl rfl branches]
  obtain ⟨code, rendered, spells⟩ := passes.yields_contents core site (depth + 1)
  have declared := ((spells_functionLine depth named).append spells).append
    (spells_closeBrace depth)
  rw [renderStmt, rendered, pure_bind]
  simpa [tidied, asBody, tokens, enclosed] using declared.yields

theorem passes_giveBack {value : Option Expr} (shaped : ∀ expr ∈ value, expr.Shaped) :
    Passes (giveBack value) := by
  intro site form depth core branches
  rw [tokensIn_of_single rfl rfl rfl branches]
  cases value with
  | none =>
    rw [renderStmt]
    exact (spells_keywordLine depth .returnWord rfl).yields
  | some expr =>
    have rendered : render site {} expr = pure expr.qualified.code :=
      render_of_isCore site rfl (shaped expr rfl) core
    rw [renderStmt, rendered, pure_bind]
    simpa [tidied, tokens, Expr.optionalTokens] using
      (spells_returnLine depth (Expr.printable_qualified (shaped expr rfl) core)).yields

theorem passes_expression {value : Expr} (shaped : value.Shaped) : Passes (expression value) := by
  intro site form depth core branches
  have rendered : render site {} value = pure value.qualified.code :=
    render_of_isCore site rfl shaped core
  rw [tokensIn_of_single rfl rfl rfl branches, renderStmt, rendered, pure_bind,
    terminated_code shaped core]
  exact (spells_expressionLine depth (Expr.printable_qualified shaped core)).yields

theorem passes_empty : Passes empty := by
  intro site form depth _ branches
  rw [renderStmt]
  cases form with
  | plain | contents => exact spells_empty.yields
  | alternative => cases branches rfl

/-- The code for every statement of the core reads as the tidied statement. -/
theorem passes_of_shaped (shaped : Shaped statement) : Passes statement := by
  induction shaped with
  | block _ ih => exact passes_block ih
  | @branch _ _ otherwise tested _ _ passesTrue passesOther =>
    cases otherwise with
    | none => exact passes_branch tested passesTrue
    | some other => exact passes_choice tested passesTrue (passesOther other rfl)
  | forLoop shapedInit tested shapedStep _ ih =>
    exact passes_forLoop shapedInit tested shapedStep ih
  | whileLoop tested _ ih => exact passes_whileLoop tested ih
  | breakLoop =>
    intro site form depth _ branches
    rw [tokensIn_of_single rfl rfl rfl branches, renderStmt]
    exact (spells_keywordLine depth .breakWord rfl).yields
  | continueLoop =>
    intro site form depth _ branches
    rw [tokensIn_of_single rfl rfl rfl branches, renderStmt]
    exact (spells_keywordLine depth .continueWord rfl).yields
  | giveBack inside => exact passes_giveBack inside
  | command _ _ _ =>
    intro _ _ _ core
    cases core
  | function named _ _ ih => exact passes_function named ih
  | expression inside => exact passes_expression inside
  | empty => exact passes_empty

/-! ## Tidied scripts -/

theorem braced_asBody (braced : Braced body) : Braced body.asBody := by
  cases body with
  | block statements => exact braced
  | empty => exact .block (by simp [contents])
  | _ => exact .block (List.forall_mem_singleton.mpr braced)

theorem braced_asAlternative {other : Stmt} (braced : Braced other) :
    Braced other.asAlternative := by
  rw [asAlternative]
  split
  · exact braced
  · exact braced_asBody braced

/-- The tidied statements of a list are those of its members. -/
theorem exists_of_mem_tidiedAll (member : statement ∈ tidiedAll statements) :
    ∃ original ∈ statements, statement = original.tidied := by
  induction statements with
  | nil => cases member
  | cons first others ih =>
    rw [tidiedAll] at member
    split at member
    · obtain ⟨original, among, rfl⟩ := ih member
      exact ⟨original, List.mem_cons_of_mem _ among, rfl⟩
    · rcases List.mem_cons.mp member with rfl | later
      · exact ⟨first, List.mem_cons_self, rfl⟩
      · obtain ⟨original, among, rfl⟩ := ih later
        exact ⟨original, List.mem_cons_of_mem _ among, rfl⟩

/-- A tidied statement has braces around every body. -/
theorem braced_tidied (shaped : Shaped statement) (core : statement.isCore = true) :
    Braced statement.tidied := by
  induction shaped with
  | block _ ih =>
    rw [isCore, isCoreAll_iff] at core
    refine .block ?_
    intro statement member
    obtain ⟨original, among, rfl⟩ := exists_of_mem_tidiedAll member
    exact ih original among (core original among)
  | @branch condition whenTrue otherwise tested _ _ bracedTrue bracedOther =>
    cases otherwise with
    | none =>
      rw [isCore, Bool.and_eq_true] at core
      exact .branch (tested.qualified core.1) rfl (braced_asBody (bracedTrue core.2))
    | some other =>
      rw [isCore, Bool.and_eq_true, Bool.and_eq_true] at core
      exact .choice (tested.qualified core.1.1) rfl (braced_asBody (bracedTrue core.1.2))
        (braced_asAlternative (bracedOther other rfl core.2))
  | forLoop shapedInit tested shapedStep _ ih =>
    rw [isCore, Bool.and_eq_true, Bool.and_eq_true, Bool.and_eq_true] at core
    obtain ⟨⟨⟨coreInit, coreCondition⟩, coreStep⟩, coreBody⟩ := core
    exact .forLoop
      (fun value member => (Expr.printable_map_qualified shapedInit coreInit value member).shaped)
      (fun value member => (Expr.printable_map_qualified tested coreCondition value member).shaped)
      (fun value member => (Expr.printable_map_qualified shapedStep coreStep value member).shaped)
      rfl (braced_asBody (ih coreBody))
  | whileLoop tested _ ih =>
    rw [isCore, Bool.and_eq_true] at core
    exact .whileLoop (tested.qualified core.1) rfl (braced_asBody (ih core.2))
  | breakLoop => exact .breakLoop
  | continueLoop => exact .continueLoop
  | giveBack inside =>
    exact .giveBack fun value member =>
      (Expr.printable_map_qualified inside core value member).shaped
  | command _ _ _ => cases core
  | function _ _ _ ih =>
    exact .function rfl (braced_asBody (ih core))
  | expression inside =>
    exact .expression (inside.qualified core) (Expr.standsAlone_qualified core)
  | empty => exact .empty

end Stmt

/-! ## Sessions -/

namespace Session

/-- The text that a session generates for statements. -/
def codeFor (session : Session) (script : List Stmt) : String :=
  ((session.redirect {}).statements script).endRedirect.1.text

/-- Statement by statement, a session writes the code for the whole list. -/
theorem text_endRedirect_statements (session : Session) (buffer : Buffer) (script : List Stmt) :
    ((session.redirect buffer).statements script).endRedirect.1.text =
      buffer.text ++ (renderStmts session.site session.depth script).value := by
  induction script generalizing session buffer with
  | nil => simp [statements, endRedirect, redirect, renderStmts]
  | cons first others ih =>
    let emission := renderStmt session.site .plain session.depth first
    have step : (session.redirect buffer).statements (first :: others) =
        ((session.perform emission).2.redirect (buffer.write emission.value)).statements others :=
      rfl
    rw [step, ih, Buffer.text_write, String.append_assoc]
    rfl

end Session

/-! ## Reading generated code -/

/-- Generating code for a script of the core and reading the code gives the
tidied script, and nothing is found wrong with it. -/
theorem Script.parse_codeFor_of_isCoreAll (session : Session) (source : String)
    (core : Stmt.isCoreAll (Script.parse source).script = true) :
    Script.parse (session.codeFor (Script.parse source).script) =
      ⟨Stmt.tidiedAll (Script.parse source).script, []⟩ := by
  have shaped := Script.shaped_parse source
  have passes := fun value member => Stmt.passes_of_shaped (shaped value member)
  obtain ⟨code, rendered, lexed⟩ :=
    Stmt.yields_renderStmts passes core session.site session.depth
  have generated : session.codeFor (Script.parse source).script = code := by
    rw [Session.codeFor, Session.text_endRedirect_statements, rendered]
    exact String.empty_append
  rw [generated]
  refine Script.parse_of_lexes ?_ ?_
  · simpa using lexed [] [] lexes_nil
  · intro statement member
    obtain ⟨original, among, rfl⟩ := Stmt.exists_of_mem_tidiedAll member
    exact Stmt.braced_tidied (shaped original among)
      ((Stmt.isCoreAll_iff _).mp core original among)

set_option maxRecDepth 20000 in
/-- Bodies without braces, an `else` that ends in nothing, a number without a
digit in front of its point and a quoted quote. -/
theorem parse_codeFor_dangling_else :
    let source :=
      "if (a && -(.5 * b) >= 2) while (n < 3) n++; else if (!c) \x7b ; f = \"q\\\"\"; \x7d else ;"
    let this (name : String) : Expr := .dotted [.name "this", .name name]
    Stmt.isCoreAll (Script.parse source).script = true ∧
      Script.parse (Session.codeFor { options := {} } (Script.parse source).script) =
        ⟨[.branch
          (.binary .and (this "a")
            (.binary .greaterEqual
              (.unary .negate (.grouped (.binary .mul (.number "0.5") (this "b"))))
              (.number "2")))
          (.block [.whileLoop (.binary .less (this "n") (.number "3"))
            (.block [.expression (.unary .postIncrement (this "n"))])])
          (some (.branch (.unary .not (this "c"))
            (.block [.expression (.binary .assign (this "f") (.text "q\""))])
            (some (.block []))))], []⟩ := by
  refine ⟨by decide +kernel, ?_⟩
  rw [Script.parse_codeFor_of_isCoreAll _ _ (by decide +kernel)]
  rfl

end EventScript
