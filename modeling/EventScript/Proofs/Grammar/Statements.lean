import EventScript.Proofs.Grammar.Soundness

/-!
# Statements that are read belong to the grammar

The statements of a script that was read hold only expressions of the grammar,
functions have proper names, and the body of a function is a block.  A
statement that could not be read leaves nothing behind, so this holds for
every source text.
-/

namespace EventScript

/-- Whether a statement is a block. -/
def Stmt.isBlock : Stmt → Bool
  | .block _ => true
  | _ => false

/-- The statements of the grammar. -/
inductive Stmt.Shaped : Stmt → Prop
  | block {statements : List Stmt} (inside : ∀ statement ∈ statements, Shaped statement) :
      Shaped (block statements)
  | branch {condition : Expr} {whenTrue : Stmt} {otherwise : Option Stmt}
      (tested : condition.Shaped) (shapedTrue : Shaped whenTrue)
      (shapedOther : ∀ other ∈ otherwise, Shaped other) :
      Shaped (branch condition whenTrue otherwise)
  | forLoop {init condition step : Option Expr} {body : Stmt}
      (shapedInit : ∀ expr ∈ init, expr.Shaped) (tested : ∀ expr ∈ condition, expr.Shaped)
      (shapedStep : ∀ expr ∈ step, expr.Shaped) (shapedBody : Shaped body) :
      Shaped (forLoop init condition step body)
  | whileLoop {condition : Expr} {body : Stmt} (tested : condition.Shaped)
      (shapedBody : Shaped body) : Shaped (whileLoop condition body)
  | breakLoop : Shaped breakLoop
  | continueLoop : Shaped continueLoop
  | giveBack {value : Option Expr} (inside : ∀ expr ∈ value, expr.Shaped) :
      Shaped (giveBack value)
  | command {name : String} {arguments : List Expr} (named : IsName name)
      (inside : ∀ argument ∈ arguments, argument.Shaped)
      (quoted : Expr.QuotesRaw name arguments) : Shaped (command name arguments)
  | function {name : String} {body : Stmt} (named : IsName name) (braced : body.isBlock = true)
      (shapedBody : Shaped body) : Shaped (function name body)
  | expression {value : Expr} (inside : value.Shaped) : Shaped (expression value)
  | empty : Shaped empty

namespace Parser

theorem lasting_standing : Lasting Stream.Standing where
  advance stream _ := stream.standing_advance
  takeRaw stream _ := stream.standing_takeRaw
  report _ _ _ standing := ⟨standing.visible, standing.reads⟩

/-- Every value that a parser delivers has a property. -/
abbrev Delivers {α : Type} (parser : Parser α) (property : α → Prop) : Prop :=
  Upholds Stream.Standing parser property

namespace Upholds

variable {α β : Type} {property : β → Prop}

theorem behind {first : Parser α} (tame : Tame first) {second : α → Parser β}
    (delivers : ∀ value, Delivers (second value) property) : Delivers (first >>= second) property :=
  Upholds.bind (tame.upholds lasting_standing) fun value _ => delivers value

theorem current_bind {second : Token → Parser β}
    (delivers : ∀ token, token.Valid → Delivers (second token) property) :
    Delivers (Parser.current >>= second) property :=
  fun stream standing => delivers stream.current standing.valid stream standing

theorem isAt_bind {token : Token} {second : Bool → Parser β}
    (delivers : ∀ found, Delivers (second found) property) : Delivers (Parser.isAt token >>= second)
    property :=
  fun stream standing => delivers _ stream standing

theorem weaken {parser : Parser β} {strong : β → Prop} (delivers : Delivers parser strong)
    (implied : ∀ value, strong value → property value) : Delivers parser property := by
  intro stream standing
  obtain ⟨kept, holds⟩ := delivers stream standing
  exact ⟨kept, fun value returned => implied value (holds value returned)⟩

theorem bind_of_ensures {first : Parser α} (tame : Tame first) {middle : List Taken → α → Prop}
    (ensures : ∀ count, Ensures count Anything first middle) {second : α → Parser β}
    (delivers : ∀ taken value, middle taken value → Delivers (second value) property) :
    Delivers (first >>= second) property := by
  have first : Delivers first fun value => ∃ taken, middle taken value := by
    intro stream standing
    refine ⟨(tame.upholds lasting_standing stream standing).1, fun value returned => ?_⟩
    obtain ⟨taken, -, holds, -⟩ := ensures _ stream _ value ⟨standing, Nat.lt_succ_self _⟩ trivial
      (Prod.ext returned rfl)
    exact ⟨taken, holds⟩
  refine bind first ?_
  rintro value ⟨taken, holds⟩
  exact delivers taken value holds

theorem expression_bind {second : Expr → Parser β}
    (delivers : ∀ value, value.Shaped → Delivers (second value) property) :
    Delivers (expression >>= second) property :=
  bind_of_ensures tame_expression (fun count => (sound_unbounded count).expression)
    fun _ value isOperand => delivers value isOperand.shaped

end Upholds

/-- A sequence of statements grows by statements of the grammar only. -/
theorem delivers_recovering {statement : Parser Stmt} (delivers : Delivers statement Stmt.Shaped)
    {read : List Stmt} (shaped : ∀ value ∈ read, Stmt.Shaped value) :
    Delivers (recovering statement read)
      fun outcome => ∀ values ∈ outcome, ∀ value ∈ values, Stmt.Shaped value := by
  intro stream standing
  obtain ⟨kept, holds⟩ := delivers stream standing
  rw [recovering, runOn_bind, runOn_attempt]
  generalize statement.runOn stream = outcome at kept holds
  obtain ⟨error | value, after⟩ := outcome
  · have skips : Delivers (skipStatement >>= fun _ => pure (some read))
        fun outcome => ∀ values ∈ outcome, ∀ value ∈ values, Stmt.Shaped value :=
      .behind tame_skipStatement fun _ => .pure (by simpa using shaped)
    exact skips _ ⟨kept.visible, kept.reads⟩
  · refine ⟨kept, ?_⟩
    rintro _ ⟨rfl⟩ _ ⟨rfl⟩
    rw [List.forall_mem_append, List.forall_mem_singleton]
    exact ⟨shaped, holds value rfl⟩

/-! ## The rules -/

theorem delivers_condition (word : Keyword) : Delivers (condition word) Expr.Shaped :=
  .behind .advance fun _ => .behind (.expect _ _) fun _ => .expression_bind fun _ shaped =>
    .behind (.expect _ _) fun _ => .pure shaped

theorem delivers_optionalExpression (closing : Token) :
    Delivers (optionalExpression closing) fun value => ∀ expr ∈ value, expr.Shaped := by
  refine .isAt_bind ?_
  rintro (_ | _)
  · exact .expression_bind fun value shaped => .pure (by simpa using shaped)
  · exact .pure (by simp)

section

variable {statement : Parser Stmt} (delivers : Delivers statement Stmt.Shaped)

include delivers

theorem delivers_block :
    Delivers (block statement) fun value => value.Shaped ∧ value.isBlock = true := by
  refine .behind .advance fun _ => .bind (.loop ?_ (by simp) :
    Delivers _ fun values => ∀ value ∈ values, Stmt.Shaped value) fun statements shaped => ?_
  · intro read shaped
    refine .current_bind fun token _ => ?_
    split
    · exact .pure (by simp)
    · exact .pure (by simp)
    · exact delivers_recovering delivers shaped
  · refine .current_bind fun token _ => ?_
    split
    · exact .get_bind fun _ stream standing => ⟨standing, by rintro _ ⟨⟩⟩
    · exact .behind .advance fun _ => .pure ⟨.block shaped, rfl⟩

theorem delivers_branch : Delivers (branch statement) Stmt.Shaped := by
  refine .bind (delivers_condition _) fun test tested => ?_
  refine .bind delivers fun whenTrue shapedTrue => ?_
  refine .behind (.accept _) ?_
  rintro (_ | _)
  · exact .pure (.branch tested shapedTrue (by simp))
  · refine .bind delivers fun other shapedOther => ?_
    exact .pure (.branch tested shapedTrue (by simpa using shapedOther))

theorem delivers_whileLoop : Delivers (whileLoop statement) Stmt.Shaped :=
  .bind (delivers_condition _) fun _ tested => .bind delivers fun _ shapedBody =>
    .pure (.whileLoop tested shapedBody)

theorem delivers_forLoop : Delivers (forLoop statement) Stmt.Shaped := by
  refine .behind .advance fun _ => .behind (.expect _ _) fun _ =>
    .bind (delivers_optionalExpression _) fun init shapedInit => ?_
  refine .behind (.expect _ _) fun _ =>
    .bind (delivers_optionalExpression _) fun test tested => ?_
  refine .behind (.expect _ _) fun _ =>
    .bind (delivers_optionalExpression _) fun step shapedStep => ?_
  refine .behind (.expect _ _) fun _ => .bind delivers fun body shapedBody => ?_
  exact .pure (.forLoop shapedInit tested shapedStep shapedBody)

theorem delivers_function : Delivers (function statement) Stmt.Shaped := by
  refine .behind .advance fun _ => .current_bind fun token named => ?_
  split
  · rename_i spelling
    -- behind the name and its optional parentheses
    have body : Delivers
        (do
          if ← isAt (.symbol .openBrace) then
            return .function spelling (← block statement)
          else
            fail (.missing .functionBody))
        Stmt.Shaped := by
      refine .isAt_bind ?_
      rintro (_ | _)
      · exact .fail _ _
      · refine .bind (delivers_block delivers) ?_
        rintro body ⟨shapedBody, braced⟩
        exact .pure (.function named braced shapedBody)
    refine .behind .advance fun _ => .behind (.accept _) ?_
    rintro (_ | _)
    · exact body
    · exact .behind (.expect _ _) fun _ => body
  · exact .fail _ _

omit delivers in
theorem delivers_giveBack : Delivers giveBack Stmt.Shaped := by
  have ending (value : Option Expr) (shaped : ∀ expr ∈ value, expr.Shaped) :
      Delivers (do endStatement; return .giveBack value) Stmt.Shaped :=
    .behind tame_endStatement fun _ => .pure (.giveBack shaped)
  refine .behind .advance fun _ => .current_bind fun token _ => ?_
  dsimp only
  split
  · exact ending none (by simp)
  · exact ending none (by simp)
  · rw [map_eq_pure_bind, bind_assoc]
    exact .expression_bind fun value shaped => ending (some value) (by simpa using shaped)

omit delivers in
theorem delivers_command {name : String} (named : IsName name) :
    Delivers (command name) Stmt.Shaped := by
  have ending (values : List Expr) (shaped : ∀ value ∈ values, value.Shaped)
      (quoted : Expr.QuotesRaw name values) :
      Delivers (do endStatement; return .command name values) Stmt.Shaped :=
    .behind tame_endStatement fun _ => .pure (.command named shaped quoted)
  refine .behind .advance fun _ => .isAt_bind ?_
  rintro (_ | _)
  · refine .bind_of_ensures (tame_arguments name)
      (fun count => ensures_arguments (sound_unbounded count).expression name) ?_
    rintro _ values ⟨listed, quoted⟩
    exact ending values (listed.closes .comma fun _ => .inl rfl).shaped quoted
  · exact ending [] (by simp) (by rintro _ _ ⟨⟩)

omit delivers in
theorem delivers_expressionStatement : Delivers expressionStatement Stmt.Shaped := by
  refine .expression_bind fun value shaped => .behind tame_endStatement fun _ => ?_
  split
  · cases shaped with
    | call named inside quoted => exact .pure (.command named inside quoted)
  · exact .pure (.expression shaped)

/-- A statement whose inner statements belong to the grammar. -/
theorem delivers_statementAround : Delivers (statementAround statement) Stmt.Shaped := by
  refine .current_bind fun token valid => ?_
  split
  · exact delivers_branch delivers
  · exact delivers_whileLoop delivers
  · exact delivers_forLoop delivers
  · exact delivers_function delivers
  · exact delivers_giveBack
  · exact (delivers_block delivers).weaken fun _ => And.left
  · exact .behind .advance fun _ => .behind tame_endStatement fun _ => .pure .breakLoop
  · exact .behind .advance fun _ => .behind tame_endStatement fun _ => .pure .continueLoop
  · exact .behind .advance fun _ => .pure .empty
  · refine .get_bind fun _ => ?_
    split
    · exact delivers_command valid
    · exact delivers_expressionStatement
  · exact delivers_expressionStatement

end

/-! ## Nesting -/

theorem delivers_statementUpTo (depth : Nat) : Delivers (statementUpTo depth) Stmt.Shaped := by
  induction depth with
  | zero => exact .refuse _
  | succ depth ih => exact delivers_statementAround ih

theorem delivers_script :
    Delivers script fun statements => ∀ statement ∈ statements, Stmt.Shaped statement := by
  refine .loop ?_ (by simp)
  intro read shaped
  refine .current_bind fun token _ => ?_
  split
  · exact .pure (by simp)
  · have next : Delivers (advance >>= fun _ => pure (some read))
        fun outcome => ∀ values ∈ outcome, ∀ value ∈ values, Stmt.Shaped value :=
      .behind .advance fun _ => .pure (by simpa using shaped)
    exact fun stream standing => next _ ⟨standing.visible, standing.reads⟩
  · exact delivers_recovering (.get_bind fun _ => delivers_statementUpTo _) shaped

end Parser

/-- Every statement of a script that was read belongs to the grammar. -/
theorem Script.shaped_parse (source : String) :
    ∀ statement ∈ (Script.parse source).script, Stmt.Shaped statement := by
  have holds := (Parser.delivers_script _ (Stream.standing_ofText source.toList)).2
  rw [Script.parse]
  generalize Parser.script.runOn (.ofText source.toList) = outcome at holds
  rcases outcome with ⟨error | script, stream⟩
  · simp
  · exact holds script rfl

/-- Whatever a source text holds, the statements of the script that is read from
it belong to the grammar, and so does the expression if it is read as one. -/
theorem shaped_of_source (source : String) :
    (∀ statement ∈ (Script.parse source).script, statement.Shaped) ∧
      ∀ expr, Expr.parse source = .ok expr → expr.Shaped :=
  ⟨Script.shaped_parse source, fun _ parsed => Expr.shaped_of_parse parsed⟩

set_option maxRecDepth 20000 in
/-- The negation of a chain with an index, in front of a range. -/
theorem shaped_of_source_range :
    let condition : Expr := .binary .isIn
      (.unary .not (.dotted [.name "a", .index (.name "b") [.name "i"]]))
      (.range (.number "0") (.number "2"))
    let guarded : Stmt := .branch condition (.expression (.unary .postIncrement (.name "y"))) none
    ((Script.parse "if (!a.b[i] in <0, 2>) y++;").script = [guarded] ∧ guarded.Shaped) ∧
      Expr.parse "!a.b[i] in <0, 2>" = .ok condition ∧ condition.Shaped := by
  have shaped_of_parsed : ∀ {source : String} {statement : Stmt},
      (Script.parse source).script = [statement] → statement.Shaped := by
    intro source statement parsed
    apply (shaped_of_source source).1
    rw [parsed]
    exact List.mem_singleton_self statement
  dsimp only
  constructor
  · exact (fun parsed => ⟨parsed, shaped_of_parsed parsed⟩) (by rfl)
  · exact (fun parsed => ⟨parsed, (shaped_of_source _).2 _ parsed⟩) (by rfl)

end EventScript
