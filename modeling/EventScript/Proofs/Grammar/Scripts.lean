import EventScript.Proofs.Grammar.ReadBack
import EventScript.Proofs.Grammar.Statements

/-!
# Scripts are read back

The tokens of a statement whose bodies are all blocks are read as that
statement, and the tokens of a whole script as that script.
-/

namespace EventScript

variable {condition : Expr} {statements : List Stmt}

/-! ## Tokens of statements -/

/-- The tokens of an expression that may be missing. -/
def Expr.optionalTokens (expr : Option Expr) : List Token :=
  (expr.map Expr.tokens).getD []

namespace Stmt

mutual

/-- The tokens of a statement, in order. -/
def tokens : Stmt → List Token
  | .block statements => .symbol .openBrace :: (tokensAll statements ++ [.symbol .closeBrace])
  | .branch condition whenTrue none =>
    .keyword .ifWord :: .symbol .openParen ::
      (condition.tokens ++ .symbol .closeParen :: whenTrue.tokens)
  | .branch condition whenTrue (some other) =>
    .keyword .ifWord :: .symbol .openParen ::
      (condition.tokens ++ .symbol .closeParen ::
        (whenTrue.tokens ++ .keyword .elseWord :: other.tokens))
  | .forLoop init condition step body =>
    .keyword .forWord :: .symbol .openParen ::
      (Expr.optionalTokens init ++ .symbol .semicolon ::
        (Expr.optionalTokens condition ++ .symbol .semicolon ::
          (Expr.optionalTokens step ++ .symbol .closeParen :: body.tokens)))
  | .whileLoop condition body =>
    .keyword .whileWord :: .symbol .openParen ::
      (condition.tokens ++ .symbol .closeParen :: body.tokens)
  | .breakLoop => [.keyword .breakWord, .symbol .semicolon]
  | .continueLoop => [.keyword .continueWord, .symbol .semicolon]
  | .giveBack value =>
    .keyword .returnWord :: (Expr.optionalTokens value ++ [.symbol .semicolon])
  | .command name arguments =>
    .name name :: (Expr.separated .comma arguments ++ [.symbol .semicolon])
  | .function name body =>
    .keyword .functionWord :: .name name :: .symbol .openParen :: .symbol .closeParen ::
      body.tokens
  | .expression value => value.tokens ++ [.symbol .semicolon]
  | .empty => [.symbol .semicolon]

/-- The tokens of statements, one after the other. -/
def tokensAll : List Stmt → List Token
  | [] => []
  | first :: others => first.tokens ++ tokensAll others

end

/-- An expression whose tokens are read as an expression when they stand as a
statement: it is not a call, does not begin like a block, and if it begins with
a name, not like a command without parentheses. -/
def StandsAlone (value : Expr) : Prop :=
  (∀ function arguments, value ≠ .call function arguments) ∧
    match value.tokens ++ [.symbol .semicolon] with
    | .symbol .openBrace :: _ => False
    | .name _ :: next :: _ => Parser.startsCommand next = false
    | _ => True

/-- Statements of the grammar whose bodies are all blocks, an `else` being
followed by a block or by another branch. -/
inductive Braced : Stmt → Prop
  | block {statements : List Stmt} (inside : ∀ statement ∈ statements, Braced statement) :
      Braced (block statements)
  | branch {condition : Expr} {whenTrue : Stmt} (tested : condition.Shaped)
      (braced : whenTrue.isBlock = true) (inside : Braced whenTrue) :
      Braced (branch condition whenTrue none)
  | choice {condition : Expr} {whenTrue other : Stmt} (tested : condition.Shaped)
      (braced : whenTrue.isBlock = true) (inside : Braced whenTrue) (insideOther : Braced other) :
      Braced (branch condition whenTrue (some other))
  | forLoop {init condition step : Option Expr} {body : Stmt}
      (shapedInit : ∀ expr ∈ init, expr.Shaped) (tested : ∀ expr ∈ condition, expr.Shaped)
      (shapedStep : ∀ expr ∈ step, expr.Shaped) (braced : body.isBlock = true)
      (inside : Braced body) : Braced (forLoop init condition step body)
  | whileLoop {condition : Expr} {body : Stmt} (tested : condition.Shaped)
      (braced : body.isBlock = true) (inside : Braced body) : Braced (whileLoop condition body)
  | breakLoop : Braced breakLoop
  | continueLoop : Braced continueLoop
  | giveBack {value : Option Expr} (shaped : ∀ expr ∈ value, expr.Shaped) :
      Braced (giveBack value)
  | command {name : String} {arguments : List Expr}
      (begins : Parser.startsCommand
        ((Expr.separated .comma arguments).headD (.symbol .semicolon)) = true)
      (inside : ∀ argument ∈ arguments, argument.Shaped)
      (quoted : Expr.QuotesRaw name arguments) : Braced (command name arguments)
  | function {name : String} {body : Stmt} (braced : body.isBlock = true)
      (inside : Braced body) : Braced (function name body)
  | expression {value : Expr} (shaped : value.Shaped) (alone : StandsAlone value) :
      Braced (expression value)
  | empty : Braced empty

/-- A statement begins with none of the tokens that end a sequence or continue
a branch. -/
theorem Braced.first_token {statement : Stmt} (braced : Braced statement) (rest : List Token) :
    (statement.tokens ++ rest).headD .endOfInput ≠ .symbol .closeBrace ∧
      (statement.tokens ++ rest).headD .endOfInput ≠ .keyword .elseWord ∧
        (statement.tokens ++ rest).headD .endOfInput ≠ .endOfInput := by
  cases braced with
  | expression shaped alone =>
    rw [tokens, List.append_assoc]
    exact ⟨shaped.headD_ne _ rfl rfl, shaped.headD_ne _ rfl rfl, shaped.headD_ne _ rfl rfl⟩
  | _ => simp [tokens]

end Stmt

namespace Parser

open Stmt

variable {rest : List Token}

/-! ## Parts of statements -/

theorem reads_endStatement (rest : List Token) :
    Reads endStatement [.symbol .semicolon] rest () := by
  refine Reads.current_bind ?_
  intro stream _
  rfl

theorem reads_condition (shaped : condition.Shaped) (word : Keyword) :
    Reads (Parser.condition word)
      (.keyword word :: .symbol .openParen :: (condition.tokens ++ [.symbol .closeParen])) rest
      condition := by
  refine Reads.advance_bind (Reads.expect_bind ?_)
  refine Reads.bind (reads_expression_of_shaped shaped ?_) (Reads.expect_bind (Reads.pure _ rest))
  rintro _ ⟨⟩

theorem reads_optionalExpression {expr : Option Expr} (shaped : ∀ value ∈ expr, value.Shaped)
    {closing : Token} (ended : Ends 0 (closing :: rest))
    (noOperand : Expr.opensOperand closing = false)
    (noPrefix : UnaryOp.ofToken? closing = none) :
    Reads (optionalExpression closing) (Expr.optionalTokens expr) (closing :: rest) expr := by
  refine Reads.isAt_bind ?_
  cases expr with
  | none =>
    rw [if_pos (by simp [Expr.optionalTokens])]
    exact Reads.pure none _
  | some value =>
    have shapedValue := shaped value rfl
    rw [if_neg]
    · exact Reads.map (reads_expression_of_shaped shapedValue ended) some
    · rw [beq_iff_eq]
      exact shapedValue.headD_ne _ noOperand noPrefix

theorem reads_giveBack {value : Option Expr} (shaped : ∀ expr ∈ value, expr.Shaped) :
    Reads giveBack (Stmt.tokens (.giveBack value)) rest (.giveBack value) := by
  refine Reads.advance_bind (Reads.current_bind ?_)
  cases value with
  | none => exact Reads.map (reads_endStatement rest) _
  | some expr =>
    have shapedExpr := shaped expr rfl
    have readValue : Reads (some <$> expression) expr.tokens ([.symbol .semicolon] ++ rest)
        (some expr) := Reads.fmap (reads_expression_of_shaped shapedExpr (by rintro _ ⟨⟩)) some
    dsimp only
    split
    · rename_i isSemicolon
      exact absurd isSemicolon (by
        rw [List.append_assoc]; exact shapedExpr.headD_ne _ rfl rfl)
    · rename_i isBrace
      exact absurd isBrace (by
        rw [List.append_assoc]; exact shapedExpr.headD_ne _ rfl rfl)
    · exact Reads.bind readValue (Reads.map (reads_endStatement rest) _)

theorem reads_expressionStatement {value : Expr} (shaped : value.Shaped)
    (noCall : ∀ function arguments, value ≠ .call function arguments) :
    Reads expressionStatement (value.tokens ++ [.symbol .semicolon]) rest (.expression value) := by
  refine Reads.bind (reads_expression_of_shaped shaped (by rintro _ ⟨⟩)) ?_
  refine Reads.bind_nil (reads_endStatement rest) ?_
  split
  · rename_i function arguments
    exact absurd rfl (noCall function arguments)
  · exact Reads.pure _ rest

/-- An expression that stands alone is read as an expression statement. -/
theorem reads_statementAround_expression (inner : Parser Stmt) {value : Expr}
    (shaped : value.Shaped) (alone : StandsAlone value) :
    Reads (statementAround inner) (value.tokens ++ [.symbol .semicolon]) rest
      (.expression value) := by
  obtain ⟨noCall, begins⟩ := alone
  have read : Reads expressionStatement (value.tokens ++ [.symbol .semicolon]) rest
      (.expression value) := reads_expressionStatement shaped noCall
  obtain ⟨first, others, spelled, opens⟩ := shaped.opens
  rw [spelled, List.cons_append] at read begins ⊢
  cases first with
  | number _ | text _ => exact Reads.current_bind read
  | name spelling =>
    refine Reads.current_bind (Reads.get_bind ?_)
    intro stream standing
    -- the token behind the name decides
    have next : startsCommand stream.following = false := by
      rw [Stream.At.following_eq standing]
      cases others with
      | nil => exact begins
      | cons _ _ => exact begins
    rw [next]
    exact read
  | symbol mark =>
    cases mark with
    | openBrace => exact begins.elim
    | semicolon => simp [Expr.opensOperand, UnaryOp.ofToken?] at opens
    | _ => exact Reads.current_bind read
  | keyword _ | endOfInput => simp [Expr.opensOperand, UnaryOp.ofToken?] at opens

/-- The arguments of a command without parentheses are read up to the semicolon. -/
theorem reads_command {name : String} {arguments : List Expr}
    (shaped : ∀ argument ∈ arguments, argument.Shaped) (quoted : Expr.QuotesRaw name arguments) :
    Reads (command name) (Stmt.tokens (.command name arguments)) rest (.command name arguments) := by
  refine Reads.advance_bind (Reads.isAt_bind ?_)
  cases arguments with
  | nil => exact Reads.map (reads_endStatement rest) _
  | cons first others =>
    have shapedFirst := shaped first List.mem_cons_self
    rw [if_neg]
    · refine Reads.bind (reads_separated (argument expression name) (by rintro _ ⟨⟩) (by simp) ?_)
        (Reads.map (reads_endStatement rest) _)
      intro position expr found behind endedBehind
      have member := List.mem_of_getElem? found
      exact reads_argument (reads_expression_of_shaped (shaped expr member) endedBehind)
        (quoted position expr found)
    · rw [beq_iff_eq, Expr.separated, List.append_assoc, List.append_assoc]
      exact shapedFirst.headD_ne _ rfl rfl

/-! ## Sequences -/

theorem reads_recovering {statement : Parser Stmt} {value : Stmt} {tokens : List Token}
    (read : Reads statement tokens rest value) (earlier : List Stmt) :
    Reads (recovering statement earlier) tokens rest (some (earlier ++ [value])) :=
  Reads.bind_nil read.attempt (Reads.pure _ rest)

/-- The statements behind one that was read do not begin with `else`. -/
theorem noElse_tokensAll (braced : ∀ statement ∈ statements, Braced statement)
    (noElse : rest.headD .endOfInput ≠ .keyword .elseWord) :
    (tokensAll statements ++ rest).headD .endOfInput ≠ .keyword .elseWord := by
  cases statements with
  | nil => exact noElse
  | cons first others =>
    rw [tokensAll, List.append_assoc]
    exact ((braced first List.mem_cons_self).first_token _).2.1

/-- Statements in a row are read one by one by a loop that tries to read a
statement unless it stands at the end of the row. -/
theorem steps_statements {step : List Stmt → Parser (Option (List Stmt))} (statement : Parser Stmt)
    (braced : ∀ value ∈ statements, Braced value)
    (reads : ∀ value ∈ statements, ∀ behind : List Token,
      behind.headD .endOfInput ≠ .keyword .elseWord → Reads statement value.tokens behind value)
    (tries : ∀ earlier value behind, Braced value →
      Reads (recovering statement earlier) value.tokens behind (some (earlier ++ [value])) →
        Reads (step earlier) value.tokens behind (some (earlier ++ [value])))
    (noElse : rest.headD .endOfInput ≠ .keyword .elseWord) (earlier : List Stmt) :
    Steps step earlier (tokensAll statements) rest (earlier ++ statements) := by
  induction statements generalizing earlier with
  | nil =>
    rw [List.append_nil]
    exact .refl earlier rest
  | cons first others ih =>
    rw [List.forall_mem_cons] at braced reads
    have read := reads.1 _ (noElse_tokensAll braced.2 noElse)
    have nonempty : first.tokens ≠ [] := by
      intro none
      have known := (braced.1.first_token []).2.2
      rw [none] at known
      exact known rfl
    rw [tokensAll, ← List.singleton_append, ← List.append_assoc]
    exact .next (tries earlier first _ braced.1 (reads_recovering read earlier)) nonempty
      (ih braced.2 reads.2 _)

/-! ## Statements -/

theorem reads_block {statement : Parser Stmt} (braced : ∀ value ∈ statements, Braced value)
    (reads : ∀ value ∈ statements, ∀ behind : List Token,
      behind.headD .endOfInput ≠ .keyword .elseWord → Reads statement value.tokens behind value) :
    Reads (block statement) (Stmt.tokens (.block statements)) rest (.block statements) := by
  refine Reads.advance_bind (Reads.bind (Steps.reads_loop
    (steps_statements statement braced reads ?_ (by simp) []) ?_) ?_)
  · intro earlier value behind bracedValue read
    obtain ⟨noBrace, _, noEnd⟩ := bracedValue.first_token behind
    refine Reads.current_bind ?_
    split
    · contradiction
    · contradiction
    · exact read
  · exact Reads.current_bind (Reads.pure none _)
  · exact Reads.current_bind (Reads.advance_bind (Reads.pure _ rest))

section

variable {inner : Parser Stmt}

theorem reads_branch {whenTrue : Stmt} (tested : condition.Shaped)
    (readTrue : Reads inner whenTrue.tokens rest whenTrue)
    (noElse : rest.headD .endOfInput ≠ .keyword .elseWord) :
    Reads (branch inner) (Stmt.tokens (.branch condition whenTrue none)) rest
      (.branch condition whenTrue none) := by
  have spelled : Stmt.tokens (.branch condition whenTrue none) =
      (.keyword .ifWord :: .symbol .openParen :: (condition.tokens ++ [.symbol .closeParen])) ++
        whenTrue.tokens := by
    simp [Stmt.tokens]
  rw [spelled]
  refine Reads.bind (reads_condition tested .ifWord) (Reads.bind_nil readTrue ?_)
  exact Reads.accept_bind_of_ne noElse (Reads.pure _ rest)

theorem reads_choice {whenTrue other : Stmt} (tested : condition.Shaped)
    (readTrue : Reads inner whenTrue.tokens (.keyword .elseWord :: (other.tokens ++ rest)) whenTrue)
    (readOther : Reads inner other.tokens rest other) :
    Reads (branch inner) (Stmt.tokens (.branch condition whenTrue (some other))) rest
      (.branch condition whenTrue (some other)) := by
  have spelled : Stmt.tokens (.branch condition whenTrue (some other)) =
      (.keyword .ifWord :: .symbol .openParen :: (condition.tokens ++ [.symbol .closeParen])) ++
        (whenTrue.tokens ++ .keyword .elseWord :: other.tokens) := by
    simp [Stmt.tokens]
  rw [spelled]
  refine Reads.bind (reads_condition tested .ifWord) (Reads.bind readTrue ?_)
  exact Reads.accept_bind (Reads.map readOther _)

theorem reads_whileLoop {body : Stmt} (tested : condition.Shaped)
    (readBody : Reads inner body.tokens rest body) :
    Reads (whileLoop inner) (Stmt.tokens (.whileLoop condition body)) rest
      (.whileLoop condition body) := by
  have spelled : Stmt.tokens (.whileLoop condition body) =
      (.keyword .whileWord :: .symbol .openParen ::
        (condition.tokens ++ [.symbol .closeParen])) ++ body.tokens := by
    simp [Stmt.tokens]
  rw [spelled]
  exact Reads.bind (reads_condition tested .whileWord) (Reads.map readBody _)

theorem reads_forLoop {init condition step : Option Expr} {body : Stmt}
    (shapedInit : ∀ expr ∈ init, expr.Shaped) (tested : ∀ expr ∈ condition, expr.Shaped)
    (shapedStep : ∀ expr ∈ step, expr.Shaped) (readBody : Reads inner body.tokens rest body) :
    Reads (forLoop inner) (Stmt.tokens (.forLoop init condition step body)) rest
      (.forLoop init condition step body) := by
  have clause {expr : Option Expr} (shaped : ∀ value ∈ expr, value.Shaped) (behind : List Token) :
      Reads (optionalExpression (.symbol .semicolon)) (Expr.optionalTokens expr)
        (.symbol .semicolon :: behind) expr :=
    reads_optionalExpression shaped (by rintro _ ⟨⟩) rfl rfl
  have lastClause (behind : List Token) :
      Reads (optionalExpression (.symbol .closeParen)) (Expr.optionalTokens step)
        (.symbol .closeParen :: behind) step :=
    reads_optionalExpression shapedStep (by rintro _ ⟨⟩) rfl rfl
  refine Reads.advance_bind (Reads.expect_bind ?_)
  refine Reads.bind (clause shapedInit _) (Reads.expect_bind ?_)
  refine Reads.bind (clause tested _) (Reads.expect_bind ?_)
  exact Reads.bind (lastClause _) (Reads.expect_bind (Reads.map readBody _))

theorem reads_function {name : String}
    (readBody : Reads (block inner) (Stmt.tokens (.block statements)) rest (.block statements)) :
    Reads (function inner) (Stmt.tokens (.function name (.block statements))) rest
      (.function name (.block statements)) := by
  refine Reads.advance_bind (Reads.current_bind (Reads.advance_bind (Reads.accept_bind ?_)))
  exact Reads.expect_bind (Reads.isAt_bind (Reads.map readBody _))

end

theorem length_le_tokensAll {value : Stmt} (member : value ∈ statements) :
    value.tokens.length ≤ (tokensAll statements).length := by
  induction statements with
  | nil => cases member
  | cons first others ih =>
    rw [tokensAll, List.length_append]
    rcases List.mem_cons.mp member with rfl | later
    · omega
    · have := ih later
      omega

/-- The tokens of a statement whose bodies are blocks are read as that statement.
Only a block may be followed by `else`. -/
theorem reads_statementUpTo {value : Stmt} (braced : Braced value) {depth : Nat}
    (deep : value.tokens.length < depth)
    (noElse : value.isBlock = true ∨ rest.headD .endOfInput ≠ .keyword .elseWord) :
    Reads (statementUpTo depth) value.tokens rest value := by
  induction braced generalizing depth rest with
    obtain ⟨depth, rfl⟩ := Nat.exists_eq_add_one_of_ne_zero (Nat.ne_zero_of_lt deep)
  | block inside ih =>
    rw [Stmt.tokens, List.length_cons, List.length_append] at deep
    refine Reads.current_bind (reads_block inside ?_)
    intro value member behind noElseBehind
    have bounded := length_le_tokensAll member
    exact ih value member (by omega) (.inr noElseBehind)
  | branch tested bracedTrue inside ih =>
    simp only [Stmt.tokens, List.length_cons, List.length_append] at deep
    have noElse := noElse.resolve_left Bool.false_ne_true
    exact Reads.current_bind (reads_branch tested
      (ih (by omega) (.inl bracedTrue)) noElse)
  | choice tested bracedTrue inside insideOther readTrue readOther =>
    simp only [Stmt.tokens, List.length_cons, List.length_append] at deep
    have noElse := noElse.resolve_left Bool.false_ne_true
    exact Reads.current_bind (reads_choice tested (readTrue (by omega) (.inl bracedTrue))
      (readOther (by omega) (.inr noElse)))
  | forLoop shapedInit tested shapedStep bracedBody inside ih =>
    simp only [Stmt.tokens, List.length_cons, List.length_append] at deep
    exact Reads.current_bind (reads_forLoop shapedInit tested shapedStep
      (ih (by omega) (.inl bracedBody)))
  | whileLoop tested bracedBody inside ih =>
    simp only [Stmt.tokens, List.length_cons, List.length_append] at deep
    exact Reads.current_bind (reads_whileLoop tested
      (ih (by omega) (.inl bracedBody)))
  | breakLoop | continueLoop =>
    exact Reads.current_bind (Reads.advance_bind (Reads.map (reads_endStatement rest) _))
  | giveBack shaped =>
    exact Reads.current_bind (reads_giveBack shaped)
  | @command name arguments begins shaped quoted =>
    refine Reads.current_bind (Reads.get_bind ?_)
    intro stream standing
    have next : startsCommand stream.following = true := by
      rw [Stream.At.following_eq standing]
      cases spelled : Expr.separated .comma arguments with
      | nil => rfl
      | cons token more =>
        rw [spelled] at begins
        exact begins
    rw [next]
    exact reads_command shaped quoted
  | @function name body bracedBody inside ih =>
    simp only [Stmt.tokens, List.length_cons] at deep
    cases body with
    | block statements =>
      have readBody : Reads (statementUpTo (depth + 1)) _ rest (.block statements) :=
        ih (by omega) (.inl rfl)
      exact Reads.current_bind (reads_function readBody.of_current_bind)
    | _ => cases bracedBody
  | expression shaped alone =>
    exact reads_statementAround_expression _ shaped alone
  | empty =>
    exact Reads.current_bind (Reads.advance_bind (Reads.pure _ rest))

/-- The tokens of statements whose bodies are blocks are read as a script. -/
theorem reads_script {statements : Script} (braced : ∀ value ∈ statements, Braced value) :
    Reads script (tokensAll statements) [] statements := by
  refine Steps.reads_loop (steps_statements statement braced ?_ ?_ (by simp) []) ?_
  · intro value member behind noElse
    refine Reads.get_bind ?_
    intro stream standing
    have bounded := standing.length_le_remaining
    rw [List.length_append] at bounded
    exact reads_statementUpTo (braced value member) (by omega) (.inr noElse)
  · intro earlier value behind bracedValue read
    obtain ⟨noBrace, _, noEnd⟩ := bracedValue.first_token behind
    refine Reads.current_bind ?_
    split
    · contradiction
    · contradiction
    · exact read
  · exact Reads.current_bind (Reads.pure none _)

end Parser

/-- A text with the tokens of statements whose bodies are blocks is read as these
statements, and nothing is found wrong with it. -/
theorem Script.parse_of_lexes {source : String} {statements : Script}
    (lexed : Lexes source.toList (Stmt.tokensAll statements))
    (braced : ∀ value ∈ statements, Stmt.Braced value) :
    Script.parse source = ⟨statements, []⟩ := by
  obtain ⟨standing, noFindings⟩ := Stream.at_ofText lexed
  rw [← List.append_nil (Stmt.tokensAll statements)] at standing
  have run := Parser.reads_script braced _ standing
  have findings := standing.findings_skip
  rw [noFindings] at findings
  rw [Script.parse, run]
  exact congrArg (Parsed.mk statements) findings

end EventScript
