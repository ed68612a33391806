import EventScript.Proofs.Grammar.Scripts
import EventScript.Proofs.Printing.Written
import EventScript.Render.Stmt

/-!
# Lines of code

The lines that statements are written on, and the tokens that they read as.
-/

namespace EventScript

variable {tokens : List Token} {rest : List Char} {condition : Expr}
variable (depth : Nat)

/-- Code that reads as given tokens, whatever follows. -/
def Spells (code : String) (tokens : List Token) : Prop :=
  ∀ rest others, Lexes rest others → Lexes (code.toList ++ rest) (tokens ++ others)

theorem spells_empty : Spells "" [] :=
  fun _ _ later => later

/-- Pieces of code in a row read as their tokens in a row. -/
theorem Spells.append {first second : String} {firstTokens secondTokens : List Token}
    (spellsFirst : Spells first firstTokens) (spellsSecond : Spells second secondTokens) :
    Spells (first ++ second) (firstTokens ++ secondTokens) := by
  intro rest others later
  rw [String.toList_append, List.append_assoc, List.append_assoc]
  exact spellsFirst _ _ (spellsSecond _ _ later)

/-- A line of code, given what the code reads as in front of a line feed. -/
theorem spells_line {code : String} (nonempty : code ≠ "") (oneLine : Text.OneLine code)
    (lexed : ∀ rest others, Lexes rest others →
      Lexes (code.toList ++ '\n' :: rest) (tokens ++ others)) :
    Spells (Text.block depth code) tokens := by
  intro rest others later
  rw [Text.toList_block_of_oneLine depth nonempty oneLine, List.append_assoc, List.append_assoc]
  exact Lexes.blanks (fun _ => Text.isBlank_of_mem_indentation) (lexed rest others later)

/-- The line feed at the end of a line is blank. -/
theorem Lexes.lineFeed (lexed : Lexes rest tokens) : Lexes ('\n' :: rest) tokens :=
  lexed.blank (by decide)

theorem spells_openBrace : Spells (Text.block depth "\x7b") [.symbol .openBrace] :=
  spells_line depth (by decide) (by decide) fun _ _ later => Lexes.isolated rfl rfl later.lineFeed

theorem spells_closeBrace : Spells (Text.block depth "\x7d") [.symbol .closeBrace] :=
  spells_line depth (by decide) (by decide) fun _ _ later => Lexes.isolated rfl rfl later.lineFeed

/-! ## Expressions inside a line -/

namespace Expr

/-- Expressions that can be written inside a line of code and read back. -/
structure Printable (expr : Expr) : Prop where
  shaped : Shaped expr
  writable : expr.Writable Text.quote

/-- The code for an expression of the target language. -/
def code (expr : Expr) : String :=
  expr.written Text.quote

theorem Printable.oneLine_code {expr : Expr} (printable : expr.Printable) :
    Text.OneLine expr.code :=
  printable.shaped.oneLine_written oneLine_quote

/-- The code for an expression reads as its tokens, in front of a character that
does not run into it. -/
theorem Printable.lexes_code {expr : Expr} (printable : expr.Printable) {character : Char}
    (apart : runsOn character = false) (noPoint : character ≠ '.')
    (later : Lexes (character :: rest) tokens) :
    Lexes (expr.code.toList ++ character :: rest) (expr.tokens ++ tokens) :=
  printable.shaped.lexesWritten printable.writable _ _ (detached_cons apart noPoint) later

/-- The code for an expression that may be missing. -/
def optionalCode (expr : Option Expr) : String :=
  (expr.map code).getD ""

theorem oneLine_optionalCode {expr : Option Expr} (printable : ∀ value ∈ expr, Printable value) :
    Text.OneLine (optionalCode expr) := by
  cases expr with
  | none => exact List.not_mem_nil
  | some value => exact (printable value rfl).oneLine_code

theorem lexes_optionalCode {expr : Option Expr} (printable : ∀ value ∈ expr, Printable value)
    {character : Char} (apart : runsOn character = false) (noPoint : character ≠ '.')
    (later : Lexes (character :: rest) tokens) :
    Lexes ((optionalCode expr).toList ++ character :: rest) (optionalTokens expr ++ tokens) := by
  cases expr with
  | none => exact later
  | some value => exact (printable value rfl).lexes_code apart noPoint later

end Expr

/-! ## Lines of statements -/

/-- What the line of a branch begins with. -/
def StmtForm.leadTokens : StmtForm → List Token
  | .alternative => [.symbol .closeBrace, .keyword .elseWord]
  | _ => []

theorem lexes_lead (form : StmtForm) (later : Lexes rest tokens) :
    Lexes (form.lead.toList ++ rest) (form.leadTokens ++ tokens) := by
  cases form with
  | alternative =>
    refine Lexes.isolated rfl rfl (Lexes.blank (by decide) ?_)
    exact (begins_keyword .elseWord ((stops_cons _ _ _).mpr rfl)).lexes
      (Lexes.blank (by decide) later)
  | _ => exact later

/-- A keyword and a condition in parentheses, in front of an opening brace. -/
theorem lexes_tested (word : Keyword) (printable : condition.Printable) (later : Lexes rest tokens) :
    Lexes (word.spelling.toList ++ ' ' :: '(' :: (condition.code.toList ++
        ')' :: ' ' :: '\x7b' :: '\n' :: rest))
      (.keyword word :: .symbol .openParen :: (condition.tokens ++
        .symbol .closeParen :: .symbol .openBrace :: tokens)) := by
  refine (begins_keyword word ((stops_cons _ _ _).mpr rfl)).lexes ?_
  refine Lexes.blank (by decide) (Lexes.isolated rfl rfl ?_)
  refine printable.lexes_code rfl (by decide) ?_
  refine Lexes.isolated rfl rfl (Lexes.blank (by decide) (Lexes.isolated rfl rfl later.lineFeed))

theorem spells_branchLine (form : StmtForm) (depth : Nat) (printable : condition.Printable) :
    Spells (Text.block depth (form.lead ++ "if (" ++ condition.code ++ ") \x7b"))
      (form.leadTokens ++ .keyword .ifWord :: .symbol .openParen ::
        (condition.tokens ++ [.symbol .closeParen, .symbol .openBrace])) := by
  have oneLineLead : Text.OneLine form.lead := by cases form <;> decide
  refine spells_line depth (by simp) ?_ ?_
  · simp only [Text.oneLine_append]
    exact ⟨⟨⟨oneLineLead, by decide⟩, printable.oneLine_code⟩, by decide⟩
  · intro rest others later
    simp only [String.toList_append, List.append_assoc, List.cons_append, List.nil_append]
    exact lexes_lead form (lexes_tested .ifWord printable later)

theorem spells_elseLine :
    Spells (Text.block depth ("\x7d else" ++ " \x7b"))
      [.symbol .closeBrace, .keyword .elseWord, .symbol .openBrace] := by
  refine spells_line depth (by decide) (by decide) ?_
  intro rest others later
  refine Lexes.isolated rfl rfl (Lexes.blank (by decide) ?_)
  refine (begins_keyword .elseWord ((stops_cons _ _ _).mpr rfl)).lexes ?_
  exact Lexes.blank (by decide) (Lexes.isolated rfl rfl later.lineFeed)

theorem spells_whileLine (printable : condition.Printable) :
    Spells (Text.block depth ("while (" ++ condition.code ++ ")" ++ " \x7b"))
      (.keyword .whileWord :: .symbol .openParen ::
        (condition.tokens ++ [.symbol .closeParen, .symbol .openBrace])) := by
  refine spells_line depth (by simp) ?_ ?_
  · simp only [Text.oneLine_append]
    exact ⟨⟨⟨by decide, printable.oneLine_code⟩, by decide⟩, by decide⟩
  · intro rest others later
    simp only [String.toList_append, List.append_assoc, List.cons_append, List.nil_append]
    exact lexes_tested .whileWord printable later

theorem spells_forLine {init condition step : Option Expr}
    (printableInit : ∀ expr ∈ init, expr.Printable) (tested : ∀ expr ∈ condition, expr.Printable)
    (printableStep : ∀ expr ∈ step, expr.Printable) :
    Spells
      (Text.block depth ("for (" ++ Expr.optionalCode init ++ "; " ++
        Expr.optionalCode condition ++ "; " ++ Expr.optionalCode step ++ ")" ++ " \x7b"))
      (.keyword .forWord :: .symbol .openParen ::
        (Expr.optionalTokens init ++ .symbol .semicolon ::
          (Expr.optionalTokens condition ++ .symbol .semicolon ::
            (Expr.optionalTokens step ++ [.symbol .closeParen, .symbol .openBrace])))) := by
  refine spells_line depth (by simp) ?_ ?_
  · simp only [Text.oneLine_append, and_assoc]
    exact ⟨by decide, Expr.oneLine_optionalCode printableInit, by decide,
      Expr.oneLine_optionalCode tested, by decide, Expr.oneLine_optionalCode printableStep,
      by decide, by decide⟩
  · intro rest others later
    simp only [String.toList_append, List.append_assoc, List.cons_append, List.nil_append]
    refine (begins_keyword .forWord ((stops_cons _ _ _).mpr rfl)).lexes ?_
    refine Lexes.blank (by decide) (Lexes.isolated rfl rfl ?_)
    refine Expr.lexes_optionalCode printableInit rfl (by decide) ?_
    refine Lexes.isolated rfl rfl (Lexes.blank (by decide) ?_)
    refine Expr.lexes_optionalCode tested rfl (by decide) ?_
    refine Lexes.isolated rfl rfl (Lexes.blank (by decide) ?_)
    refine Expr.lexes_optionalCode printableStep rfl (by decide) ?_
    exact Lexes.isolated rfl rfl (Lexes.blank (by decide) (Lexes.isolated rfl rfl later.lineFeed))

theorem spells_functionLine {name : String} (named : IsName name) :
    Spells (Text.block depth ("function " ++ name ++ "()" ++ " \x7b"))
      [.keyword .functionWord, .name name, .symbol .openParen, .symbol .closeParen,
        .symbol .openBrace] := by
  refine spells_line depth (by simp) ?_ ?_
  · simp only [Text.oneLine_append]
    exact ⟨⟨⟨by decide, Expr.oneLine_name named⟩, by decide⟩, by decide⟩
  · intro rest others later
    simp only [String.toList_append, List.append_assoc, List.cons_append, List.nil_append]
    refine (begins_keyword .functionWord ((stops_cons _ _ _).mpr rfl)).lexes
      (Lexes.blank (by decide) ?_)
    refine (begins_name named ((stops_cons _ _ _).mpr rfl)).lexes ?_
    exact Lexes.isolated rfl rfl (Lexes.isolated rfl rfl (Lexes.blank (by decide)
      (Lexes.isolated rfl rfl later.lineFeed)))

theorem spells_keywordLine (word : Keyword) {code : String} (spelled : code = word.spelling ++ ";") :
    Spells (Text.block depth code) [.keyword word, .symbol .semicolon] := by
  subst spelled
  have oneLine : Text.OneLine word.spelling := by cases word <;> decide
  refine spells_line depth (by simp) ((Text.oneLine_append _ _).mpr ⟨oneLine, by decide⟩) ?_
  intro rest others later
  rw [String.toList_append, List.append_assoc]
  exact (begins_keyword word ((stops_cons _ _ _).mpr rfl)).lexes
    (Lexes.isolated rfl rfl later.lineFeed)

theorem spells_returnLine {value : Expr} (printable : value.Printable) :
    Spells (Text.block depth ("return " ++ value.code ++ ";"))
      (.keyword .returnWord :: (value.tokens ++ [.symbol .semicolon])) := by
  refine spells_line depth (by simp) ?_ ?_
  · simp only [Text.oneLine_append]
    exact ⟨⟨by decide, printable.oneLine_code⟩, by decide⟩
  · intro rest others later
    simp only [String.toList_append, List.append_assoc, List.cons_append, List.nil_append]
    refine (begins_keyword .returnWord ((stops_cons _ _ _).mpr rfl)).lexes
      (Lexes.blank (by decide) ?_)
    exact printable.lexes_code rfl (by decide) (Lexes.isolated rfl rfl later.lineFeed)

/-- An expression with a semicolon on a line of its own. -/
theorem spells_expressionLine {value : Expr} (printable : value.Printable) :
    Spells (Text.block depth (value.code ++ ";")) (value.tokens ++ [.symbol .semicolon]) := by
  refine spells_line depth (by simp) ?_ ?_
  · exact (Text.oneLine_append _ _).mpr ⟨printable.oneLine_code, by decide⟩
  · intro rest others later
    simp only [String.toList_append, List.append_assoc, List.cons_append, List.nil_append]
    exact printable.lexes_code rfl (by decide) (Lexes.isolated rfl rfl later.lineFeed)

end EventScript
