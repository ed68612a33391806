import EventScript.Expr.Parse
import EventScript.Stmt

/-!
# Reading scripts

The grammar of statements.  A statement that cannot be read is reported and
skipped up to its semicolon or the brace that closes its block, and reading
goes on, so a broken script still yields a tree.
-/

namespace EventScript.Parser

/-- Accept a semicolon, or nothing in front of a closing brace and at the end. -/
def endStatement : Parser Unit := do
  match ← current with
  | .symbol .semicolon => advance
  | .symbol .closeBrace => return
  | .endOfInput => return
  | token => fail (.missingSemicolon token)

/-- Skip to the end of a broken statement: behind its semicolon, or in front of
a closing brace or the end. -/
def skipStatement : Parser Unit :=
  loop
    (fun _ => do
      match ← current with
      | .symbol .semicolon =>
        advance
        return none
      | .symbol .closeBrace => return none
      | .endOfInput => return none
      | _ =>
        advance
        return some ())
    ()

/-- Read one more statement of a sequence, or report why it cannot be read and
skip it. -/
def recovering (statement : Parser Stmt) (read : List Stmt) :
    Parser (Option (List Stmt)) := do
  match ← attempt statement with
  | .ok value => return some (read ++ [value])
  | .error error =>
    report error
    skipStatement
    return some read

/-! ## The rules -/

/-- Statements between braces. -/
def block (statement : Parser Stmt) : Parser Stmt := do
  advance
  let statements ←
    loop
      (fun read => do
        match ← current with
        | .symbol .closeBrace => return none
        | .endOfInput => return none
        | _ => recovering statement read)
      []
  match ← current with
  | .endOfInput => throw (.unterminated (← get).line .block)
  | _ =>
    advance
    return .block statements

/-- The condition of a branch or a loop, in parentheses. -/
def condition (word : Keyword) : Parser Expr := do
  advance
  expect (.symbol .openParen) (.openAfter word)
  let value ← expression
  expect (.symbol .closeParen) .closeAfterCondition
  return value

/-- A branch with its optional other branch. -/
def branch (statement : Parser Stmt) : Parser Stmt := do
  let test ← condition .ifWord
  let whenTrue ← statement
  if ← accept (.keyword .elseWord) then
    return .branch test whenTrue (some (← statement))
  else
    return .branch test whenTrue none

/-- A loop on a condition. -/
def whileLoop (statement : Parser Stmt) : Parser Stmt := do
  let test ← condition .whileWord
  return .whileLoop test (← statement)

/-- An expression that may be missing in front of a closing token. -/
def optionalExpression (closing : Token) : Parser (Option Expr) := do
  if ← isAt closing then
    return none
  else
    return some (← expression)

/-- A counted loop. -/
def forLoop (statement : Parser Stmt) : Parser Stmt := do
  advance
  expect (.symbol .openParen) (.openAfter .forWord)
  let init ← optionalExpression (.symbol .semicolon)
  expect (.symbol .semicolon) .semicolonAfterInitializer
  let test ← optionalExpression (.symbol .semicolon)
  expect (.symbol .semicolon) .semicolonAfterCondition
  let step ← optionalExpression (.symbol .closeParen)
  expect (.symbol .closeParen) .closeAfterClauses
  return .forLoop init test step (← statement)

/-- The declaration of a function. -/
def function (statement : Parser Stmt) : Parser Stmt := do
  advance
  match ← current with
  | .name spelling =>
    advance
    if ← accept (.symbol .openParen) then
      expect (.symbol .closeParen) .closeAfterFunctionName
    if ← isAt (.symbol .openBrace) then
      return .function spelling (← block statement)
    else
      fail (.missing .functionBody)
  | _ => fail (.missing .functionName)

/-- The return from a function, with or without a value. -/
def giveBack : Parser Stmt := do
  advance
  let value ←
    match ← current with
    | .symbol .semicolon => pure none
    | .symbol .closeBrace => pure none
    | _ => some <$> expression
  endStatement
  return .giveBack value

/-- A command without parentheses, from its name on. -/
def command (name : String) : Parser Stmt := do
  advance
  let read ←
    if ← isAt (.symbol .semicolon) then pure [] else arguments expression name
  endStatement
  return .command name read

/-- An expression as a statement.  A bare call is a command. -/
def expressionStatement : Parser Stmt := do
  let value ← expression
  endStatement
  match value with
  | .call name arguments => return .command name arguments
  | other => return .expression other

/-- Whether the token behind a name makes the name a command without
parentheses. -/
def startsCommand : Token → Bool
  | .name _ => true
  | .number _ => true
  | .text _ => true
  | .symbol .hash => true
  | .symbol .semicolon => true
  | _ => false

/-- A statement whose inner statements are read by a given parser. -/
def statementAround (inner : Parser Stmt) : Parser Stmt := do
  match ← current with
  | .keyword .ifWord => branch inner
  | .keyword .whileWord => whileLoop inner
  | .keyword .forWord => forLoop inner
  | .keyword .functionWord => function inner
  | .keyword .returnWord => giveBack
  | .symbol .openBrace => block inner
  | .keyword .breakWord =>
    advance
    endStatement
    return .breakLoop
  | .keyword .continueWord =>
    advance
    endStatement
    return .continueLoop
  | .symbol .semicolon =>
    advance
    return .empty
  | .name spelling =>
    if startsCommand (← get).following then command spelling else expressionStatement
  | _ => expressionStatement

/-! ## Nesting -/

/-- Parsers for statements that are nested to a given depth. -/
def statementUpTo : Nat → Parser Stmt
  | 0 => refuse
  | depth + 1 => statementAround (statementUpTo depth)

/-- A statement.  Each level of nesting passes at least one character, so the
characters that are left bound the depth. -/
def statement : Parser Stmt := do
  statementUpTo ((← get).remaining + 1)

/-- The statements of a whole script.  A closing brace that closes nothing is
reported and skipped. -/
def script : Parser Script :=
  loop
    (fun read => do
      match ← current with
      | .endOfInput => return none
      | .symbol .closeBrace =>
        report (.invalid (← get).line .strayBrace)
        advance
        return some read
      | _ => recovering statement read)
    []

end EventScript.Parser

namespace EventScript

/-- A script that was read, and what was found wrong with its text. -/
structure Parsed where
  script : Script
  findings : List Finding

/-- Read a script.  Reading never fails as a whole. -/
def Script.parse (source : String) : Parsed :=
  let (outcome, stream) := Parser.script.runOn (.ofText source.toList)
  match outcome with
  | .ok script => ⟨script, stream.findings⟩
  | .error error => ⟨[], (stream.report error.finding).findings⟩

end EventScript
