import EventScript.Text.Quoted
import EventScript.Token

/-!
# What can be wrong with a script

A `Fault` is the cause of a complaint about a script text, without its place.
A `Finding` is a fault on a line; reading a script collects findings and goes
on.  A `ScriptError` ends the reading of one construct.  The wording of all
three stands here and nowhere else.
-/

namespace EventScript

/-- The constructs that have to be closed. -/
inductive Construct where
  | text
  | comment
  | block
  deriving DecidableEq, Repr

namespace Construct

/-- What messages call a construct. -/
def label : Construct → String
  | text => "string"
  | comment => "comment"
  | block => "block"

end Construct

/-- What a grammar rule requires at the current token. -/
inductive Expectation where
  | openAfter (word : Keyword)
  | closeAfterCondition
  | semicolonAfterInitializer
  | semicolonAfterCondition
  | closeAfterClauses
  | functionName
  | closeAfterFunctionName
  | functionBody
  | colonInConditional
  | commaInRange
  | closeRange
  | closeIndex
  | memberName
  | closeGroup
  | closeList
  | closeArguments
  deriving DecidableEq, Repr

namespace Expectation

/-- The complaint when the requirement is not met. -/
def message : Expectation → String
  | openAfter word => "Expected '(' after '" ++ word.spelling ++ "'"
  | closeAfterCondition => "Expected ')' after condition"
  | semicolonAfterInitializer => "Expected ';' after for initializer"
  | semicolonAfterCondition => "Expected ';' after for condition"
  | closeAfterClauses => "Expected ')' after for clauses"
  | functionName => "Expected function name"
  | closeAfterFunctionName => "Expected ')' after function name"
  | functionBody => "Expected '\x7b' before function body"
  | colonInConditional => "Expected ':' in conditional expression"
  | commaInRange => "Expected ',' in range"
  | closeRange => "Expected '>' after range"
  | closeIndex => "Expected ']' after index"
  | memberName => "Expected member name after '.'"
  | closeGroup => "Expected ')' after expression"
  | closeList => "Expected '\x7d' after list"
  | closeArguments => "Expected ')' after arguments"

end Expectation

namespace Token

/-- A token as messages show it. -/
def shown : Token → String
  | number spelling => "Number(" ++ Text.shown spelling ++ ")"
  | text value => "String(" ++ Text.shown value ++ ")"
  | name spelling => "Identifier(" ++ Text.shown spelling ++ ")"
  | keyword word => word.label
  | symbol mark => mark.label
  | endOfInput => "EOF"

end Token

/-- The cause of a complaint about a script. -/
inductive Fault where
  /-- A character that begins no token. -/
  | unexpectedCharacter (character : Char)
  /-- A construct that is still open at the end of the text. -/
  | unterminated (construct : Construct)
  /-- A grammar rule that is not followed. -/
  | missing (expectation : Expectation)
  /-- A statement that goes on where it should end. -/
  | missingSemicolon (found : Token)
  /-- A token that begins no operand. -/
  | notAnOperand (found : Token)
  /-- A token behind a complete expression. -/
  | trailing (found : Token)
  /-- A closing brace that closes nothing. -/
  | strayBrace
  deriving DecidableEq, Repr

namespace Fault

/-- The wording of a fault. -/
def message : Fault → String
  | unexpectedCharacter character => "Unexpected character: " ++ character.toString
  | unterminated construct => "unterminated " ++ construct.label
  | missing expectation => expectation.message
  | missingSemicolon found => "Expected ';', found " ++ found.shown
  | notAnOperand found => "Unexpected " ++ found.shown ++ " in expression"
  | trailing found => "Unexpected " ++ found.shown ++ " after expression"
  | strayBrace => "Unexpected '\x7d'"

end Fault

/-- A fault and the line it was found on. -/
structure Finding where
  line : Nat
  fault : Fault
  deriving DecidableEq, Repr

/-- The reason why a construct could not be read. -/
inductive ScriptError where
  /-- The text on a line does not follow the grammar. -/
  | invalid (line : Nat) (fault : Fault)
  /-- A construct that begins on a line is never closed. -/
  | unterminated (line : Nat) (construct : Construct)
  deriving DecidableEq, Repr

namespace ScriptError

/-- The line an error is reported on. -/
def line : ScriptError → Nat
  | invalid line _ => line
  | unterminated line _ => line

/-- The wording of an error, with its line. -/
def message : ScriptError → String
  | invalid line fault => "Parse error at line " ++ toString line ++ ": " ++ fault.message
  | unterminated line construct =>
    "Unterminated " ++ construct.label ++ " starting at line " ++ toString line

/-- The wording of an error where errors of several origins meet. -/
def wrapped (error : ScriptError) : String :=
  "Script error: " ++ error.message

/-- An error as a finding, for readers that go on after it. -/
def finding : ScriptError → Finding
  | invalid line fault => ⟨line, fault⟩
  | unterminated line construct => ⟨line, .unterminated construct⟩

@[simp]
theorem finding_line (error : ScriptError) : error.finding.line = error.line := by
  cases error <;> rfl

end ScriptError

/-- A finding as the error of a reader that stops at it. -/
def Finding.error (finding : Finding) : ScriptError :=
  .invalid finding.line finding.fault

@[simp]
theorem Finding.error_finding (finding : Finding) : finding.error.finding = finding :=
  rfl

/-- A remark on a conversion, as its user reads it. -/
structure Diagnostic where
  line : Nat
  message : String
  deriving DecidableEq, Repr

namespace Diagnostic

/-- A diagnostic on one line. -/
def text (diagnostic : Diagnostic) : String :=
  "line " ++ toString diagnostic.line ++ ": " ++ diagnostic.message

end Diagnostic

/-- The diagnostic for a finding. -/
def Finding.diagnostic (finding : Finding) : Diagnostic :=
  ⟨finding.line, finding.fault.message⟩

end EventScript
