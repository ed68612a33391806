/-!
# Tokens

The words of the script language: numbers, quoted texts, names, nine keywords,
and the operator and punctuation symbols.  A number keeps its spelling and a
quoted text its value with the escapes resolved.
-/

namespace EventScript

/-- The reserved words. -/
inductive Keyword where
  | ifWord
  | elseWord
  | whileWord
  | forWord
  | functionWord
  | returnWord
  | breakWord
  | continueWord
  | inWord
  deriving DecidableEq, Repr

/-- The operators and punctuation marks. -/
inductive Symbol where
  | plus
  | minus
  | star
  | slash
  | percent
  | caret
  | equal
  | notEqual
  | less
  | greater
  | lessEqual
  | greaterEqual
  | and
  | or
  | not
  | assign
  | plusEqual
  | minusEqual
  | starEqual
  | slashEqual
  | increment
  | decrement
  | openParen
  | closeParen
  | openBrace
  | closeBrace
  | openBracket
  | closeBracket
  | semicolon
  | comma
  | dot
  | colon
  | question
  | hash
  deriving DecidableEq, Repr

/-- One token of a script. -/
inductive Token where
  /-- A number, as it is spelled. -/
  | number (spelling : String)
  /-- A quoted text, with its escapes resolved. -/
  | text (value : String)
  /-- A name that is no keyword. -/
  | name (spelling : String)
  | keyword (word : Keyword)
  | symbol (mark : Symbol)
  /-- What is found after the last token. -/
  | endOfInput
  deriving DecidableEq, Repr

instance : Inhabited Token :=
  ⟨.endOfInput⟩

namespace Keyword

/-- How a keyword is spelled. -/
def spelling : Keyword → String
  | ifWord => "if"
  | elseWord => "else"
  | whileWord => "while"
  | forWord => "for"
  | functionWord => "function"
  | returnWord => "return"
  | breakWord => "break"
  | continueWord => "continue"
  | inWord => "in"

/-- Every keyword. -/
def all : List Keyword :=
  [ifWord, elseWord, whileWord, forWord, functionWord, returnWord, breakWord, continueWord,
    inWord]

/-- The keyword with a given spelling. -/
def ofSpelling? (word : String) : Option Keyword :=
  all.find? fun keyword => keyword.spelling == word

/-- What messages call a keyword. -/
def label : Keyword → String
  | ifWord => "If"
  | elseWord => "Else"
  | whileWord => "While"
  | forWord => "For"
  | functionWord => "Function"
  | returnWord => "Return"
  | breakWord => "Break"
  | continueWord => "Continue"
  | inWord => "In"

end Keyword

namespace Symbol

/-- The symbol spelled by two characters.  A comparison may be written with
either character first. -/
def ofPair? : Char → Char → Option Symbol
  | '+', '=' => some plusEqual
  | '+', '+' => some increment
  | '-', '=' => some minusEqual
  | '-', '-' => some decrement
  | '*', '=' => some starEqual
  | '/', '=' => some slashEqual
  | '=', '=' => some equal
  | '=', '>' => some greaterEqual
  | '=', '<' => some lessEqual
  | '!', '=' => some notEqual
  | '<', '=' => some lessEqual
  | '>', '=' => some greaterEqual
  | '&', '&' => some and
  | '|', '|' => some or
  | _, _ => none

/-- The symbol spelled by one character.  The two logical operators need not
be doubled. -/
def ofChar? : Char → Option Symbol
  | '+' => some plus
  | '-' => some minus
  | '*' => some star
  | '/' => some slash
  | '%' => some percent
  | '^' => some caret
  | '=' => some assign
  | '!' => some not
  | '<' => some less
  | '>' => some greater
  | '&' => some and
  | '|' => some or
  | '(' => some openParen
  | ')' => some closeParen
  | '{' => some openBrace
  | '}' => some closeBrace
  | '[' => some openBracket
  | ']' => some closeBracket
  | ';' => some semicolon
  | ',' => some comma
  | '.' => some dot
  | ':' => some colon
  | '?' => some question
  | '#' => some hash
  | _ => none

/-- What messages call a symbol. -/
def label : Symbol → String
  | plus => "Plus"
  | minus => "Minus"
  | star => "Star"
  | slash => "Slash"
  | percent => "Percent"
  | caret => "Caret"
  | equal => "Equal"
  | notEqual => "NotEqual"
  | less => "Less"
  | greater => "Greater"
  | lessEqual => "LessEqual"
  | greaterEqual => "GreaterEqual"
  | and => "And"
  | or => "Or"
  | not => "Not"
  | assign => "Assign"
  | plusEqual => "PlusEqual"
  | minusEqual => "MinusEqual"
  | starEqual => "StarEqual"
  | slashEqual => "SlashEqual"
  | increment => "Increment"
  | decrement => "Decrement"
  | openParen => "LParen"
  | closeParen => "RParen"
  | openBrace => "LBrace"
  | closeBrace => "RBrace"
  | openBracket => "LBracket"
  | closeBracket => "RBracket"
  | semicolon => "Semicolon"
  | comma => "Comma"
  | dot => "Dot"
  | colon => "Colon"
  | question => "Question"
  | hash => "Hash"

end Symbol

namespace Token

/-- The token of a complete word: a keyword if it is spelled like one,
otherwise a name. -/
def ofWord (word : String) : Token :=
  match Keyword.ofSpelling? word with
  | some found => keyword found
  | none => name word

/-- Whether a token is a quoted text. -/
def isText : Token → Bool
  | text _ => true
  | _ => false

end Token

end EventScript
