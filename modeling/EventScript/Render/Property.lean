import EventScript.Expr.Parse
import EventScript.Render.Expr

/-!
# Code for property strings

A text becomes a concatenation of literals and of the code for its property
codes.  A code may hold an expression, which is read and rendered in turn, and
an expression may hold texts again; since each of them is shorter than the text
around it, the length of a text bounds the depth.
-/

namespace EventScript

/-- The code for an expression inside a property code.  A text that cannot be
read is kept as it stands, with a remark. -/
def embeddedCode (render : Expr → Emission String) (source : String) : Emission String :=
  match Expr.parse source with
  | .ok expr => render expr
  | .error error => do
    Emission.report error.line (.embedded error)
    return source

/-- The object that the argument of a code addresses: the script object, the
player, a player by number, or one found out when the code runs. -/
def ownerCode (site : Site) (embedded : String → Emission String) (argument : Option String) :
    Emission String :=
  match argument.map Text.trim with
  | none => pure "this"
  | some "-1" => pure "this"
  | some "0" => pure "player"
  | some owner =>
    if owner.toList.all Char.isDigit then pure (site.options.players ++ "[" ++ owner ++ "]")
    else do
      Emission.requestHelper "_propOwner"
      return "this._propOwner(" ++ (← embedded owner) ++ ", player)"

/-- The code for a property code, or nothing if it is to be kept as it stands.
`embedded` renders an expression and `whole` a text. -/
def propertyCode (site : Site) (embedded whole : String → Emission String) (letter : Char)
    (slot argument : Option String) : Emission (Option String) :=
  match letter, argument with
  | 'v', some source => do return some ("(" ++ (← embedded source) ++ ")")
  | 's', some source => do return some ("(" ++ (← embedded source) ++ ")")
  | 't', some source => do return some ("this.tokens[" ++ (← embedded source) ++ "]")
  | 'e', some source =>
    match argumentParts source with
    | [start, length, content] => do
      let start ← embedded start
      let length ← embedded length
      let content ← whole content
      return some ("substring(" ++ content ++ ", " ++ start ++ ", " ++ length ++ ")")
    | parts => do
      Emission.report 0 (.sliceArguments parts.length)
      return none
  | 'w', _ =>
    match argument.map Text.trim with
    | none => pure (some "player.weapon.name")
    | some "-1" => pure (some "player.weapon.name")
    | some weapon => do return some ("player.weapons[" ++ (← embedded weapon) ++ "].name")
  | _, _ =>
    match slotProperty? letter slot with
    | some property => do
      return some ((← ownerCode site embedded argument) ++ "." ++ property)
    | none => pure none

/-- The literal for text that was collected, if there is any. -/
def literalPart (literal : String) : List String :=
  if literal.isEmpty then [] else [Text.quote literal]

/-- The operands of the concatenation for segments; `literal` is the literal
text in front of them. -/
def concatenation (code : Char → Option String → Option String → Emission (Option String)) :
    (literal : String) → List Segment → Emission (List String)
  | literal, [] => pure (literalPart literal)
  | literal, .text content :: rest => concatenation code (literal ++ content) rest
  | literal, .code letter slot argument :: rest => do
    match ← code letter slot argument with
    | some rendered => return literalPart literal ++ rendered :: (← concatenation code "" rest)
    | none =>
      concatenation code (literal ++ (Segment.code letter slot argument).source) rest

/-- Join the operands of a concatenation; without any it is the empty text. -/
def joinConcatenation (parts : List String) : String :=
  if parts.isEmpty then Text.quote "" else " $ ".intercalate parts

/-- The code for a text whose property codes are nested to a given depth. -/
def expandUpTo (site : Site) : Nat → String → Emission String
  | 0, content => pure (Text.quote content)
  | depth + 1, content => do
    let whole := expandUpTo site depth
    let embedded := embeddedCode (renderWith whole site {} .free)
    let parts ← concatenation (propertyCode site embedded whole) "" (segments content)
    return joinConcatenation parts

/-- The code for a text. -/
def expand (site : Site) (content : String) : Emission String :=
  expandUpTo site (content.length + 1) content

/-- The code for an expression. -/
def render (site : Site) (context : ExprContext) (expr : Expr) : Emission String :=
  renderWith (expand site) site context .free expr

/-- The arguments of a call with the code for them. -/
def renderArguments (site : Site) (context : ExprContext) (arguments : List Expr) :
    List Argument :=
  arguments.map fun argument => ⟨argument, render site context argument⟩

/-- The code for a call of a function. -/
def renderCall (site : Site) (context : ExprContext) (function : String)
    (arguments : List Expr) : Emission String :=
  site.callCode function (renderArguments site context.arguments arguments)

end EventScript
