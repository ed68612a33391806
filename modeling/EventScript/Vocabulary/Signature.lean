/-!
# Signatures

For each command and function of the script language, how its arguments are
read: as an expression, or as unquoted text up to the next separator.
-/

namespace EventScript

/-- How one argument is read. -/
inductive ArgumentKind where
  | expression
  | rawText
  deriving DecidableEq, Repr

/-- The arguments of a known function.  Positions behind the listed ones are
read as expressions. -/
structure Signature where
  name : String
  arguments : List ArgumentKind
  deriving DecidableEq, Repr

namespace Signature

open ArgumentKind

/-- Commands that change how the script object looks and behaves. -/
def appearance : List Signature :=
  [⟨"setimg", [rawText]⟩,
    ⟨"setgif", [rawText]⟩,
    ⟨"setimgpart", [rawText, expression, expression, expression, expression]⟩,
    ⟨"setcharprop", [rawText, rawText]⟩,
    ⟨"setplayerprop", [rawText, rawText]⟩,
    ⟨"setcharani", [rawText, rawText]⟩,
    ⟨"setani", [rawText, rawText]⟩,
    ⟨"setshape", []⟩,
    ⟨"setcoloreffect", []⟩,
    ⟨"setzoomeffect", []⟩,
    ⟨"sethead", [rawText]⟩,
    ⟨"setbody", [rawText]⟩,
    ⟨"setsword", [rawText, expression]⟩,
    ⟨"setshield", [rawText, expression]⟩,
    ⟨"show", []⟩,
    ⟨"hide", []⟩,
    ⟨"destroy", []⟩,
    ⟨"dontblock", []⟩,
    ⟨"blockagain", []⟩,
    ⟨"drawoverplayer", []⟩,
    ⟨"drawunderplayer", []⟩,
    ⟨"canbecarried", []⟩,
    ⟨"canbepushed", []⟩,
    ⟨"canbepulled", []⟩,
    ⟨"timereverywhere", []⟩]

/-- Messages, sound and pictures. -/
def messages : List Signature :=
  [⟨"message", [rawText]⟩,
    ⟨"say", []⟩,
    ⟨"say2", [rawText]⟩,
    ⟨"play", [rawText]⟩,
    ⟨"play2", [rawText, expression, expression, expression]⟩,
    ⟨"playlooped", [rawText]⟩,
    ⟨"stopsound", [rawText]⟩,
    ⟨"sendtonc", [rawText]⟩,
    ⟨"sendtorc", [rawText]⟩,
    ⟨"savelog", [rawText]⟩,
    ⟨"openurl", [rawText]⟩,
    ⟨"showimg", [expression, rawText, expression, expression]⟩,
    ⟨"hideimg", []⟩,
    ⟨"showtext", [expression, expression, expression, rawText, rawText, rawText]⟩]

/-- Flags and strings. -/
def strings : List Signature :=
  [⟨"set", [rawText]⟩,
    ⟨"unset", [rawText]⟩,
    ⟨"setstring", [rawText, rawText]⟩,
    ⟨"addstring", [rawText, rawText]⟩,
    ⟨"deletestring", [rawText, expression]⟩,
    ⟨"insertstring", [rawText, expression, rawText]⟩,
    ⟨"replacestring", [rawText, expression, rawText]⟩,
    ⟨"removestring", [rawText, rawText]⟩,
    ⟨"setarray", [rawText, expression]⟩,
    ⟨"tokenize", [rawText]⟩,
    ⟨"tokenize2", [rawText, rawText]⟩,
    ⟨"strlen", []⟩,
    ⟨"strequals", []⟩,
    ⟨"startswith", []⟩,
    ⟨"substring", []⟩,
    ⟨"playersays", [rawText]⟩]

/-- Placing things in the world. -/
def placement : List Signature :=
  [⟨"putnpc", [rawText, rawText, expression, expression]⟩,
    ⟨"putnpc2", [expression, expression, rawText]⟩,
    ⟨"putbomb", []⟩,
    ⟨"putexplosion", []⟩,
    ⟨"putleaps", []⟩,
    ⟨"putcomp", []⟩,
    ⟨"putcomp2", []⟩,
    ⟨"lay", [rawText]⟩,
    ⟨"lay2", [rawText, expression, expression]⟩,
    ⟨"triggeraction", [expression, expression, rawText, rawText]⟩,
    ⟨"testnpc", []⟩,
    ⟨"onwall", []⟩,
    ⟨"updateboard", []⟩,
    ⟨"setfocus", []⟩,
    ⟨"move", []⟩,
    ⟨"shoot", [expression, expression, expression, expression, expression, expression, rawText, rawText]⟩,
    ⟨"callnpc", [expression, rawText]⟩,
    ⟨"callweapon", [expression, rawText]⟩]

/-- Commands on players. -/
def player : List Signature :=
  [⟨"hurt", []⟩,
    ⟨"setlevel", [rawText]⟩,
    ⟨"setlevel2", [rawText, expression, expression]⟩,
    ⟨"serverwarp", [rawText]⟩,
    ⟨"addweapon", [rawText]⟩,
    ⟨"removeweapon", [rawText]⟩,
    ⟨"hasweapon", [rawText]⟩,
    ⟨"toweapons", [rawText]⟩,
    ⟨"join", [rawText]⟩,
    ⟨"carryobject", [rawText]⟩,
    ⟨"throwcarry", []⟩,
    ⟨"freezeplayer", []⟩,
    ⟨"disableweapons", []⟩,
    ⟨"enableweapons", []⟩,
    ⟨"disabledefmovement", []⟩,
    ⟨"enabledefmovement", []⟩,
    ⟨"keydown", []⟩,
    ⟨"sleep", []⟩]

/-- Mathematics. -/
def mathematics : List Signature :=
  [⟨"abs", []⟩,
    ⟨"sin", []⟩,
    ⟨"cos", []⟩,
    ⟨"arctan", []⟩,
    ⟨"log", []⟩,
    ⟨"exp", []⟩,
    ⟨"int", []⟩,
    ⟨"min", []⟩,
    ⟨"max", []⟩,
    ⟨"random", []⟩,
    ⟨"getangle", []⟩,
    ⟨"getdir", []⟩,
    ⟨"vecx", []⟩,
    ⟨"vecy", []⟩]

/-- Every known function. -/
def table : List Signature :=
  appearance ++ messages ++ strings ++ placement ++ player ++ mathematics

/-- The signature of a function. -/
def find? (name : String) : Option Signature :=
  table.find? fun signature => signature.name == name

/-- Whether an argument of a function, counted from zero, is read as unquoted
text. -/
def readsRaw (name : String) (position : Nat) : Bool :=
  match find? name with
  | some signature => signature.arguments[position]? == some rawText
  | none => false

end Signature

end EventScript
