import EventScript.Conversion

/-!
# Bundles

A bundle is one text with the code for the server, the code for the client if
the script has a part for it, and the script itself inside a comment, from
which it can be recovered.
-/

namespace EventScript.Bundle

/-- The first line of a bundle. -/
def serverHeader : String :=
  "//sgscript\n"

/-- The line in front of the code for the client. -/
def clientHeader : String :=
  "//#clientside\n"

/-- What opens the comment that holds the script. -/
def sourceOpening : String :=
  "/*\n//gs1script\n"

/-- What closes the comment that holds the script. -/
def sourceClosing : String :=
  "*/"

/-- The marks that begin the part of a script for the client, in any case of
letters. -/
def clientMarks : List String :=
  ["//#clientside", "//clientside"]

/-- Whether a text begins with a lower-case mark, in any case of letters. -/
def beginsWith (mark text : List Char) : Bool :=
  (text.take mark.length).map Char.toLower == mark

/-- The mark at the front of a text. -/
def markHere? (text : List Char) : Option String :=
  clientMarks.find? fun mark => beginsWith mark.toList text

/-- Split a script at the first mark: the part for the server and the part for
the client. -/
def splitSource : List Char → Option (List Char × List Char)
  | [] => none
  | character :: rest =>
    match markHere? (character :: rest) with
    | some mark => some ([], (character :: rest).drop mark.toList.length)
    | none =>
      (splitSource rest).map fun (server, client) => (character :: server, client)

/-- A section of a bundle, with the end of its last line. -/
def terminated (code : String) : String :=
  if code.isEmpty || Text.endsWith code '\n' then code else code ++ "\n"

/-- The code for one side. -/
def side (options : Options) (clientSide : Bool) (source : String) : String :=
  terminated (convert { options with clientSide := clientSide } source).code

/-- The generated code of a bundle. -/
def generated (options : Options) (source : String) : String :=
  match splitSource source.toList with
  | some (server, client) =>
    side options false (String.ofList server) ++ clientHeader ++
      side options true (String.ofList client)
  | none => side options false source

/-- Convert a script to a bundle. -/
def ofSource (options : Options) (source : String) : String :=
  serverHeader ++ generated options source ++ sourceOpening ++ source ++ sourceClosing

/-- Read up to the mark that closes a comment, with comments nested inside. -/
def readComment : (depth : Nat) → List Char → Option (List Char)
  | _, [] => none
  | depth, '/' :: '*' :: rest =>
    (readComment (depth + 1) rest).map fun content => '/' :: '*' :: content
  | depth, '*' :: '/' :: rest =>
    if depth == 0 then some []
    else (readComment (depth - 1) rest).map fun content => '*' :: '/' :: content
  | depth, character :: rest =>
    (readComment depth rest).map fun content => character :: content

/-- Recover the script of a bundle.  Without one the result is empty. -/
def recover (text : String) : String :=
  match Text.splitAt? sourceOpening.toList text.toList with
  | some (_, behind) => String.ofList ((readComment 0 behind).getD [])
  | none => ""

end EventScript.Bundle
