import EventScript.Outline
import EventScript.Stmt.Parse

/-!
# Conversions

From a script to generated code and the remarks on it.
-/

namespace EventScript

/-- Generated code and the remarks on the script. -/
structure Conversion where
  code : String
  diagnostics : List Diagnostic

/-- The conversion of an outline. -/
def Outline.conversion (outline : Outline) : Conversion :=
  ⟨outline.text, outline.ledger.diagnostics⟩

/-- Convert a script. -/
def Script.convert (options : Options) (script : Script) : Conversion :=
  (Outline.addScript { options := options } script).conversion

/-- Read and convert a script.  The remarks on reading come first. -/
def convert (options : Options) (source : String) : Conversion :=
  let parsed := Script.parse source
  let conversion := Script.convert options parsed.script
  { conversion with
    diagnostics := parsed.findings.map Finding.diagnostic ++ conversion.diagnostics }

end EventScript
