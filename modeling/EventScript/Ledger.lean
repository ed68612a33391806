import EventScript.Emission

/-!
# Ledgers

A ledger adds up the effects of emissions: the helpers that were requested,
each once and in the order of the first request, the remarks in order, and
whether the dispatcher is called.
-/

namespace EventScript

/-- The effects of generation so far. -/
structure Ledger where
  helpers : List String := []
  diagnostics : List Diagnostic := []
  dispatcherCalled : Bool := false
  deriving DecidableEq, Repr

namespace Ledger

/-- Add a helper unless it was requested before. -/
def requestHelper (ledger : Ledger) (name : String) : Ledger :=
  if ledger.helpers.contains name then ledger
  else { ledger with helpers := ledger.helpers ++ [name] }

/-- Add one effect. -/
def record (ledger : Ledger) : Effect → Ledger
  | .helper name => ledger.requestHelper name
  | .report line problem =>
    { ledger with diagnostics := ledger.diagnostics ++ [⟨line, problem.message⟩] }
  | .dispatcher => { ledger with dispatcherCalled := true }

/-- Add effects in order. -/
def recordAll (ledger : Ledger) (effects : List Effect) : Ledger :=
  effects.foldl record ledger

/-- Take out the remarks. -/
def takeDiagnostics (ledger : Ledger) : List Diagnostic × Ledger :=
  (ledger.diagnostics, { ledger with diagnostics := [] })

@[simp]
theorem recordAll_nil (ledger : Ledger) : ledger.recordAll [] = ledger :=
  rfl

theorem recordAll_append (ledger : Ledger) (first second : List Effect) :
    ledger.recordAll (first ++ second) = (ledger.recordAll first).recordAll second := by
  simp [recordAll]

end Ledger

end EventScript
