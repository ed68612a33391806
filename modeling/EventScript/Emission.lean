import EventScript.Fault

/-!
# Emissions

Generating code yields a value, most often text, and effects: helpers that the
text calls, remarks for the user, and the mark that the dispatcher is called.
An `Emission` is a value with its effects in order.  Generation reads nothing
back, so the value never depends on earlier effects.
-/

namespace EventScript

/-- What generation can remark. -/
inductive Problem where
  /-- An expression inside a property code cannot be read. -/
  | embedded (error : ScriptError)
  /-- A substring code with the wrong number of arguments. -/
  | sliceArguments (found : Nat)
  /-- A remark of the caller. -/
  | remark (message : String)
  deriving DecidableEq, Repr

/-- The wording of a remark. -/
def Problem.message : Problem → String
  | .embedded error => "in property code: " ++ error.message
  | .sliceArguments found => "#e expects 3 arguments, found " ++ toString found
  | .remark message => message

/-- What generation asks for besides its value. -/
inductive Effect where
  /-- The text calls a helper. -/
  | helper (name : String)
  /-- Something to tell the user. -/
  | report (line : Nat) (problem : Problem)
  /-- The text calls the dispatcher. -/
  | dispatcher
  deriving DecidableEq, Repr

/-- A value with the effects of generating it. -/
structure Emission (α : Type) where
  value : α
  effects : List Effect := []
  deriving DecidableEq, Repr

namespace Emission

/-- A value without effects. -/
def silent {α : Type} (value : α) : Emission α :=
  ⟨value, []⟩

/-- Go on with the value, behind the effects so far. -/
def andThen {α β : Type} (first : Emission α) (next : α → Emission β) : Emission β :=
  let second := next first.value
  ⟨second.value, first.effects ++ second.effects⟩

instance : Monad Emission where
  pure := silent
  bind := andThen

@[simp]
theorem value_pure {α : Type} (value : α) : (pure value : Emission α).value = value :=
  rfl

@[simp]
theorem effects_pure {α : Type} (value : α) : (pure value : Emission α).effects = [] :=
  rfl

@[simp]
theorem value_bind {α β : Type} (first : Emission α) (next : α → Emission β) :
    (first >>= next).value = (next first.value).value :=
  rfl

@[simp]
theorem effects_bind {α β : Type} (first : Emission α) (next : α → Emission β) :
    (first >>= next).effects = first.effects ++ (next first.value).effects :=
  rfl

@[simp]
theorem value_map {α β : Type} (f : α → β) (emission : Emission α) :
    (f <$> emission).value = f emission.value :=
  rfl

@[simp]
theorem effects_map {α β : Type} (f : α → β) (emission : Emission α) :
    (f <$> emission).effects = emission.effects := by
  change emission.effects ++ [] = emission.effects
  simp

/-- The effect of calling a helper. -/
def requestHelper (name : String) : Emission Unit :=
  ⟨(), [.helper name]⟩

/-- The effect of calling several helpers. -/
def requestHelpers (names : List String) : Emission Unit :=
  ⟨(), names.map .helper⟩

/-- The effect of a remark. -/
def report (line : Nat) (problem : Problem) : Emission Unit :=
  ⟨(), [.report line problem]⟩

/-- The effect of calling the dispatcher. -/
def markDispatcher : Emission Unit :=
  ⟨(), [.dispatcher]⟩

/-- Run emissions in order. -/
def sequence {α : Type} : List (Emission α) → Emission (List α)
  | [] => silent []
  | first :: rest => do
    let value ← first
    return value :: (← sequence rest)

@[simp]
theorem value_sequence {α : Type} (emissions : List (Emission α)) :
    (sequence emissions).value = emissions.map value := by
  induction emissions with
  | nil => rfl
  | cons first rest ih => simp [sequence, ih]

@[simp]
theorem effects_sequence {α : Type} (emissions : List (Emission α)) :
    (sequence emissions).effects = emissions.flatMap effects := by
  induction emissions with
  | nil => rfl
  | cons first rest ih => simp [sequence, ih]

end Emission

instance : LawfulMonad Emission :=
  LawfulMonad.mk' Emission
    (fun emission => by
      change Emission.mk emission.value (emission.effects ++ []) = emission
      simp)
    (fun _ _ => rfl)
    (fun first second third => by
      change Emission.mk _ _ = Emission.mk _ _
      simp [List.append_assoc])

end EventScript
