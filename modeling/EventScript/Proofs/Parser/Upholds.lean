import EventScript.Proofs.Parser.Run

/-!
# Invariants of the stream

`Upholds invariant parser property` says that a parser keeps an invariant of the
stream, whether it fails or not, and that every value it returns has a property.
An invariant that stepping and reading unquoted arguments keep is kept by every
rule; what is returned is built from the tokens seen and the arguments read.
-/

namespace EventScript.Parser

variable {α β : Type} {invariant : Stream → Prop}

/-- A parser keeps an invariant, and every value that it returns has a
property. -/
def Upholds (invariant : Stream → Prop) (parser : Parser α) (property : α → Prop) : Prop :=
  ∀ stream : Stream, invariant stream →
    invariant (parser.runOn stream).2 ∧
      ∀ value, (parser.runOn stream).1 = .ok value → property value

/-- What the single steps on a stream do to an invariant: they keep it, and the
tokens and unquoted arguments seen on the way have a property. -/
structure Steady (invariant : Stream → Prop) (token : Token → Prop) (raw : String → Prop) :
    Prop where
  current : ∀ stream, invariant stream → token stream.current
  advance : ∀ stream, invariant stream → invariant stream.advance
  takeRaw : ∀ stream, invariant stream →
    invariant stream.takeRaw.2 ∧ raw stream.takeRaw.1

namespace Upholds

variable {value : α}

theorem pure {property : α → Prop} (holds : property value) :
    Upholds invariant (Pure.pure value : Parser α) property := by
  intro stream kept
  refine ⟨kept, ?_⟩
  rintro _ ⟨rfl⟩
  exact holds

theorem bind {first : Parser α} {second : α → Parser β} {middle : α → Prop}
    {property : β → Prop} (upholdsFirst : Upholds invariant first middle)
    (upholdsSecond : ∀ value, middle value → Upholds invariant (second value) property) :
    Upholds invariant (first >>= second) property := by
  intro stream holds
  obtain ⟨kept, returned⟩ := upholdsFirst stream holds
  rw [runOn_bind]
  generalize first.runOn stream = outcome at kept returned ⊢
  rcases outcome with ⟨error | value, after⟩
  · exact ⟨kept, by rintro _ ⟨⟩⟩
  · exact upholdsSecond value (returned value rfl) after kept

theorem fail (fault : Fault) (property : α → Prop) :
    Upholds invariant (Parser.fail fault : Parser α) property := by
  intro stream kept
  exact ⟨kept, by rintro _ ⟨⟩⟩

theorem refuse (property : α → Prop) : Upholds invariant (Parser.refuse : Parser α) property := by
  intro stream kept
  exact ⟨kept, by rintro _ ⟨⟩⟩

theorem get_bind {second : Stream → Parser β} {property : β → Prop}
    (upholds : ∀ stream, Upholds invariant (second stream) property) :
    Upholds invariant (get >>= second) property := by
  intro stream holds
  rw [runOn_bind]
  exact upholds stream stream holds

/-! ## Steps -/

section Steps

variable {token : Token → Prop} {raw : String → Prop} (steady : Steady invariant token raw)

include steady

theorem advance : Upholds invariant Parser.advance fun _ => True := by
  intro stream holds
  exact ⟨steady.advance stream holds, fun _ _ => trivial⟩

theorem takeRaw : Upholds invariant Parser.takeRaw raw := by
  intro stream holds
  obtain ⟨kept, isRaw⟩ := steady.takeRaw stream holds
  refine ⟨kept, ?_⟩
  rintro _ ⟨rfl⟩
  exact isRaw

end Steps

/-! ## Loops -/

theorem repeatUpTo {step : α → Parser (Option α)} {property : α → Prop}
    (keeps : ∀ value, property value →
      Upholds invariant (step value) fun outcome => ∀ next ∈ outcome, property next) (bound : Nat)
    (initially : property value) :
    Upholds invariant (Parser.repeatUpTo step bound value) property := by
  induction bound generalizing value with
  | zero => exact pure initially
  | succ bound ih =>
    rw [Parser.repeatUpTo]
    refine bind (keeps value initially) ?_
    rintro (_ | next) kept
    · exact pure initially
    · exact ih (kept next rfl)

/-- What holds at the beginning of a loop and is kept by its step holds at its
end. -/
theorem loop {step : α → Parser (Option α)} {property : α → Prop} (keeps : ∀ value, property value →
      Upholds invariant (step value) fun outcome => ∀ next ∈ outcome, property next)
    (initially : property value) : Upholds invariant (Parser.loop step value) property := by
  rw [Parser.loop]
  refine bind (keeps value initially) ?_
  rintro (_ | next) kept
  · exact pure initially
  · exact get_bind fun _ => repeatUpTo keeps _ (kept next rfl)

end Upholds

end EventScript.Parser
