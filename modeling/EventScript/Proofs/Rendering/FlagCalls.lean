import EventScript.Proofs.Outline.Routes
import EventScript.Proofs.Rendering.Nesting
import EventScript.Proofs.Rendering.Statements

/-!
# Which code calls the dispatcher

Generation marks that the dispatcher is called where it writes the code for
setting a flag.  The mark is made for a statement exactly if code for a spot
that sets a flag is generated somewhere in it, at any depth, also inside
property strings.
-/

namespace EventScript

/-- Whether what is generated calls the dispatcher. -/
def Emission.CallsDispatcher {α : Type} (emission : Emission α) : Prop :=
  .dispatcher ∈ emission.effects

namespace Spot

/-- The code for a spot calls the dispatcher to set a flag, or where the code
for a part does. -/
theorem callsDispatcher_code {site : Site} {spot : Spot} :
    (spot.code site).CallsDispatcher ↔
      spot.SetsFlag ∨ ∃ part ∈ spot.parts, (part.code site).CallsDispatcher := by
  have notable (spot : Spot) : (spot.code site).CallsDispatcher ↔
      .dispatcher ∈ (spot.code site).notable := by
    simp [Emission.CallsDispatcher, Emission.notable, Effect.isNotable]
  have inParts := @mem_notable_code site spot .dispatcher (by simp)
  simpa only [notable, true_and] using inParts

/-- The code for a spot calls the dispatcher exactly if it is generated, at any
depth, for a spot that sets a flag. -/
theorem callsDispatcher_code_iff {site : Site} {spot : Spot} :
    (spot.code site).CallsDispatcher ↔ ∃ reached, spot.Reaches reached ∧ reached.SetsFlag := by
  constructor
  · intro calls
    induction spot using partInduction with
    | step spot ih =>
      rcases callsDispatcher_code.mp calls with sets | ⟨part, member, inPart⟩
      · exact ⟨spot, .refl, sets⟩
      · obtain ⟨reached, path, sets⟩ := ih part member inPart
        exact ⟨reached, .head member path, sets⟩
  · rintro ⟨reached, path, sets⟩
    induction path using Relation.ReflTransGen.head_induction_on with
    | refl => exact callsDispatcher_code.mpr (.inl sets)
    | head member _ ih =>
      exact callsDispatcher_code.mpr (.inr ⟨_, member, ih⟩)

/-- A flag that stands alone sets none. -/
theorem not_callsDispatcher_of_ungrouped {site : Site} {context : ExprContext} {expr : Expr}
    {spelling : String} (bare : expr.ungrouped = .name spelling) :
    ¬(code site ⟨context, .free, expr⟩).CallsDispatcher := by
  fun_induction Expr.ungrouped expr with
  | case1 inner ih =>
    rw [callsDispatcher_code]
    simpa [SetsFlag, parts, operands, embedded] using ih bare
  | case2 =>
    subst bare
    rw [callsDispatcher_code]
    simp [SetsFlag, parts, operands, embedded]

end Spot

/-! ## Statements -/

/-- A flag is set somewhere in a statement, at any depth. -/
def Stmt.SetsFlag (statement : Stmt) : Prop :=
  ∃ spot ∈ statement.spots, ∃ reached, spot.Reaches reached ∧ reached.SetsFlag

/-- The code for a statement calls the dispatcher exactly if the statement sets
a flag. -/
theorem callsDispatcher_renderStmt (site : Site) (form : StmtForm) (depth : Nat)
    (statement : Stmt) :
    (renderStmt site form depth statement).CallsDispatcher ↔ statement.SetsFlag := by
  rw [Emission.CallsDispatcher, mem_effects_renderStmt]
  exact exists_congr fun _ => and_congr_right fun _ => Spot.callsDispatcher_code_iff

/-- A branch on a flag alone sets flags in its body only. -/
theorem Stmt.setsFlag_branch_of_isFlagOf {condition : Expr} {action : Action}
    (isFlag : condition.IsFlagOf action) (body : Stmt) :
    (Stmt.branch condition body none).SetsFlag ↔ body.SetsFlag := by
  obtain ⟨spelling, bare, _⟩ := isFlag
  have quiet : ¬∃ reached, (Spot.condition condition).Reaches reached ∧ reached.SetsFlag :=
    mt Spot.callsDispatcher_code_iff.mpr
      (@Spot.not_callsDispatcher_of_ungrouped ⟨{}, .global⟩ _ _ _ bare)
  simp only [SetsFlag, spots, List.mem_cons, or_and_right, exists_or, exists_eq_left, quiet,
    false_or]

end EventScript
