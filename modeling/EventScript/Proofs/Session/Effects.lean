import EventScript.Proofs.Rendering.Nesting
import EventScript.Proofs.Rendering.Statements
import EventScript.Session
import Mathlib.Data.List.Dedup

/-!
# The effects of generation

What generating code does to a session does not depend on what the session did
before: it yields a text and a ledger of its own, and the ledger of the session
is extended by that one.  Generation asks only for helpers that have a source.
-/

namespace EventScript

variable {α : Type}

/-! ## Adding up effects -/

/-- Dropping repetitions commutes with dropping members. -/
theorem eraseDups_filter [BEq α] [LawfulBEq α] (keep : α → Bool) :
    ∀ items : List α, (items.filter keep).eraseDups = items.eraseDups.filter keep
  | [] => rfl
  | first :: rest => by
    have others := eraseDups_filter keep (rest.filter fun item => !item == first)
    by_cases kept : keep first
    · rw [List.filter_cons_of_pos kept, List.eraseDups_cons, List.eraseDups_cons,
        List.filter_cons_of_pos kept, ← others, List.filter_filter, List.filter_filter]
      simp only [Bool.and_comm]
    · rw [List.filter_cons_of_neg kept, List.eraseDups_cons,
        List.filter_cons_of_neg kept, ← others, List.filter_filter]
      congr 1
      refine List.filter_congr fun item _ => ?_
      by_cases same : item = first
      · subst same
        simp [kept]
      · simp [same]
termination_by items => items.length
decreasing_by exact Nat.lt_succ_of_le (List.length_filter_le _ _)

/-- Nothing is left twice. -/
theorem nodup_eraseDups [BEq α] [LawfulBEq α] (items : List α) : items.eraseDups.Nodup := by
  induction items with
  | nil => exact List.nodup_nil
  | cons first rest ih =>
    rw [List.eraseDups_cons, eraseDups_filter, List.nodup_cons]
    exact ⟨by simp, ih.filter _⟩

namespace Ledger

/-- The helper that an effect requests. -/
def helper? : Effect → Option String
  | .helper name => some name
  | _ => none

/-- The remark that an effect makes. -/
def remark? : Effect → Option Diagnostic
  | .report line problem => some ⟨line, problem.message⟩
  | _ => none

/-- A ledger with the effects of another one behind its own.  A helper that was
requested before is not added again. -/
def extend (ledger added : Ledger) : Ledger :=
  { helpers := ledger.helpers ++ added.helpers.removeAll ledger.helpers
    diagnostics := ledger.diagnostics ++ added.diagnostics
    dispatcherCalled := ledger.dispatcherCalled || added.dispatcherCalled }

/-- The ledger of effects that nothing precedes. -/
def ofEffects (effects : List Effect) : Ledger :=
  { helpers := (effects.filterMap helper?).eraseDups
    diagnostics := effects.filterMap remark?
    dispatcherCalled := effects.contains .dispatcher }

/-- Requesting one more helper first. -/
private theorem append_removeAll_eraseDups_cons (known requested : List String) (name : String) :
    known ++ (name :: requested).eraseDups.removeAll known =
      if name ∈ known then known ++ requested.eraseDups.removeAll known
      else known ++ [name] ++ requested.eraseDups.removeAll (known ++ [name]) := by
  simp only [List.eraseDups_cons, eraseDups_filter, List.removeAll]
  split
  · next old =>
    rw [List.filter_cons_of_neg (by simpa using old), List.filter_filter]
    congr 1
    refine List.filter_congr fun item _ => ?_
    by_cases same : item = name
    · simp [same, old]
    · simp [same]
  · next new =>
    rw [List.filter_cons_of_pos (by simpa using new), List.filter_filter, List.append_assoc,
      List.singleton_append]
    congr 2
    refine List.filter_congr fun item _ => ?_
    by_cases same : item = name <;> simp [same]

/-- Recording effects extends a ledger by the ledger of the effects alone. -/
theorem recordAll_eq_extend (ledger : Ledger) (effects : List Effect) :
    ledger.recordAll effects = ledger.extend (ofEffects effects) := by
  induction effects generalizing ledger with
  | nil => simp [extend, ofEffects, List.removeAll]
  | cons first rest ih =>
    rw [recordAll, List.foldl_cons, ← recordAll, ih]
    cases first with
    | helper name =>
      have added := append_removeAll_eraseDups_cons ledger.helpers (rest.filterMap helper?) name
      simp only [extend, ofEffects, List.filterMap_cons, helper?, remark?, record,
        requestHelper, added]
      by_cases old : name ∈ ledger.helpers <;> simp [old]
    | report line problem | dispatcher =>
      simp [extend, ofEffects, List.filterMap_cons, helper?, remark?, record]

end Ledger

/-! ## Emissions that request known helpers -/

/-- Whether a helper that an effect requests has a source. -/
def Effect.IsKnown : Effect → Prop
  | .helper name => (Helper.find? name).isSome
  | _ => True

/-- Every helper that an emission requests has a source. -/
def Emission.Known {α : Type} (emission : Emission α) : Prop :=
  ∀ effect ∈ emission.effects, effect.IsKnown

/-- A request for a helper without a source would be notable. -/
theorem Spot.helper_notMem_notable (site : Site) (spot : Spot) (name : String) :
    .helper name ∉ (spot.code site).notable := by
  induction spot using partInduction with
  | step spot ih =>
    intro member
    have inParts := @mem_notable_code site spot (.helper name) (by simp)
    rcases inParts.mp member with ⟨same, _⟩ | ⟨part, isPart, inPart⟩
    · cases same
    · exact ih part isPart inPart

theorem Spot.known_code (site : Site) (spot : Spot) : (spot.code site).Known := by
  intro effect member
  cases effect with
  | helper name =>
    by_contra unknown
    refine spot.helper_notMem_notable site name (List.mem_filter.mpr ⟨member, ?_⟩)
    simpa [Effect.isNotable, Effect.IsKnown] using unknown
  | report | dispatcher => trivial

/-- Every helper that an expression requests has a source. -/
theorem known_render (site : Site) (context : ExprContext) (expr : Expr) :
    (render site context expr).Known :=
  Spot.known_code site ⟨context, .free, expr⟩

/-- Every helper that a statement requests has a source. -/
theorem known_renderStmt (site : Site) (form : StmtForm) (depth : Nat) (statement : Stmt) :
    (renderStmt site form depth statement).Known := by
  intro effect member
  obtain ⟨spot, -, inSpot⟩ := (mem_effects_renderStmt site effect form depth statement).mp member
  exact spot.known_code site effect inSpot

/-! ## Sessions -/

/-- What generation adds to a ledger: helpers that have a source, each once. -/
structure Ledger.IsAddition (added : Ledger) : Prop where
  nodup : added.helpers.Nodup
  known : ∀ name ∈ added.helpers, (Helper.find? name).isSome

theorem Emission.Known.isAddition {emission : Emission α} (known : emission.Known) :
    (Ledger.ofEffects emission.effects).IsAddition where
  nodup := nodup_eraseDups _
  known name member := by
    obtain ⟨effect, isIn, requests⟩ := List.mem_filterMap.mp (List.mem_eraseDups.mp member)
    cases effect with
    | helper other =>
      obtain rfl := Option.some.inj requests
      exact known _ isIn
    | report | dispatcher => cases requests

end EventScript
