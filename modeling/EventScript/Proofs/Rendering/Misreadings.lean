import EventScript.Proofs.Rendering.Nesting
import Mathlib.Data.List.Flatten

/-!
# Expressions that cannot be read

A property code may hold an expression that cannot be read.  Generation keeps
it as it stands and reports it.  Every such expression in the texts of an
expression is listed here, at any depth, in the order in which it is written
there.  What generation reports is this list with some members left out: the
ones in arguments for which no code is generated.
-/

namespace EventScript

open scoped List

/-! ## Expressions that cannot be read -/

/-- The texts in an expression, from left to right. -/
def Expr.texts (expr : Expr) : List String :=
  expr.subterms.filterMap text?

namespace Embedding

/-- Why something inside a property code cannot be read, if it cannot. -/
def errors (embedding : Embedding) : List ScriptError :=
  match embedding.read with
  | .ok _ => []
  | .error error => [error]

/-- The texts in what is read inside a property code. -/
def texts (embedding : Embedding) : List String :=
  match embedding.read with
  | .ok expr => expr.texts
  | .error _ => []

/-- The texts in what is read inside a property string are shorter than the
property string. -/
theorem length_lt_of_mem_texts {content value : String} {embedding : Embedding}
    (inside : embedding ∈ embeddings content) (member : value ∈ embedding.texts) :
    value.length < content.length := by
  obtain ⟨segment, among, isEmbedding⟩ := List.mem_flatMap.mp inside
  unfold texts at member
  split at member
  · next expr readable =>
    have isSpot : ⟨{}, .free, expr⟩ ∈ segment.spots := by
      rw [Segment.spots_eq, List.mem_flatMap]
      exact ⟨embedding, isEmbedding, spots_of_read readable ▸ List.mem_singleton.mpr rfl⟩
    obtain ⟨inner, inExpr, isText⟩ := List.mem_filterMap.mp member
    cases inner with
    | text _ =>
      obtain rfl := Option.some.inj isText
      exact Segment.allTexts_of_mem_spots among isSpot _ inExpr
    | _ => cases isText
  · cases member

end Embedding

/-- Why the expressions in the property codes of a text cannot be read, for each
that cannot be, from left to right.  Where one can be read, the texts in it are
searched in turn. -/
def unreadable (content : String) : List ScriptError :=
  (embeddings content).attach.flatMap fun embedding =>
    embedding.1.errors ++ embedding.1.texts.attach.flatMap fun value => unreadable value.1
termination_by content.length
decreasing_by exact embedding.1.length_lt_of_mem_texts embedding.2 value.2

/-- Why the expressions in the texts of an expression cannot be read. -/
def Expr.unreadable (expr : Expr) : List ScriptError :=
  expr.texts.flatMap EventScript.unreadable

/-- Why something inside a property code, or an expression in the texts in it,
cannot be read. -/
def Embedding.unreadable (embedding : Embedding) : List ScriptError :=
  match embedding.read with
  | .ok expr => expr.unreadable
  | .error error => [error]

theorem unreadable_eq (content : String) :
    unreadable content = (embeddings content).flatMap Embedding.unreadable := by
  have one (embedding : Embedding) :
      embedding.errors ++ embedding.texts.flatMap unreadable = embedding.unreadable := by
    unfold Embedding.errors Embedding.texts Embedding.unreadable
    cases embedding.read <;> simp [Expr.unreadable]
  rw [unreadable]
  simp [one]

namespace Expr

theorem subtermsOfAll_eq (items : List Expr) : subtermsOfAll items = items.flatMap subterms := by
  induction items with
  | nil => rfl
  | cons first rest ih =>
    rw [subtermsOfAll, ih, List.flatMap_cons]

/-- The texts in an expression that is none itself are those in its children. -/
theorem texts_eq {expr : Expr} (notText : expr.text? = none) :
    expr.texts = expr.children.flatMap texts := by
  have rest : expr.subterms = expr :: expr.children.flatMap subterms := by
    cases expr <;> simp [subterms, children, subtermsOfAll_eq]
  rw [texts, rest, List.filterMap_cons_none notText, List.filterMap_flatMap]
  rfl

theorem unreadable_eq {expr : Expr} (notText : expr.text? = none) :
    expr.unreadable = expr.children.flatMap unreadable := by
  rw [unreadable, texts_eq notText, List.flatMap_assoc]
  rfl

theorem unreadable_text (value : String) :
    (text value).unreadable = EventScript.unreadable value := by
  simp [unreadable, texts, subterms, text?]

/-- The bounds of a range hold what the range holds. -/
theorem unreadable_bounds (expr : Expr) : expr.bounds.flatMap unreadable = expr.unreadable := by
  cases expr with
  | range low high => exact (@unreadable_eq (.range low high) rfl).symm
  | _ => simp [bounds]

end Expr

/-! ## Reports -/

/-- The report of an expression that cannot be read. -/
def ScriptError.misreading (error : ScriptError) : Effect :=
  .report error.line (.embedded error)

/-- Whether an effect reports anything but a substring code with the wrong number
of arguments. -/
def Effect.isMisreading : Effect → Bool
  | .report _ (.sliceArguments _) => false
  | .report _ _ => true
  | _ => false

namespace Emission

variable {α : Type}

/-- The reports of an emission, but for those on substring codes. -/
def misreadings {α : Type} (emission : Emission α) : List Effect :=
  emission.effects.filter Effect.isMisreading

@[simp]
theorem misreadings_pure (value : α) : (pure value : Emission α).misreadings = [] :=
  rfl

@[simp]
theorem misreadings_map {β : Type} (function : α → β) (emission : Emission α) :
    (function <$> emission).misreadings = emission.misreadings := by
  simp [misreadings]

theorem misreadings_eq (emission : Emission α) :
    emission.misreadings = emission.notable.filter Effect.isMisreading := by
  rw [misreadings, notable, List.filter_filter]
  refine List.filter_congr fun effect _ => ?_
  cases effect with
  | report line problem => cases problem <;> rfl
  | _ => rfl

/-- Reports are followed through code that is put together from other code. -/
theorem misreadings_of_notable {β γ : Type} {emission : Emission α} {items : List β}
    {code : β → Emission γ} {marks : List Effect} (unread : marks.filter Effect.isMisreading = [])
    (composed : emission.notable = (items.flatMap fun item => (code item).notable) ++ marks) :
    emission.misreadings = items.flatMap fun item => (code item).misreadings := by
  simp only [misreadings_eq, composed, List.filter_append, unread, List.append_nil,
    List.filter_flatMap]

end Emission

theorem filter_flagMark (function : String) (arguments : List Expr) :
    (flagMark function arguments).filter Effect.isMisreading = [] := by
  unfold flagMark
  split <;> rfl

theorem Spot.filter_mark (spot : Spot) : spot.mark.filter Effect.isMisreading = [] := by
  unfold mark
  split
  · exact filter_flagMark _ _
  · rfl

/-! ## Expressions -/

namespace Spot

/-- The operands of a spot hold what the expression holds, but for arguments that
are left out. -/
theorem unreadable_operands_sublist (spot : Spot) :
    (spot.operands.flatMap fun part => part.expr.unreadable) <+ spot.expr.unreadable := by
  obtain ⟨context, position, expr⟩ := spot
  cases expr with
  | text _ => exact List.nil_sublist _
  | binary op left right =>
    rw [Expr.unreadable_eq rfl]
    have inRight := right.unreadable_bounds
    by_cases isTest : op = .isIn <;>
      simp [operands, Expr.operandsOf, Expr.children, List.flatMap_map, isTest, inRight]
  | call function items =>
    rw [Expr.unreadable_eq rfl]
    cases position with
    | free =>
      simp only [operands, arguments, List.flatMap_map, Expr.children]
      exact (writtenArguments_sublist function items).flatMap _
    | member => simp [operands, arguments, List.flatMap_map, Expr.children]
  | dotted chain =>
    rw [Expr.unreadable_eq rfl]
    cases chain <;> simp [operands, Expr.children, List.flatMap_map]
  | _ =>
    rw [Expr.unreadable_eq rfl]
    simp [operands, arguments, List.flatMap_map, Expr.children]

end Spot

/-- What cannot be read is reported. -/
theorem Embedding.misreadings_code {code : Spot → Emission String} (embedding : Embedding) :
    (embedding.code code).misreadings =
      match embedding.read with
      | .ok expr => (code ⟨{}, .free, expr⟩).misreadings
      | .error error => [error.misreading] := by
  rw [Emission.misreadings_eq, notable_code]
  cases embedding.read with
  | ok expr => exact (Emission.misreadings_eq _).symm
  | error error => rfl

/-- The code for a spot reports what the code for its operands and for what
stands inside its property codes reports. -/
theorem Spot.misreadings_code (site : Site) (spot : Spot) :
    (spot.code site).misreadings =
      (spot.operands.flatMap fun part => (part.code site).misreadings) ++
        spot.embeddings.flatMap fun embedding => (embedding.code (code site)).misreadings := by
  simp only [Emission.misreadings_eq, notable_code site spot, List.filter_append, filter_mark,
    List.append_nil, List.filter_flatMap]

/-- Generation reports the expressions that cannot be read in the texts of an
expression, each at most once and in order. -/
theorem Spot.misreadings_sublist (site : Site) (spot : Spot) :
    (spot.code site).misreadings <+ spot.expr.unreadable.map ScriptError.misreading := by
  induction spot using partInduction with
  | step spot ih =>
    have inOperands : (spot.operands.flatMap fun part => (part.code site).misreadings) <+
        spot.expr.unreadable.map ScriptError.misreading := calc
      spot.operands.flatMap (fun part => (part.code site).misreadings)
      _ <+ spot.operands.flatMap fun part => part.expr.unreadable.map ScriptError.misreading :=
        .flatMap_right _ fun part member => ih part (List.mem_append_left _ member)
      _ = (spot.operands.flatMap fun part => part.expr.unreadable).map
          ScriptError.misreading := (List.map_flatMap ..).symm
      _ <+ spot.expr.unreadable.map ScriptError.misreading :=
        spot.unreadable_operands_sublist.map _
    rw [misreadings_code]
    obtain ⟨context, position, expr⟩ := spot
    cases expr with
    | text content =>
      rw [Expr.unreadable_text, unreadable_eq, List.map_flatMap]
      refine .flatMap_right _ fun embedding inside => ?_
      rw [Embedding.misreadings_code, Embedding.unreadable]
      cases readable : embedding.read with
      | error error => exact .refl _
      | ok expr =>
        refine ih ⟨{}, .free, expr⟩ (List.mem_append_right _ ?_)
        rw [embedded_eq]
        refine List.mem_flatMap.mpr ⟨embedding, inside, ?_⟩
        rw [Embedding.spots_of_read readable]
        exact .head _
    | _ =>
      rw [embeddings, List.flatMap_nil, List.append_nil]
      exact inOperands

end EventScript
