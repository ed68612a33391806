import EventScript.Proofs.Text.Blocks

/-!
# Texts of whole lines

Generated code is put together from texts that consist of whole lines.  What
holds of every line of the parts holds of every line of the whole.
-/

namespace EventScript.Text

/-- A text of whole lines whose contents are all allowed. -/
def Consists (allowed : List Char → Prop) (text : String) : Prop :=
  ∃ contents : List (List Char), (∀ content ∈ contents, '\n' ∉ content ∧ allowed content) ∧
    text.toList = contents.flatMap (line 0)

variable {allowed : List Char → Prop}

theorem consists_empty : Consists allowed "" :=
  ⟨[], by simp, rfl⟩

theorem Consists.append {first second : String} (whole : Consists allowed first)
    (wholeSecond : Consists allowed second) : Consists allowed (first ++ second) := by
  obtain ⟨contents, plain, spelled⟩ := whole
  obtain ⟨others, plainOthers, spelledOthers⟩ := wholeSecond
  refine ⟨contents ++ others, ?_, ?_⟩
  · exact List.forall_mem_append.mpr ⟨plain, plainOthers⟩
  · rw [String.toList_append, spelled, spelledOthers, List.flatMap_append]

theorem consists_join {texts : List String} (whole : ∀ text ∈ texts, Consists allowed text) :
    Consists allowed (String.join texts) := by
  induction texts with
  | nil => exact consists_empty
  | cons first others ih =>
    rw [List.forall_mem_cons] at whole
    rw [String.join_cons]
    exact whole.1.append (ih whole.2)

theorem Consists.mono {other : List Char → Prop} {text : String} (whole : Consists allowed text)
    (implies : ∀ content, allowed content → other content) : Consists other text := by
  obtain ⟨contents, plain, spelled⟩ := whole
  exact ⟨contents, fun content member =>
    ⟨(plain content member).1, implies content (plain content member).2⟩, spelled⟩

/-- One line. -/
theorem consists_line {text : String} {content : List Char} (noFeed : '\n' ∉ content)
    (plain : allowed content) (spelled : text.toList = line 0 content) : Consists allowed text :=
  ⟨[content], List.forall_mem_singleton.mpr ⟨noFeed, plain⟩, by
    rw [spelled, List.flatMap_singleton]⟩

/-- Texts of whole lines, an empty line apart. -/
theorem consists_intercalate {texts : List String} (emptyLine : allowed [])
    (whole : ∀ text ∈ texts, Consists allowed text) : Consists allowed ("\n".intercalate texts) := by
  induction texts with
  | nil => exact consists_empty
  | cons first others ih =>
    rw [List.forall_mem_cons] at whole
    cases others with
    | nil => simpa using whole.1
    | cons second others =>
      have feed : Consists allowed "\n" := consists_line (by simp) emptyLine rfl
      rw [String.intercalate_cons_cons]
      exact (whole.1.append feed).append (ih whole.2)

/-- Equal beginnings are equal up to the first occurrence of a mark. -/
theorem prefix_upTo {mark : Char} {first second behind rest : List Char} (unmarked : mark ∉ first)
    (unmarkedSecond : mark ∉ second)
    (begins : first ++ mark :: behind <+: second ++ mark :: rest) :
    first = second ∧ behind <+: rest := by
  induction first generalizing second with
  | nil =>
    cases second with
    | nil => exact ⟨rfl, (List.cons_prefix_cons.mp begins).2⟩
    | cons character others =>
      have same := (List.cons_prefix_cons.mp begins).1
      rw [← same] at unmarkedSecond
      exact absurd List.mem_cons_self unmarkedSecond
  | cons character others ih =>
    cases second with
    | nil =>
      have same := (List.cons_prefix_cons.mp begins).1
      rw [same] at unmarked
      exact absurd List.mem_cons_self unmarked
    | cons head tail =>
      obtain ⟨rfl, beginsBehind⟩ := List.cons_prefix_cons.mp begins
      rw [List.mem_cons, not_or] at unmarked unmarkedSecond
      obtain ⟨rfl, later⟩ := ih unmarked.2 unmarkedSecond.2 beginsBehind
      exact ⟨rfl, later⟩

/-! ## Indented lines -/

/-- The contents of a line inside a function: nothing, or something behind a
blank. -/
def IsInner (content : List Char) : Prop :=
  content = [] ∨ ∃ rest, content = ' ' :: rest

/-- Text whose lines are all inside a function. -/
def Indented (text : String) : Prop :=
  Consists IsInner text

theorem noFeed_indentation_append {depth : Nat} {content : List Char} (noFeed : '\n' ∉ content) :
    '\n' ∉ indentation depth ++ content := by
  intro member
  rcases List.mem_append.mp member with inFront | inside
  · exact absurd (List.eq_of_mem_replicate inFront) (by decide)
  · exact noFeed inside

theorem isInner_indentation (depth : Nat) (content : List Char) :
    IsInner (indentation (depth + 1) ++ content) := by
  rw [indentation, Nat.mul_add, List.replicate_succ]
  exact .inr ⟨_, rfl⟩

/-- What is written at a depth is indented, whatever it is. -/
theorem indented_block (depth : Nat) (text : String) : Indented (block (depth + 1) text) := by
  refine ⟨(lines text.toList).map fun content =>
    if content.isEmpty then [] else indentation (depth + 1) ++ content, ?_, ?_⟩
  · rw [List.forall_mem_map]
    intro content member
    split
    · exact ⟨List.not_mem_nil, .inl rfl⟩
    · exact ⟨noFeed_indentation_append (lineFeed_notMem_of_mem_lines member),
        isInner_indentation depth content⟩
  · rw [block, String.toList_ofList, List.flatMap_map]
    congr 1
    funext content
    rw [blockLine]
    split <;> rfl

end EventScript.Text
