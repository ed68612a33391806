import EventScript.Proofs.Events.Running
import EventScript.Proofs.Text.WholeLines

/-!
# Functions of generated code

Generated code is a sequence of functions.  The body of a function is found
again in the text by the name of the function.
-/

namespace EventScript

open Text

variable {contents : List (List Char)} {name : String} {content : List Char}

/-- A function of generated code. -/
structure CodeFunction where
  name : String
  parameters : String
  body : String

namespace CodeFunction

/-- The text of a function. -/
def text (function : CodeFunction) : String :=
  functionCode function.name function.parameters function.body

/-- Functions whose name and parameters are on one line and whose body is
indented. -/
structure WellFormed (function : CodeFunction) : Prop where
  named : OneLine function.name
  bare : '(' ∉ function.name.toList
  listed : OneLine function.parameters
  indented : Indented function.body

/-- The line that opens a function. -/
def header (function : CodeFunction) : List Char :=
  ("function " ++ function.name ++ "(" ++ function.parameters ++ ") \x7b").toList

end CodeFunction

/-! ## Lines -/

/-- Splitting whole lines at their ends gives their contents. -/
theorem splitOn_lines (noFeed : ∀ content ∈ contents, '\n' ∉ content) :
    (contents.flatMap (line 0)).splitOn '\n' = contents ++ [[]] := by
  induction contents with
  | nil => rfl
  | cons first others ih =>
    rw [List.forall_mem_cons] at noFeed
    have plain : ∀ character ∈ first, (character == '\n') = false := by
      intro character member
      rw [beq_eq_false_iff_ne]
      rintro rfl
      exact noFeed.1 member
    have split := List.splitOnP_append_cons_of_forall_mem plain '\n' (beq_self_eq_true _) (others.flatMap (line 0))
    rw [List.flatMap_cons]
    change (first ++ ['\n'] ++ _).splitOn '\n' = _
    rw [List.append_assoc, List.singleton_append]
    exact split.trans (congrArg (first :: ·) (ih noFeed.2))

/-- A line that does not open a function is passed. -/
theorem functionLines?_skip (notOpening : ¬functionOpening name <+: content)
    (others : List (List Char)) :
    functionLines? name (content :: others) = functionLines? name others := by
  have passed : (!(functionOpening name).isPrefixOf content) = true := by
    rw [Bool.not_eq_true', Bool.eq_false_iff, ne_eq, List.isPrefixOf_iff_prefix]
    exact notOpening
  rw [functionLines?, functionLines?, List.dropWhile_cons, if_pos passed]

theorem functionLines?_skip_all
    (notOpening : ∀ content ∈ contents, ¬functionOpening name <+: content)
    (others : List (List Char)) :
    functionLines? name (contents ++ others) = functionLines? name others := by
  induction contents with
  | nil => rfl
  | cons first more ih =>
    rw [List.forall_mem_cons] at notOpening
    rw [List.cons_append, functionLines?_skip notOpening.1, ih notOpening.2]

/-- The lines of the function that is opened. -/
theorem functionLines?_here (opens : functionOpening name <+: content)
    (inside : ∀ line ∈ contents, line ≠ ['\x7d']) (others : List (List Char)) :
    functionLines? name (content :: (contents ++ ['\x7d'] :: others)) = some contents := by
  have found : ¬(!(functionOpening name).isPrefixOf content) = true := by
    rw [Bool.not_eq_true', Bool.not_eq_false, List.isPrefixOf_iff_prefix]
    exact opens
  have kept : ∀ line ∈ contents, (line != ['\x7d']) = true := by
    intro line member
    exact bne_iff_ne.mpr (inside line member)
  rw [functionLines?, List.dropWhile_cons, if_neg found]
  simp [List.takeWhile_append_of_pos kept]

/-! ## Finding functions -/

/-- A line inside a function opens none. -/
theorem not_opening_of_isInner (inner : IsInner content) : ¬functionOpening name <+: content := by
  have opening : ∃ others, functionOpening name = 'f' :: others := by
    rw [functionOpening, String.append_assoc, String.toList_append]
    exact ⟨_, rfl⟩
  obtain ⟨others, spelled⟩ := opening
  rw [spelled]
  rcases inner with rfl | ⟨rest, rfl⟩
  · simp
  · intro begins
    exact absurd (List.cons_prefix_cons.mp begins).1 (by decide)

theorem ne_brace_of_isInner (inner : IsInner content) : content ≠ ['\x7d'] := by
  rcases inner with rfl | ⟨rest, rfl⟩
  · simp
  · intro same
    exact absurd (List.cons.inj same).1 (by decide)

/-- A line opens the function with the name that stands in it. -/
theorem opening_prefix_header (bare : '(' ∉ name.toList) {function : CodeFunction}
    (wellFormed : function.WellFormed) :
    functionOpening name <+: function.header ↔ function.name = name := by
  have spelled : functionOpening name = "function ".toList ++ (name.toList ++ '(' :: []) := by
    simp [functionOpening]
  have header : function.header = "function ".toList ++
      (function.name.toList ++ '(' :: (function.parameters ++ ") \x7b").toList) := by
    simp [CodeFunction.header]
  rw [spelled, header, List.prefix_append_right_inj]
  constructor
  · intro begins
    exact String.toList_inj.mp (prefix_upTo bare wellFormed.bare begins).1.symm
  · rintro rfl
    rw [List.prefix_append_right_inj, List.cons_prefix_cons]
    exact ⟨rfl, List.nil_prefix⟩

/-- The lines of a function: the one that opens it, those of its body and the
closing brace. -/
theorem CodeFunction.WellFormed.exists_lines {function : CodeFunction}
    (wellFormed : function.WellFormed) :
    ∃ contents, (∀ content ∈ contents, '\n' ∉ content ∧ IsInner content) ∧
      function.body.toList = contents.flatMap (line 0) ∧ '\n' ∉ function.header ∧
        function.text.toList = (function.header :: (contents ++ [['\x7d']])).flatMap (line 0) := by
  obtain ⟨contents, inner, spelled⟩ := wellFormed.indented
  have oneLine : OneLine
      ("function " ++ function.name ++ "(" ++ function.parameters ++ ") \x7b") := by
    simp only [oneLine_append, and_assoc]
    exact ⟨by decide, wellFormed.named, by decide, wellFormed.listed, by decide⟩
  refine ⟨contents, inner, spelled, oneLine, ?_⟩
  rw [text, functionCode, String.toList_append, String.toList_append, spelled, List.flatMap_cons,
    List.flatMap_append, List.flatMap_singleton, codeLine, codeLine, String.toList_ofList,
    String.toList_ofList, List.append_assoc]
  rfl

/-- What is found behind a function is found unless the function has the name
itself. -/
theorem functionLines?_function {function : CodeFunction} (wellFormed : function.WellFormed)
    (bare : '(' ∉ name.toList) (inner : ∀ content ∈ contents, '\n' ∉ content ∧ IsInner content)
    (others : List (List Char)) :
    functionLines? name (function.header :: (contents ++ ['\x7d'] :: others)) =
      if function.name == name then some contents else functionLines? name others := by
  have opens := opening_prefix_header bare wellFormed
  split
  · rename_i same
    exact functionLines?_here (opens.mpr (beq_iff_eq.mp same))
      (fun line member => ne_brace_of_isInner (inner line member).2) others
  · rename_i differ
    have notOpening : ¬functionOpening name <+: function.header :=
      fun begins => differ (beq_iff_eq.mpr (opens.mp begins))
    have notBrace : ¬functionOpening name <+: ['\x7d'] := by
      rw [functionOpening, String.append_assoc, String.toList_append]
      intro begins
      exact absurd (List.cons_prefix_cons.mp begins).1 (by decide)
    rw [functionLines?_skip notOpening,
      functionLines?_skip_all fun content member => not_opening_of_isInner (inner content member).2,
      functionLines?_skip notBrace]

/-- The lines of functions, an empty line apart, with what is found in them. -/
theorem exists_lines_of_functions {functions : List CodeFunction}
    (wellFormed : ∀ function ∈ functions, function.WellFormed) (bare : '(' ∉ name.toList) :
    ∃ contents, (∀ content ∈ contents, '\n' ∉ content) ∧
      ("\n".intercalate (functions.map CodeFunction.text)).toList = contents.flatMap (line 0) ∧
        (functionLines? name (contents ++ [[]])).map
            (fun lines => String.ofList (lines.flatMap (line 0))) =
          (functions.find? fun function => function.name == name).map CodeFunction.body := by
  have notEmpty : ¬functionOpening name <+: [] := not_opening_of_isInner (.inl rfl)
  induction functions with
  | nil =>
    refine ⟨[], by simp, rfl, ?_⟩
    rw [List.nil_append, functionLines?_skip notEmpty]
    rfl
  | cons function others ih =>
    rw [List.forall_mem_cons] at wellFormed
    obtain ⟨inside, inner, body, headed, spelled⟩ := wellFormed.1.exists_lines
    obtain ⟨behind, noFeed, spelledBehind, found⟩ := ih wellFormed.2
    have ownLines : ∀ content ∈ function.header :: (inside ++ [['\x7d']]), '\n' ∉ content := by
      rw [List.forall_mem_cons, List.forall_mem_append, List.forall_mem_singleton]
      exact ⟨headed, fun content member => (inner content member).1, by decide⟩
    -- an empty line stands between this function and the next one
    have later : ∃ gap, (∀ content ∈ gap, '\n' ∉ content) ∧
        ("\n".intercalate ((function :: others).map CodeFunction.text)).toList =
          function.text.toList ++ gap.flatMap (line 0) ∧
            (functionLines? name (gap ++ [[]])).map
                (fun lines => String.ofList (lines.flatMap (line 0))) =
              (others.find? fun function => function.name == name).map CodeFunction.body := by
      cases others with
      | nil =>
        refine ⟨[], by simp, by simp, ?_⟩
        rw [List.nil_append, functionLines?_skip notEmpty]
        rfl
      | cons next more =>
        refine ⟨[] :: behind, ?_, ?_, ?_⟩
        · exact List.forall_mem_cons.mpr ⟨List.not_mem_nil, noFeed⟩
        · rw [List.map_cons, List.map_cons, String.intercalate_cons_cons, ← List.map_cons,
            String.toList_append, String.toList_append, spelledBehind, List.append_assoc]
          rfl
        · rw [List.cons_append, functionLines?_skip notEmpty, found]
    obtain ⟨gap, noFeedGap, whole, foundLater⟩ := later
    refine ⟨function.header :: (inside ++ [['\x7d']]) ++ gap, ?_, ?_, ?_⟩
    · exact List.forall_mem_append.mpr ⟨ownLines, noFeedGap⟩
    · rw [whole, spelled, ← List.flatMap_append]
    · have split := functionLines?_function wellFormed.1 bare inner (gap ++ [[]])
      have joined : function.header :: (inside ++ [['\x7d']]) ++ gap ++ [[]] =
          function.header :: (inside ++ ['\x7d'] :: (gap ++ [[]])) := by simp
      rw [joined, split, List.find?_cons]
      split
      · rename_i isName
        simp [isName, ← body]
      · rename_i notName
        rw [foundLater]
        simp [notName]

/-- The body of a function is found by its name. -/
theorem functionBody?_intercalate {functions : List CodeFunction}
    (wellFormed : ∀ function ∈ functions, function.WellFormed) (bare : '(' ∉ name.toList) :
    functionBody? ("\n".intercalate (functions.map CodeFunction.text)) name =
      (functions.find? fun function => function.name == name).map CodeFunction.body := by
  obtain ⟨contents, noFeed, spelled, found⟩ := exists_lines_of_functions wellFormed bare
  rw [functionBody?, spelled, splitOn_lines noFeed, found]

end EventScript
