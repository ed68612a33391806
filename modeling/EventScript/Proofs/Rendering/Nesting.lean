import EventScript.Proofs.Grammar.Texts
import EventScript.Proofs.Rendering.Effects

/-!
# Property strings inside property strings

The expressions inside a property string are read from shorter texts, and no
text in them is longer than the text it was read from.  The depth to which
property strings are expanded is therefore never reached: more depth gives the
same code, and the code for a text is put together from the code for the
expressions inside it.
-/

namespace EventScript

variable {argument content : String} {slot : Option String} {letter : Char} {bound : Nat}

/-! ## Segments lie in their text -/

namespace Segment

variable {left : List Char}

/-- An argument in parentheses. -/
def parenthesised (argument : String) : List Char :=
  '(' :: (argument.toList ++ [')'])

/-- The argument of a segment stands in the text that the segment was read from,
and what remains is the end of that text. -/
structure ReadFrom (text : List Char) (read : Segment × List Char) : Prop where
  argument : ∀ letter slot argument, read.1 = code letter slot (some argument) →
    parenthesised argument <:+: text
  left : read.2 <:+ text

theorem readBalanced_split {depth : Nat} {quoted : Bool} {text argument : List Char}
    (read : readBalanced depth quoted text = some (argument, left)) :
    text = argument ++ ')' :: left := by
  fun_induction readBalanced depth quoted text generalizing argument left with
  | case1 => cases read
  | case2 depth character rest ih | case3 depth character rest _ ih =>
    obtain ⟨⟨inner, behind⟩, readInner, same⟩ := Option.map_eq_some_iff.mp read
    obtain ⟨rfl, rfl⟩ := Prod.mk.inj same
    rw [ih readInner]
    rfl
  | case4 depth character rest closing =>
    obtain ⟨rfl, rfl⟩ := Prod.mk.inj (Option.some.inj read)
    rw [Bool.and_eq_true, beq_iff_eq] at closing
    rw [closing.1]
    rfl
  | case5 =>
    rename_i ih
    obtain ⟨inner, readInner, rfl⟩ := exists_of_map_fst read
    rw [ih readInner]
    rfl

theorem readArgument_split {text : List Char} (read : readArgument text = some (argument, left)) :
    text = parenthesised argument ++ left := by
  unfold readArgument at read
  split at read
  · obtain ⟨inner, readInner, rfl⟩ := exists_of_map_fst read
    rw [readBalanced_split readInner]
    simp [parenthesised]
  · cases read

theorem isSuffix_of_readSlot {most : Nat} {text : List Char} {slot : String}
    (read : readSlot most text = some (slot, left)) : left <:+ text := by
  unfold readSlot at read
  dsimp only at read
  split at read
  · cases read
  · obtain ⟨-, rfl⟩ := Prod.mk.inj (Option.some.inj read)
    exact List.drop_suffix _ _

/-- A code whose argument, if it has one, is read from behind its letter and
slot. -/
theorem readFrom_code {text behind : List Char} {argument : Option String}
    (inside : behind <:+ text) (read : readOptionalArgument behind = (argument, left)) :
    ReadFrom text (code letter slot argument, left) := by
  unfold readOptionalArgument at read
  split at read
  · next found argumentLeft readFound =>
    obtain ⟨rfl, rfl⟩ := Prod.mk.inj read
    have split := readArgument_split readFound
    refine ⟨?_, List.IsSuffix.trans ⟨_, split.symm⟩ inside⟩
    rintro _ _ _ ⟨⟩
    exact List.IsInfix.trans (List.IsPrefix.isInfix ⟨_, split.symm⟩) inside.isInfix
  · obtain ⟨rfl, rfl⟩ := Prod.mk.inj read
    exact ⟨by rintro _ _ _ ⟨⟩, inside⟩

theorem readFrom_readCode {text : List Char} {read : Segment × List Char}
    (isCode : readCode text = some read) : ReadFrom text read := by
  cases text with
  | nil => cases isCode
  | cons letter rest =>
    have behind : rest <:+ letter :: rest := List.suffix_cons _ _
    rw [readCode] at isCode
    split at isCode
    · obtain ⟨⟨slot, slotLeft⟩, readSlot, rfl⟩ := Option.map_eq_some_iff.mp isCode
      exact readFrom_code ((isSuffix_of_readSlot readSlot).trans behind) rfl
    · split at isCode
      · obtain ⟨⟨argument, left⟩, readFound, rfl⟩ := Option.map_eq_some_iff.mp isCode
        refine readFrom_code behind ?_
        rw [readOptionalArgument, readFound]
      · split at isCode
        · obtain rfl := Option.some.inj isCode
          exact readFrom_code behind rfl
        · cases isCode

theorem readFrom_read (text : List Char) : ReadFrom text (Segment.read text) := by
  have ofText {content : String} {left : List Char} (inside : left <:+ text) :
      ReadFrom text (.text content, left) := ⟨by rintro _ _ _ ⟨⟩, inside⟩
  unfold Segment.read
  split
  · next rest => exact ofText ((List.suffix_cons _ _).trans (List.suffix_cons _ _))
  · next rest _ =>
    have behind : rest <:+ '#' :: rest := List.suffix_cons _ _
    cases isCode : readCode rest with
    | none => exact ofText behind
    | some read =>
      obtain ⟨argument, left⟩ := readFrom_readCode isCode
      exact ⟨fun letter slot found same =>
        (argument letter slot found same).trans behind.isInfix, left.trans behind⟩
  · exact ofText (List.dropWhile_suffix _)

theorem isInfix_of_mem_readUpTo {text : List Char}
    (member : code letter slot (some argument) ∈ readUpTo bound text) :
    parenthesised argument <:+: text := by
  induction bound generalizing text with
  | zero => cases member
  | succ bound ih =>
    cases text with
    | nil => cases member
    | cons character rest =>
      obtain ⟨inArgument, left⟩ := readFrom_read (character :: rest)
      rw [readUpTo] at member
      rcases List.mem_cons.mp member with same | later
      · exact inArgument _ _ _ same.symm
      · exact (ih later).trans left.isInfix

end Segment

/-- The argument of a property code is shorter than the property string. -/
theorem length_lt_of_mem_segments (member : .code letter slot (some argument) ∈ segments content) :
    argument.length < content.length := by
  have bounded := (Segment.isInfix_of_mem_readUpTo member).length_le
  simp only [Segment.parenthesised, List.length_cons, List.length_append, List.length_nil,
    String.length_toList] at bounded
  omega

/-- The parts of an argument stand in it, and the first one at its beginning. -/
theorem isInfix_of_mem_splitParts {depth : Nat} {quoted : Bool} {text part : List Char} :
    (part ∈ (splitParts depth quoted text).head? → part <+: text) ∧
      (part ∈ splitParts depth quoted text → part <:+: text) := by
  fun_induction splitParts depth quoted text generalizing part with
  | case1 =>
    constructor
    · rintro ⟨⟩
      exact List.prefix_refl _
    · intro member
      obtain rfl := List.mem_singleton.mp member
      exact List.infix_refl _
  | case2 depth quoted character rest _ ih =>
    constructor
    · rintro ⟨⟩
      exact List.nil_prefix
    · intro member
      rcases List.mem_cons.mp member with rfl | later
      · exact List.nil_infix
      · exact (ih.2 later).trans (List.suffix_cons _ _).isInfix
  | case3 =>
    rename_i first others split ih
    rw [split] at ih
    have front := (@ih first).1 rfl
    constructor
    · rintro ⟨⟩
      exact List.cons_prefix_cons.mpr ⟨rfl, front⟩
    · intro member
      rcases List.mem_cons.mp member with rfl | later
      · exact (List.cons_prefix_cons.mpr ⟨rfl, front⟩).isInfix
      · exact (ih.2 (.tail _ later)).trans (List.suffix_cons _ _).isInfix
  | case4 character rest =>
    constructor
    · rintro ⟨⟩
      exact List.cons_prefix_cons.mpr ⟨rfl, List.nil_prefix⟩
    · intro member
      obtain rfl := List.mem_singleton.mp member
      exact (List.cons_prefix_cons.mpr ⟨rfl, List.nil_prefix⟩).isInfix

theorem isInfix_of_mem_argumentParts {part : String} (member : part ∈ argumentParts argument) :
    part.toList <:+: argument.toList := by
  obtain ⟨piece, isPiece, rfl⟩ := List.mem_map.mp member
  rw [String.toList_ofList]
  exact (Text.trimChars_isInfix piece).trans (isInfix_of_mem_splitParts.2 isPiece)

theorem length_le_of_mem_argumentParts {part : String} (member : part ∈ argumentParts argument) :
    part.length ≤ argument.length := by
  rw [← String.length_toList, ← String.length_toList]
  exact (isInfix_of_mem_argumentParts member).length_le

theorem length_trim_lt (short : argument.length < bound) : (Text.trim argument).length < bound := by
  have trimmed := (Text.trimChars_isInfix argument.toList).length_le
  rw [String.length_toList] at trimmed
  rw [Text.trim, String.length_ofList]
  omega

/-! ## What stands in property codes -/

/-- Something inside a property code: the source of an expression, or a text
with property codes of its own. -/
inductive Embedding where
  | expression (source : String)
  | text (content : String)

namespace Embedding

/-- The text that is embedded. -/
def source : Embedding → String
  | expression source => source
  | text content => content

/-- What is read inside a property code. -/
def read : Embedding → Except ScriptError Expr
  | expression source => Expr.parse source
  | text content => .ok (.text content)

/-- The spot of what is read, if it can be read. -/
def spots : Embedding → List Spot
  | expression source => Spot.ofSource source
  | text content => [⟨{}, .free, .text content⟩]

/-- The expression by which a property code addresses its owner, if the owner is
found out when the code runs. -/
def ofOwner (argument : Option String) : List Embedding :=
  match argument.map Text.trim with
  | none => []
  | some "-1" => []
  | some "0" => []
  | some owner => if owner.toList.all Char.isDigit then [] else [expression owner]

theorem spots_of_read {embedding : Embedding} {expr : Expr} (readable : embedding.read = .ok expr) :
    embedding.spots = [⟨{}, .free, expr⟩] := by
  cases embedding with
  | expression source =>
    rw [read] at readable
    rw [spots, Spot.ofSource, readable]
  | text content =>
    obtain rfl := Except.ok.inj readable
    rfl

end Embedding

/-- What stands inside one segment of a property string. -/
def Segment.embeddings : Segment → List Embedding
  | text _ => []
  | code letter slot argument =>
    match letter, argument with
    | 'v', some source => [.expression source]
    | 's', some source => [.expression source]
    | 't', some source => [.expression source]
    | 'e', some source =>
      match argumentParts source with
      | [start, length, content] => [.expression start, .expression length, .text content]
      | _ => []
    | 'w', _ =>
      match argument.map Text.trim with
      | none => []
      | some "-1" => []
      | some weapon => [.expression weapon]
    | _, _ => if (slotProperty? letter slot).isSome then Embedding.ofOwner argument else []

/-- What stands inside the property codes of a text. -/
def embeddings (content : String) : List Embedding :=
  (segments content).flatMap Segment.embeddings

theorem Spot.ofOwner_eq (argument : Option String) :
    ofOwner argument = (Embedding.ofOwner argument).flatMap Embedding.spots := by
  unfold ofOwner Embedding.ofOwner
  generalize argument.map Text.trim = trimmed
  split
  · rfl
  · rfl
  · rfl
  · next owner notSelf notPlayer =>
    by_cases isNumber : owner.toList.all Char.isDigit
    · simp [isNumber]
    · simp [isNumber, Embedding.spots]

/-- The spots inside a segment are what can be read of it. -/
theorem Segment.spots_eq (segment : Segment) :
    segment.spots = segment.embeddings.flatMap Embedding.spots := by
  cases segment with
  | text _ => rfl
  | code letter slot argument =>
    unfold spots
    dsimp only
    split
    · simp [embeddings, Embedding.spots]
    · simp [embeddings, Embedding.spots]
    · simp [embeddings, Embedding.spots]
    · split
      · next parts => simp [embeddings, parts, Embedding.spots]
      · simp [embeddings]
    · split
      · next missing => simp [embeddings, missing]
      · next current => simp [embeddings, current]
      · next trimmed => simp [embeddings, trimmed, Embedding.spots]
    · simp only [embeddings, Spot.ofOwner_eq]
      split <;> rfl

theorem Embedding.length_lt_of_mem_ofOwner {argument : Option String} {embedding : Embedding}
    (short : ∀ source, argument = some source → source.length < bound)
    (member : embedding ∈ ofOwner argument) : embedding.source.length < bound := by
  unfold ofOwner at member
  split at member
  · cases member
  · cases member
  · cases member
  · next owner _ _ trimmed =>
    obtain ⟨source, isSource, rfl⟩ := Option.map_eq_some_iff.mp trimmed
    split at member
    · cases member
    · obtain rfl := List.mem_singleton.mp member
      exact length_trim_lt (short source isSource)

/-- What stands inside the property codes of a text is shorter than the text. -/
theorem Segment.length_lt_of_mem_embeddings {segment : Segment} {embedding : Embedding}
    (among : segment ∈ segments content) (member : embedding ∈ segment.embeddings) :
    embedding.source.length < content.length := by
  cases segment with
  | text _ => cases member
  | code letter slot argument =>
    have short : ∀ source, argument = some source → source.length < content.length := by
      rintro source rfl
      exact length_lt_of_mem_segments among
    have single {source : String} (shorter : source.length < content.length)
        (inside : embedding ∈ [.expression source]) :
        embedding.source.length < content.length := by
      obtain rfl := List.mem_singleton.mp inside
      exact shorter
    unfold embeddings at member
    dsimp only at member
    split at member
    · exact single (short _ rfl) member
    · exact single (short _ rfl) member
    · exact single (short _ rfl) member
    · next source =>
      split at member
      · next start length inner parts =>
        have shortPart : ∀ piece ∈ [start, length, inner], piece.length < content.length := by
          intro piece isPiece
          rw [← parts] at isPiece
          exact Nat.lt_of_le_of_lt (length_le_of_mem_argumentParts isPiece) (short _ rfl)
        refine shortPart _ ?_
        simp only [List.mem_cons, List.not_mem_nil, or_false] at member
        rcases member with rfl | rfl | rfl <;> simp [Embedding.source]
      · cases member
    · split at member
      · cases member
      · cases member
      · next weapon _ trimmed =>
        obtain ⟨source, isSource, rfl⟩ := Option.map_eq_some_iff.mp trimmed
        exact single (length_trim_lt (short source isSource)) member
    · split at member
      · exact Embedding.length_lt_of_mem_ofOwner short member
      · cases member

/-- The texts in the expressions inside a property string are shorter than the
property string. -/
theorem Segment.allTexts_of_mem_spots {segment : Segment} {part : Spot}
    (among : segment ∈ segments content) (member : part ∈ segment.spots) :
    part.expr.AllTexts fun value => value.length < content.length := by
  rw [spots_eq, List.mem_flatMap] at member
  obtain ⟨embedding, inside, isPart⟩ := member
  have short := length_lt_of_mem_embeddings among inside
  cases embedding with
  | expression source =>
    rw [Embedding.spots, Spot.ofSource] at isPart
    split at isPart
    · next expr parsed =>
      obtain rfl := List.mem_singleton.mp isPart
      intro value inExpr
      exact Nat.lt_of_le_of_lt (Expr.length_le_of_parse parsed value inExpr) short
    · cases isPart
  | text inner =>
    obtain rfl := List.mem_singleton.mp isPart
    exact Expr.allTexts_text.mpr short

/-! ## The code for a property code -/

/-- How the code for a property code is put together from the code for what
stands inside it: from none, from the code for one expression, or as a slice. -/
inductive Segment.Filled (embeddings : List Embedding)
    (code : (String → Emission String) → (String → Emission String) → Emission (Option String)) :
    Prop
  | constant (emission : Emission (Option String)) (unnoted : emission.notable = [])
      (none : embeddings = [])
      (same : ∀ embedded whole, code embedded whole = emission)
  | embedding (before : Emission Unit) (source : String) (wrap : String → String)
      (unnoted : before.notable = []) (inside : embeddings = [.expression source])
      (same : ∀ embedded whole, code embedded whole = do
        before
        return some (wrap (← embedded source)))
  | slice (start length content : String)
      (inside : embeddings = [.expression start, .expression length, .text content])
      (same : ∀ embedded whole, code embedded whole = do
        let start ← embedded start
        let length ← embedded length
        let content ← whole content
        return some ("substring(" ++ content ++ ", " ++ start ++ ", " ++ length ++ ")"))

theorem Segment.filled_owner (site : Site) (argument : Option String) (property : String) :
    Segment.Filled (Embedding.ofOwner argument) fun embedded _ => do
      return some ((← ownerCode site embedded argument) ++ "." ++ property) := by
  have fixed {owner : String}
      (same : ∀ embedded, ownerCode site embedded argument = pure owner)
      (none : Embedding.ofOwner argument = []) :
      Segment.Filled (Embedding.ofOwner argument) fun embedded _ => do
        return some ((← ownerCode site embedded argument) ++ "." ++ property) :=
    .constant (pure (some (owner ++ "." ++ property))) rfl none
      fun embedded _ => by rw [same, pure_bind]
  cases trimmed : argument.map Text.trim with
  | none =>
    exact fixed (fun _ => by rw [ownerCode, trimmed]) (by rw [Embedding.ofOwner, trimmed])
  | some owner =>
    by_cases isSelf : owner = "-1"
    · subst isSelf
      exact @fixed "this" (fun _ => by simp [ownerCode, trimmed])
        (by simp [Embedding.ofOwner, trimmed])
    by_cases isPlayer : owner = "0"
    · subst isPlayer
      exact @fixed "player" (fun _ => by simp [ownerCode, trimmed])
        (by simp [Embedding.ofOwner, trimmed])
    by_cases isNumber : owner.toList.all Char.isDigit
    · exact @fixed (site.options.players ++ "[" ++ owner ++ "]")
        (fun _ => by simp [ownerCode, trimmed, isNumber])
        (by simp [Embedding.ofOwner, trimmed, isNumber])
    · exact .embedding (Emission.requestHelper "_propOwner") owner
        (fun code => "this._propOwner(" ++ code ++ ", player)" ++ "." ++ property)
        (Emission.notable_requestHelper (by decide +kernel))
        (by simp [Embedding.ofOwner, trimmed, isNumber])
        fun embedded _ => by simp [ownerCode, trimmed, isNumber]

theorem Segment.filled_code (site : Site) (letter : Char) (slot argument : Option String) :
    Segment.Filled (Segment.code letter slot argument).embeddings fun embedded whole =>
      propertyCode site embedded whole letter slot argument := by
  unfold embeddings
  dsimp only
  split
  · next source =>
    exact .embedding (pure ()) source (fun code => "(" ++ code ++ ")") rfl rfl
      fun _ _ => by simp [propertyCode]
  · next source =>
    exact .embedding (pure ()) source (fun code => "(" ++ code ++ ")") rfl rfl
      fun _ _ => by simp [propertyCode]
  · next source =>
    exact .embedding (pure ()) source (fun code => "this.tokens[" ++ code ++ "]") rfl rfl
      fun _ _ => by simp [propertyCode]
  · next source =>
    split
    · next start length content parts =>
      exact .slice start length content rfl fun _ _ => by simp [propertyCode, parts]
    · refine .constant (do
        Emission.report 0 (.sliceArguments (argumentParts source).length)
        return none) rfl rfl fun _ _ => ?_
      simp only [propertyCode]
  · split
    · next missing =>
      exact .constant (pure (some "player.weapon.name")) rfl rfl
        fun _ _ => by simp [propertyCode, missing]
    · next current =>
      exact .constant (pure (some "player.weapon.name")) rfl rfl
        fun _ _ => by simp [propertyCode, current]
    · next weapon _ trimmed =>
      exact .embedding (pure ()) weapon (fun code => "player.weapons[" ++ code ++ "].name")
        rfl rfl fun _ _ => by simp [propertyCode, trimmed]
  · next notWeapon notValue notText notToken notSlice =>
    cases found : slotProperty? letter slot with
    | none =>
      refine .constant (pure none) rfl (by simp) fun _ _ => ?_
      simp [propertyCode, found]
    | some property =>
      have byOwner : (fun embedded whole =>
          propertyCode site embedded whole letter slot argument) = fun embedded _ => do
            return some ((← ownerCode site embedded argument) ++ "." ++ property) := by
        funext embedded whole
        simp [propertyCode, found]
      rw [byOwner, Option.isSome_some, if_pos rfl]
      exact filled_owner site argument property

/-! ## The code for a text -/

/-- The code for a property code, from the code for the spots inside it. -/
def propertyCodeBy (site : Site) (code : Spot → Emission String) (letter : Char)
    (slot argument : Option String) : Emission (Option String) :=
  propertyCode site (embeddedCode fun expr => code ⟨{}, .free, expr⟩)
    (fun content => code ⟨{}, .free, .text content⟩) letter slot argument

/-- The code for a text, from the code for the spots inside it. -/
def expandBy (site : Site) (code : Spot → Emission String) (content : String) :
    Emission String := do
  let parts ← concatenation (propertyCodeBy site code) "" (segments content)
  return joinConcatenation parts

/-- One level of expansion. -/
theorem expandUpTo_succ (site : Site) (depth : Nat) (content : String) :
    expandUpTo site (depth + 1) content =
      expandBy site (Spot.codeWith (expandUpTo site depth) site) content := by
  have whole : (fun content => Spot.codeWith (expandUpTo site depth) site
      ⟨{}, .free, .text content⟩) = expandUpTo site depth := by
    funext content
    rw [Spot.codeWith, renderWith]
  have byCodes : propertyCodeBy site (Spot.codeWith (expandUpTo site depth) site) =
      propertyCode site (embeddedCode (renderWith (expandUpTo site depth) site {} .free))
        (expandUpTo site depth) := by
    funext letter slot argument
    rw [propertyCodeBy, whole]
    rfl
  rw [expandUpTo, expandBy, byCodes]

section Congruence

variable {site : Site} {code other : Spot → Emission String}

theorem embeddedCode_congr {source : String}
    (same : ∀ part ∈ Spot.ofSource source, code part = other part) :
    embeddedCode (fun expr => code ⟨{}, .free, expr⟩) source =
      embeddedCode (fun expr => other ⟨{}, .free, expr⟩) source := by
  unfold embeddedCode
  split
  · next expr parsed => exact same _ (by simp [Spot.ofSource, parsed])
  · rfl

theorem propertyCodeBy_congr {letter : Char} {slot argument : Option String}
    (same : ∀ part ∈ (Segment.code letter slot argument).spots, code part = other part) :
    propertyCodeBy site code letter slot argument =
      propertyCodeBy site other letter slot argument := by
  rw [Segment.spots_eq] at same
  cases Segment.filled_code site letter slot argument with
  | constant emission _ _ constantly =>
    exact (constantly _ _).trans (constantly _ _).symm
  | embedding before source wrap _ inside embeds =>
    rw [inside, List.flatMap_singleton] at same
    exact (embeds _ _).trans (embeddedCode_congr same ▸ (embeds _ _).symm)
  | slice start length content inside slices =>
    simp only [inside, List.flatMap_cons, List.flatMap_nil, List.append_nil,
      List.forall_mem_append, Embedding.spots, List.forall_mem_singleton] at same
    obtain ⟨sameStart, sameLength, sameContent⟩ := same
    refine (slices _ _).trans (Eq.trans ?_ (slices _ _).symm)
    rw [embeddedCode_congr sameStart, embeddedCode_congr sameLength, sameContent]

theorem concatenation_congr {property another : Char → Option String → Option String →
      Emission (Option String)} {parts : List Segment}
    (same : ∀ letter slot argument, .code letter slot argument ∈ parts →
      property letter slot argument = another letter slot argument) (literal : String) :
    concatenation property literal parts = concatenation another literal parts := by
  induction parts generalizing literal with
  | nil => rfl
  | cons first rest ih =>
    have sameRest := ih fun letter slot argument member =>
      same letter slot argument (.tail _ member)
    cases first with
    | text content => exact sameRest _
    | code letter slot argument =>
      simp only [concatenation, same letter slot argument (.head _), sameRest]

/-- What holds of quoted texts and of the code for the codes holds of all that is
concatenated. -/
theorem forall_mem_concatenation {holds : String → Prop}
    {property : Char → Option String → Option String → Emission (Option String)}
    {parts : List Segment} (quoted : ∀ literal, holds (Text.quote literal))
    (codes : ∀ letter slot argument, .code letter slot argument ∈ parts →
      ∀ rendered, (property letter slot argument).value = some rendered → holds rendered)
    (literal : String) : ∀ part ∈ (concatenation property literal parts).value, holds part := by
  have literals {literal part : String} (inside : part ∈ literalPart literal) : holds part := by
    rw [literalPart] at inside
    split at inside
    · cases inside
    · rw [List.mem_singleton.mp inside]
      exact quoted literal
  induction parts generalizing literal with
  | nil => exact fun part => literals
  | cons first rest ih =>
    have later := ih fun letter slot argument among =>
      codes letter slot argument (.tail _ among)
    cases first with
    | text content => exact later _
    | code letter slot argument =>
      rw [concatenation, Emission.value_bind]
      cases isRendered : (property letter slot argument).value with
      | none => exact later _
      | some rendered =>
        refine List.forall_mem_append.mpr ⟨fun part => literals, ?_⟩
        refine List.forall_mem_cons.mpr ⟨?_, later _⟩
        exact codes letter slot argument (.head _) _ isRendered

/-- The code for a text is determined by the code for the spots inside it. -/
theorem expandBy_congr
    (same : ∀ part ∈ (segments content).flatMap Segment.spots, code part = other part) :
    expandBy site code content = expandBy site other content := by
  have sameCodes := concatenation_congr (fun letter slot argument member =>
    @propertyCodeBy_congr site code other letter slot argument fun part inside =>
      same part (List.mem_flatMap.mpr ⟨_, member, inside⟩)) ""
  rw [expandBy, expandBy, sameCodes]

end Congruence

/-! ## Depth is never missing -/

/-- Texts that are written alike inside an expression give the same code. -/
theorem Spot.codeWith_eq_of_texts {text other : String → Emission String} {site : Site}
    {spot : Spot}
    (same : spot.expr.AllTexts fun value => text value = other value) :
    spot.codeWith text site = spot.codeWith other site := by
  induction spot using operandInduction with
  | step spot ih =>
    refine codeWith_congr ⟨fun _ _ => rfl, fun _ => rfl⟩ ?_ ?_
    · rintro value isText
      refine same value ?_
      rw [isText]
      exact Expr.self_mem_subterms _
    · intro part member
      exact ih part member fun value inside =>
        same value (Expr.mem_subterms_trans inside (smaller_of_mem_operands member).1)

/-- Any two depths beyond the length of a text give the same code. -/
theorem expandUpTo_eq {site : Site} {depth other : Nat} (enough : content.length < depth)
    (enoughOther : content.length < other) :
    expandUpTo site depth content = expandUpTo site other content := by
  induction depth generalizing content other with
  | zero => omega
  | succ depth ih =>
    obtain ⟨other, rfl⟩ := Nat.exists_eq_succ_of_ne_zero (Nat.ne_zero_of_lt enoughOther)
    rw [expandUpTo_succ, Nat.succ_eq_add_one, expandUpTo_succ]
    refine expandBy_congr fun part member => Spot.codeWith_eq_of_texts fun value inside => ?_
    obtain ⟨segment, among, isPart⟩ := List.mem_flatMap.mp member
    have shorter := Segment.allTexts_of_mem_spots among isPart value inside
    exact ih (by omega) (by omega)

/-- The code for a text is put together from the code for the spots inside
it. -/
theorem expand_eq_expandBy (site : Site) (content : String) :
    expand site content = expandBy site (Spot.code site) content := by
  rw [expand, expandUpTo_succ]
  refine expandBy_congr fun part member => Spot.codeWith_eq_of_texts fun value inside => ?_
  obtain ⟨segment, among, isPart⟩ := List.mem_flatMap.mp member
  exact expandUpTo_eq (Segment.allTexts_of_mem_spots among isPart value inside) (Nat.lt_succ_self _)

/-! ## Notable effects -/

/-- The code for what stands inside a property code. -/
def Embedding.code (code : Spot → Emission String) : Embedding → Emission String
  | expression source => embeddedCode (fun expr => code ⟨{}, .free, expr⟩) source
  | text content => code ⟨{}, .free, .text content⟩

section Notable

variable {site : Site} {code : Spot → Emission String}

/-- What cannot be read is reported. -/
theorem Embedding.notable_code (embedding : Embedding) :
    (embedding.code code).notable =
      match embedding.read with
      | .ok expr => (code ⟨{}, .free, expr⟩).notable
      | .error error => [.report error.line (.embedded error)] := by
  cases embedding with
  | expression source =>
    rw [Embedding.code, embeddedCode, read]
    cases Expr.parse source <;> rfl
  | text content => rfl

/-- The notable effects of a property code are those of what stands inside it. -/
theorem notable_propertyCodeBy (letter : Char) (slot argument : Option String) :
    (propertyCodeBy site code letter slot argument).notable =
      (Segment.code letter slot argument).embeddings.flatMap fun embedding =>
        (embedding.code code).notable := by
  unfold propertyCodeBy
  cases Segment.filled_code site letter slot argument with
  | constant emission unnoted none constantly =>
    rw [constantly, none, unnoted]
    rfl
  | embedding before source wrap unnoted inside embeds =>
    rw [embeds, inside]
    simp [unnoted, Embedding.code]
  | slice start length content inside slices =>
    rw [slices, inside]
    simp [Embedding.code]

theorem notable_concatenation (literal : String) (parts : List Segment) :
    (concatenation (propertyCodeBy site code) literal parts).notable =
      (parts.flatMap Segment.embeddings).flatMap fun embedding =>
        (embedding.code code).notable := by
  induction parts generalizing literal with
  | nil => rfl
  | cons first rest ih =>
    cases first with
    | text content => exact ih _
    | code letter slot argument =>
      rw [concatenation, Emission.notable_bind, List.flatMap_cons, List.flatMap_append,
        notable_propertyCodeBy]
      congr 1
      split
      · simp [ih]
      · exact ih _

end Notable

namespace Spot

/-- What stands inside the property codes of a spot that is a text. -/
def embeddings (spot : Spot) : List Embedding :=
  match spot.expr with
  | .text value => EventScript.embeddings value
  | _ => []

theorem embedded_eq (spot : Spot) : spot.embedded = spot.embeddings.flatMap Embedding.spots := by
  obtain ⟨context, position, expr⟩ := spot
  cases expr with
  | text value =>
    have parts : Segment.spots = fun segment => segment.embeddings.flatMap Embedding.spots :=
      funext Segment.spots_eq
    simp only [embedded, embeddings, EventScript.embeddings, parts, List.flatMap_assoc]
  | _ => rfl

/-- The notable effects of the code for a spot are those of the code for its
operands and for what stands inside its property codes, and the mark that the
dispatcher is called. -/
theorem notable_code (site : Site) (spot : Spot) :
    (spot.code site).notable =
      (spot.operands.flatMap fun part => (part.code site).notable) ++
        (spot.embeddings.flatMap fun embedding => (embedding.code (code site)).notable) ++
          spot.mark := by
  obtain ⟨context, position, expr⟩ := spot
  cases expr with
  | text content =>
    have asText : code site ⟨context, position, .text content⟩ = do
        let parts ← concatenation (propertyCodeBy site (code site)) "" (segments content)
        return joinConcatenation parts := by
      rw [code, codeWith, renderWith, expand_eq_expandBy, expandBy]
    have unmarked : mark ⟨context, position, .text content⟩ = [] := by cases position <;> rfl
    simp [asText, unmarked, notable_concatenation, operands, embeddings, EventScript.embeddings]
  | _ =>
    rw [code, notable_codeWith rfl]
    exact congrArg (· ++ mark _) (List.append_nil _).symm

/-- A notable effect that is no report comes from the spot itself or from a
part of it. -/
theorem mem_notable_code {site : Site} {spot : Spot} {effect : Effect}
    (notReport : ∀ line problem, effect ≠ .report line problem) :
    effect ∈ (spot.code site).notable ↔
      (effect = .dispatcher ∧ spot.SetsFlag) ∨
        ∃ part ∈ spot.parts, effect ∈ (part.code site).notable := by
  have inside (embedding : Embedding) : effect ∈ (embedding.code (code site)).notable ↔
      ∃ part ∈ embedding.spots, effect ∈ (part.code site).notable := by
    rw [Embedding.notable_code]
    cases readable : embedding.read with
    | ok expr => simp [Embedding.spots_of_read readable]
    | error error =>
      cases embedding with
      | expression source =>
        rw [Embedding.read] at readable
        simp [Embedding.spots, ofSource, readable, notReport]
      | text content => cases readable
  rw [notable_code, parts, embedded_eq]
  simp only [List.mem_append, List.mem_flatMap, mem_mark_iff, inside]
  grind

end Spot

/-! ## Generation goes down -/

namespace Expr

/-- One expression stands directly inside another: as a part of it, or in a
property code of a text. -/
inductive IsInside : Expr → Expr → Prop
  | part {inner outer : Expr} (isChild : inner ∈ outer.children) : IsInside inner outer
  | embedded {value : String} {segment : Segment} {spot : Spot} (among : segment ∈ segments value)
      (member : spot ∈ segment.spots) : IsInside spot.expr (.text value)

/-- Expressions inside others are followed only to a finite depth if this holds
of the texts. -/
theorem acc_of_texts {expr : Expr} (texts : expr.AllTexts fun value => Acc IsInside (.text value)) :
    Acc IsInside expr := by
  induction isSize : sizeOf expr using Nat.strongRecOn generalizing expr with
  | ind size ih =>
    cases expr with
    | text value => exact texts value (self_mem_subterms _)
    | _ =>
      refine .intro _ fun inner inside => ?_
      cases inside with
      | part isChild =>
        exact ih _ (isSize ▸ sizeOf_lt_of_mem_children isChild)
          (texts.of_mem_children isChild) rfl

theorem acc_text (value : String) : Acc IsInside (.text value) := by
  -- the texts inside a text are shorter
  induction isLength : value.length using Nat.strongRecOn generalizing value with
  | ind bound ih =>
    refine .intro _ fun inner inside => acc_of_texts fun text isText => ?_
    cases inside with
    | part isChild => cases isChild
    | embedded among member =>
      have shorter := Segment.allTexts_of_mem_spots among member text isText
      exact ih _ (isLength ▸ shorter) text rfl

theorem wellFounded_isInside : WellFounded IsInside :=
  ⟨fun _ => acc_of_texts fun value _ => acc_text value⟩

theorem reaches_of_mem_subterms {inner outer : Expr} (member : inner ∈ outer.subterms) :
    Relation.ReflTransGen IsInside inner outer := by
  induction wellFounded_isInside.apply outer with
  | intro outer _ ih =>
    rcases mem_subterms_iff.mp member with rfl | ⟨child, isChild, inChild⟩
    · exact .refl
    · exact (ih child (.part isChild) inChild).tail (.part isChild)

end Expr

namespace Spot

/-- The parts of a spot are expressions inside that of the spot. -/
theorem isInside_of_mem_parts {spot part : Spot} (member : part ∈ spot.parts) :
    Relation.TransGen Expr.IsInside part.expr spot.expr := by
  rcases List.mem_append.mp member with isOperand | isEmbedded
  · obtain ⟨inside, smaller⟩ := smaller_of_mem_operands isOperand
    rcases Relation.reflTransGen_iff_eq_or_transGen.mp (Expr.reaches_of_mem_subterms inside) with
      same | below
    · rw [same] at smaller
      exact absurd smaller (Nat.lt_irrefl _)
    · exact below
  · obtain ⟨context, position, expr⟩ := spot
    cases expr with
    | text value =>
      obtain ⟨segment, among, isPart⟩ := List.mem_flatMap.mp isEmbedded
      exact .single (.embedded among isPart)
    | _ => cases isEmbedded

/-- What holds of a spot whenever it holds of the spots further inside holds of
every spot. -/
@[elab_as_elim]
theorem insideInduction {motive : Spot → Prop}
    (step : ∀ spot : Spot, (∀ part : Spot,
      Relation.TransGen Expr.IsInside part.expr spot.expr → motive part) → motive spot)
    (spot : Spot) : motive spot :=
  (InvImage.wf Spot.expr Expr.wellFounded_isInside.transGen).induction spot step

/-- What holds of a spot whenever it holds of its parts holds of every spot. -/
@[elab_as_elim]
theorem partInduction {motive : Spot → Prop}
    (step : ∀ spot : Spot, (∀ part ∈ spot.parts, motive part) → motive spot)
    (spot : Spot) : motive spot :=
  insideInduction
    (fun spot inside => step spot fun part member => inside part (isInside_of_mem_parts member))
    spot

end Spot

end EventScript
