import EventScript.Proofs.Grammar.Soundness

/-!
# Texts in expressions

Every text in an expression that is read is a quoted text or an unquoted
argument of the source.  No text is longer than the source it was read from,
which bounds how deeply texts can be nested in texts.
-/

namespace EventScript

variable {value : String}

namespace Expr

/-- Every text in an expression has a property. -/
def AllTexts (property : String → Prop) (expr : Expr) : Prop :=
  ∀ value, text value ∈ expr.subterms → property value

theorem allTexts_text {property : String → Prop} :
    (text value).AllTexts property ↔ property value := by
  simp [AllTexts, subterms]

theorem AllTexts.of_mem_children {property : String → Prop} {expr child : Expr}
    (all : expr.AllTexts property) (isChild : child ∈ expr.children) : child.AllTexts property :=
  fun value inside => all value (mem_subterms_iff.mpr (.inr ⟨child, isChild, inside⟩))

/-- A text that is spelled is a text token or an unquoted argument. -/
theorem Spells.text_mem {taken : List Taken} {tokens : List Token} (spells : Spells taken tokens)
    (member : .text value ∈ tokens) :
    .token (.text value) ∈ taken ∨ ∃ seen, .raw seen value ∈ taken := by
  induction spells with
  | nil => cases member
  | token token _ ih => grind
  | raw argument _ _ _ ih => grind

end Expr

/-- Text tokens have a property. -/
def TextToken (property : String → Prop) (token : Token) : Prop :=
  ∀ value, token = .text value → property value

/-! ## Texts of a source -/

/-- A text that stands in a source: a quoted text, with its escapes resolved, or
a part of the source. -/
def IsTextOf (source : List Char) (value : String) : Prop :=
  (∃ rest left, rest <:+ source ∧ readQuoted rest = some (value.toList, left)) ∨
    value.toList <:+: source

/-- A stream over a source, whose current token is a text only if the text
stands in the source. -/
structure Stream.Over (source : List Char) (stream : Stream) : Prop where
  start : stream.start.rest <:+ source
  next : stream.next.rest <:+ source
  current : TextToken (IsTextOf source) stream.current

/-- A text token is a quoted text. -/
theorem isTextOf_of_readToken {source text left : List Char} (inside : text <:+ source)
    (read : readToken text = (.ok (.text value), left)) : IsTextOf source value := by
  cases text with
  | nil => cases read
  | cons character rest =>
    rw [readToken] at read
    split at read
    · cases read
    · split at read
      · -- a word is a keyword or a name
        have isWord := (Prod.mk.inj read).1
        unfold Token.ofWord at isWord
        split at isWord <;> cases isWord
      · split at read
        · split at read
          · next readInner =>
            cases read
            refine .inl ⟨rest, left, (List.suffix_cons _ _).trans inside, ?_⟩
            rw [readInner, String.toList_ofList]
          · cases read
        · split at read <;> cases read

/-- Scanning goes on behind what was scanned. -/
theorem Cursor.scan_next_isSuffix (cursor : Cursor) : cursor.scan.next.rest <:+ cursor.rest := by
  rw [scan]
  split
  · exact List.nil_suffix
  · next rest gap => exact (isSuffix_of_readToken rest).trans (isSuffix_of_skipGap gap)

theorem Cursor.over_of_scan {source : List Char} {cursor : Cursor} {token : Token}
    (inside : cursor.rest <:+ source) (scanned : cursor.scan.outcome = .ok token)
    (findings : List Finding) :
    Stream.Over source ⟨token, cursor.scan.start, cursor.scan.next, findings⟩ := by
  rw [scan] at scanned ⊢
  split at scanned
  · cases scanned
  · next rest gap =>
    have start := (isSuffix_of_skipGap gap).trans inside
    refine ⟨start, (isSuffix_of_readToken rest).trans start, ?_⟩
    rintro value rfl
    change (readToken rest).1.mapError _ = .ok (.text value) at scanned
    cases outcome : (readToken rest).1 with
    | error fault =>
      rw [outcome] at scanned
      cases scanned
    | ok found =>
      rw [outcome] at scanned
      cases scanned
      exact isTextOf_of_readToken start (Prod.ext outcome rfl)

theorem Stream.over_readFrom {source : List Char} {cursor : Cursor}
    (inside : cursor.rest <:+ source) (findings : List Finding) :
    Stream.Over source (Stream.readFrom cursor findings) := by
  rw [readFrom]
  generalize cursor.rest.length + 1 = bound
  induction bound generalizing cursor findings with
  | zero => exact ⟨inside, inside, by rintro _ ⟨⟩⟩
  | succ bound ih =>
    rw [seek]
    split
    · next token scanned => exact Cursor.over_of_scan inside scanned findings
    · exact ih (cursor.scan_next_isSuffix.trans inside) _

theorem Text.trimChars_isInfix (text : List Char) : trimChars text <:+: text :=
  (trimEnd_isPrefix _).isInfix.trans (trimStart_isSuffix text).isInfix

theorem Stream.steady_over (source : List Char) :
    Parser.Steady (Stream.Over source) (TextToken (IsTextOf source)) (IsTextOf source) where
  current _ covers := covers.current
  advance stream covers := over_readFrom covers.next stream.findings
  takeRaw stream covers := by
    have split := spanRaw_append 0 false stream.start.rest
    have behind : (spanRaw 0 false stream.start.rest).2 <:+ stream.start.rest := ⟨_, split⟩
    have taken : (spanRaw 0 false stream.start.rest).1 <:+: stream.start.rest :=
      List.IsPrefix.isInfix ⟨_, split⟩
    refine ⟨over_readFrom (behind.trans covers.start) stream.findings, .inr ?_⟩
    change (String.ofList (Text.trimChars _)).toList <:+: source
    rw [String.toList_ofList]
    exact (Text.trimChars_isInfix _).trans (taken.trans covers.start.isInfix)

/-- Every text in an expression stands in the source that the expression was
read from. -/
theorem Expr.isTextOf_of_parse {source : String} {expr : Expr}
    (parsed : Expr.parse source = .ok expr) : expr.AllTexts (IsTextOf source.toList) := by
  have covers : (Stream.ofText source.toList).Over source.toList :=
    @Stream.over_readFrom _ (.ofText source.toList) (List.suffix_refl _) []
  obtain ⟨-, after, run, -⟩ := parse_eq_ok_iff.mp parsed
  obtain ⟨taken, gives, isOperand, -⟩ := Parser.ensures_expression (Stream.standing_ofText _) run
  obtain ⟨-, tokens, arguments⟩ := gives.kept (Stream.steady_over source.toList) covers
  intro value inside
  rcases isOperand.spells.text_mem (text_mem_tokens inside) with isToken | ⟨seen, isRaw⟩
  · exact tokens _ isToken value rfl
  · exact arguments seen value isRaw

/-! ## Sizes of texts -/

/-- The sum of the weights of the characters of a text. -/
def weigh (weight : Char → Nat) (text : List Char) : Nat :=
  text.foldr (fun character total => weight character + total) 0

theorem weigh_cons (weight : Char → Nat) (character : Char) (text : List Char) :
    weigh weight (character :: text) = weight character + weigh weight text :=
  rfl

theorem weigh_append (weight : Char → Nat) (first second : List Char) :
    weigh weight (first ++ second) = weigh weight first + weigh weight second := by
  induction first with
  | nil => exact (Nat.zero_add _).symm
  | cons character rest ih =>
    rw [List.cons_append, weigh_cons, weigh_cons, ih, Nat.add_assoc]

theorem weigh_one (text : List Char) : weigh (fun _ => 1) text = text.length := by
  induction text with
  | nil => rfl
  | cons character rest ih =>
    rw [weigh_cons, ih, List.length_cons, Nat.add_comm]

theorem weigh_le_of_isInfix {weight : Char → Nat} {part text : List Char} (inside : part <:+: text) :
    weigh weight part ≤ weigh weight text := by
  obtain ⟨before, behind, rfl⟩ := inside
  rw [weigh_append, weigh_append]
  omega

/-- A measure of texts in which no escape is smaller than what it stands for. -/
structure Weighs (weight : Char → Nat) : Prop where
  escape : ∀ character, weight (unescape character) ≤ weight '\\' + weight character

theorem weighs_one : Weighs fun _ => 1 where
  escape _ := Nat.le_add_left 1 1

theorem weighs_utf8Size : Weighs Char.utf8Size where
  escape character := by
    unfold unescape
    split
    · decide
    · decide
    · decide
    · exact Nat.le_add_left _ _

variable {weight : Char → Nat} (weighs : Weighs weight)

include weighs

/-- A quoted text is no heavier than its spelling. -/
theorem weigh_le_of_readQuoted {text value left : List Char}
    (read : readQuoted text = some (value, left)) : weigh weight value ≤ weigh weight text := by
  fun_induction readQuoted text generalizing value with
  | case1 => cases read
  | case2 others =>
    cases read
    exact Nat.zero_le _
  | case3 character others ih =>
    obtain ⟨inner, readInner, rfl⟩ := exists_of_map_fst read
    have lighter := ih readInner
    have escaped := weighs.escape character
    rw [weigh_cons, weigh_cons, weigh_cons]
    omega
  | case4 character others _ _ ih =>
    obtain ⟨inner, readInner, rfl⟩ := exists_of_map_fst read
    have lighter := ih readInner
    rw [weigh_cons, weigh_cons]
    omega

theorem IsTextOf.weigh_le {source : List Char} {value : String} (isText : IsTextOf source value) :
    weigh weight value.toList ≤ weigh weight source := by
  rcases isText with ⟨rest, left, inside, read⟩ | inside
  · exact Nat.le_trans (weigh_le_of_readQuoted weighs read) (weigh_le_of_isInfix inside.isInfix)
  · exact weigh_le_of_isInfix inside

/-- No text in an expression is heavier than the source of the expression. -/
theorem Expr.weigh_le_of_parse {source : String} {expr : Expr}
    (parsed : Expr.parse source = .ok expr) :
    expr.AllTexts fun value => weigh weight value.toList ≤ weigh weight source.toList :=
  fun value inside => (Expr.isTextOf_of_parse parsed value inside).weigh_le weighs

omit weighs in
/-- No text in an expression is longer than the source of the expression. -/
theorem Expr.length_le_of_parse {source : String} {expr : Expr}
    (parsed : Expr.parse source = .ok expr) :
    expr.AllTexts fun value => value.length ≤ source.length := by
  intro value inside
  have bounded := Expr.weigh_le_of_parse weighs_one parsed value inside
  rwa [weigh_one, weigh_one, String.length_toList, String.length_toList] at bounded

end EventScript
