import EventScript.Proofs.Bundle.Unmarked

/-!
# Recovering the script of a bundle

The first place where a bundle opens a comment for a script is the one that the
bundle itself writes, since generated code is unmarked.  What is recovered is
therefore the contents of that comment, and it is the script if and only if the
comments inside the script are balanced in such a way that the comment ends
exactly behind the script.
-/

namespace EventScript

/-! ## Searching -/

/-- A pattern occurs if a text can be split at it. -/
theorem Text.occursIn_eq_isSome_splitAt? (pattern text : List Char) :
    Text.occursIn pattern text = (Text.splitAt? pattern text).isSome := by
  induction text with
  | nil => cases pattern <;> rfl
  | cons character rest ih =>
    rw [Text.occursIn, Text.splitAt?, ih]
    split
    · rename_i found
      simp [found]
    · rename_i notHere
      simp [notHere]

theorem Text.splitAt?_self_append {pattern : List Char} (nonempty : pattern ≠ [])
    (rest : List Char) : Text.splitAt? pattern (pattern ++ rest) = some ([], rest) := by
  obtain ⟨first, others, rfl⟩ := List.exists_cons_of_ne_nil nonempty
  have here : (first :: others).isPrefixOf (first :: others ++ rest) = true := by
    rw [List.isPrefixOf_iff_prefix]
    exact List.prefix_append _ _
  rw [List.cons_append] at here ⊢
  rw [Text.splitAt?, if_pos here, ← List.cons_append, List.drop_left]

namespace Bundle

variable {text : String} {rest : List Char}
variable (options : Options) (depth : Nat)

/-! ## The first mark -/

/-- The opening of the comment ends one line and holds the mark as the next. -/
theorem toList_sourceOpening : sourceOpening.toList = ['/', '*'] ++ '\n' :: (markLine ++ ['\n']) :=
  rfl

/-- Unmarked text in front of a text without the mark. -/
theorem Unmarked.not_marked (unmarked : Unmarked text) (notMarked : ¬markLine ++ ['\n'] <+: rest) :
    ¬markLine ++ ['\n'] <+: text.toList ++ rest := by
  obtain ⟨contents, plain, whole⟩ := unmarked
  rw [whole]
  cases contents with
  | nil => exact notMarked
  | cons first others =>
    rw [List.forall_mem_cons] at plain
    intro begins
    have lines : markLine ++ '\n' :: [] <+: first ++ '\n' :: (others.flatMap (Text.line 0) ++ rest) := by
      simpa [Text.line, Text.indentation] using begins
    exact plain.1.2 (Text.prefix_upTo (by decide) plain.1.1 lines).1.symm

/-- The opening does not begin in a line in front of a text without the mark. -/
theorem splitAt?_line {content : List Char} (noFeed : '\n' ∉ content)
    (notMarked : ¬markLine ++ ['\n'] <+: rest) :
    Text.splitAt? sourceOpening.toList (content ++ '\n' :: rest) =
      (Text.splitAt? sourceOpening.toList rest).map fun (before, behind) =>
        (content ++ '\n' :: before, behind) := by
  have notHere {content : List Char} (noFeed : '\n' ∉ content) :
      sourceOpening.toList.isPrefixOf (content ++ '\n' :: rest) = false := by
    rw [Bool.eq_false_iff, ne_eq, List.isPrefixOf_iff_prefix, toList_sourceOpening]
    exact fun begins => notMarked (Text.prefix_upTo (by decide) noFeed begins).2
  induction content with
  | nil =>
    have skipped := notHere noFeed
    rw [List.nil_append] at skipped ⊢
    rw [Text.splitAt?, skipped, if_neg Bool.false_ne_true]
    rfl
  | cons character others ih =>
    have skipped := notHere noFeed
    rw [List.cons_append] at skipped ⊢
    rw [Text.splitAt?, skipped, if_neg Bool.false_ne_true,
      ih fun member => noFeed (List.mem_cons_of_mem _ member), Option.map_map]
    rfl

/-- The opening does not begin in unmarked text. -/
theorem Unmarked.splitAt?_append (unmarked : Unmarked text)
    (notMarked : ¬markLine ++ ['\n'] <+: rest) :
    Text.splitAt? sourceOpening.toList (text.toList ++ rest) =
      (Text.splitAt? sourceOpening.toList rest).map fun (before, behind) =>
        (text.toList ++ before, behind) := by
  obtain ⟨contents, plain, whole⟩ := unmarked
  induction contents generalizing text with
  | nil =>
    rw [whole]
    exact Option.map_id'.symm
  | cons first others ih =>
    rw [List.forall_mem_cons] at plain
    have later : Unmarked (String.ofList (others.flatMap (Text.line 0))) :=
      ⟨others, plain.2, String.toList_ofList⟩
    have split := splitAt?_line plain.1.1 (later.not_marked notMarked)
    rw [ih plain.2 String.toList_ofList] at split
    rw [whole]
    simpa [Text.line, Text.indentation, Function.comp_def] using split

/-- A section of whole lines needs no further end. -/
theorem Unmarked.terminated_eq (unmarked : Unmarked text) : Bundle.terminated text = text := by
  obtain ⟨contents, _, whole⟩ := unmarked
  rw [Bundle.terminated, if_pos]
  rw [Bool.or_eq_true]
  rcases List.eq_nil_or_concat contents with rfl | ⟨others, last, rfl⟩
  · left
    rwa [String.isEmpty_iff, ← String.toList_eq_nil_iff]
  · right
    rw [Text.endsWith, whole, List.concat_eq_append, List.flatMap_append, List.flatMap_singleton,
      Text.line, ← List.append_assoc, List.getLast?_concat]
    rfl

theorem unmarked_side (clientSide : Bool) (source : String) :
    Unmarked (side options clientSide source) := by
  have unmarked := unmarked_convert { options with clientSide := clientSide } source
  rw [side, unmarked.terminated_eq]
  exact unmarked

/-- The code of a bundle is unmarked. -/
theorem unmarked_generated (source : String) : Unmarked (generated options source) := by
  have header : Unmarked clientHeader := ⟨["//#clientside".toList], by decide, rfl⟩
  rw [generated]
  split
  · exact ((unmarked_side options false _).append header).append (unmarked_side options true _)
  · exact unmarked_side options false source

/-- What is recovered from a bundle is read behind its own opening. -/
theorem recover_ofSource (source : String) :
    recover (ofSource options source) =
      String.ofList ((readComment 0 (source.toList ++ sourceClosing.toList)).getD []) := by
  have header : Unmarked serverHeader := ⟨["//sgscript".toList], by decide, rfl⟩
  have notMarked : ¬markLine ++ ['\n'] <+:
      sourceOpening.toList ++ (source.toList ++ sourceClosing.toList) := by
    rintro ⟨_, same⟩
    exact absurd (List.cons.inj (List.cons.inj same).2).1 (by decide)
  have unmarked : Unmarked (serverHeader ++ generated options source) :=
    header.append (unmarked_generated options source)
  have split := unmarked.splitAt?_append notMarked
  rw [Text.splitAt?_self_append (by decide), Option.map_some] at split
  have bundle : (ofSource options source).toList =
      (serverHeader ++ generated options source).toList ++
        (sourceOpening.toList ++ (source.toList ++ sourceClosing.toList)) := by
    simp only [ofSource, String.toList_append, List.append_assoc]
  rw [recover, bundle, split]

/-! ## The scan for the end of a comment -/

/-- The offset at which a comment ends that is open `depth` times: the first
closing mark by which all openings are closed.  The text is taken byte by byte,
and a mark is skipped as a whole. -/
def commentEnd? : (depth : Nat) → List UInt8 → Option Nat
  | depth, 0x2F :: 0x2A :: rest => (commentEnd? (depth + 1) rest).map (· + 2)
  | depth, 0x2A :: 0x2F :: rest =>
    if depth == 1 then some 0 else (commentEnd? (depth - 1) rest).map (· + 2)
  | depth, _ :: rest => (commentEnd? depth rest).map (· + 1)
  | _, [] => none

/-- Bytes without a slash or a star are skipped one by one. -/
theorem commentEnd?_skip {bytes : List UInt8} (noSlash : 0x2F ∉ bytes) (noStar : 0x2A ∉ bytes)
    (rest : List UInt8) :
    commentEnd? depth (bytes ++ rest) = (commentEnd? depth rest).map (· + bytes.length) := by
  induction bytes with
  | nil => exact Option.map_id'.symm
  | cons byte others ih =>
    rw [List.mem_cons, not_or] at noSlash noStar
    rw [List.cons_append, commentEnd?, ih noSlash.2 noStar.2, Option.map_map]
    · rfl
    · rintro rest rfl
      exact absurd rfl noSlash.1
    · rintro rest rfl
      exact absurd rfl noStar.1

/-- A character that begins no mark is skipped, all its bytes at once. -/
theorem commentEnd?_encode_cons {character : Char}
    (notOpen : ∀ others, character = '/' → rest = '*' :: others → False)
    (notClose : ∀ others, character = '*' → rest = '/' :: others → False) :
    commentEnd? depth ((character :: rest).flatMap String.utf8EncodeChar) =
      (commentEnd? depth (rest.flatMap String.utf8EncodeChar)).map
        (· + (String.utf8EncodeChar character).length) := by
  rw [List.flatMap_cons]
  by_cases slash : character = '/'
  · subst slash
    change commentEnd? depth (0x2F :: rest.flatMap _) = _
    rw [commentEnd?]
    · rfl
    · intro others _ encoded
      obtain ⟨behind, begins⟩ := Text.exists_cons_of_utf8_cons '*' (by decide) encoded
      exact notOpen behind rfl begins
    · rintro _ ⟨⟩
  · by_cases star : character = '*'
    · subst star
      change commentEnd? depth (0x2A :: rest.flatMap _) = _
      rw [commentEnd?]
      · rfl
      · rintro _ ⟨⟩
      · intro others _ encoded
        obtain ⟨behind, begins⟩ := Text.exists_cons_of_utf8_cons '/' (by decide) encoded
        exact notClose behind rfl begins
    · exact commentEnd?_skip depth (Text.notMem_utf8EncodeChar slash (by decide))
        (Text.notMem_utf8EncodeChar star (by decide)) _

/-- The scan over bytes ends where the contents of the comment end. -/
theorem commentEnd?_encode (text : List Char) :
    commentEnd? (depth + 1) (text.flatMap String.utf8EncodeChar) =
      (readComment depth text).map fun content =>
        (content.flatMap String.utf8EncodeChar).length := by
  fun_induction readComment depth text with
  | case1 => rfl
  | case2 depth rest ih =>
    change commentEnd? (depth + 1) (0x2F :: 0x2A :: rest.flatMap _) = _
    rw [commentEnd?, ih, Option.map_map, Option.map_map]
    rfl
  | case3 depth rest isLast =>
    change commentEnd? (depth + 1) (0x2A :: 0x2F :: rest.flatMap _) = _
    rw [commentEnd?, if_pos (by simpa using isLast)]
    rfl
  | case4 depth rest notLast ih =>
    have deeper : depth - 1 + 1 = depth := by
      have positive : depth ≠ 0 := by simpa using notLast
      omega
    rw [deeper] at ih
    change commentEnd? (depth + 1) (0x2A :: 0x2F :: rest.flatMap _) = _
    rw [commentEnd?, if_neg (by simpa using notLast), Nat.add_sub_cancel, ih,
      Option.map_map, Option.map_map]
    rfl
  | case5 depth character rest notOpen notClose ih =>
    rw [commentEnd?_encode_cons _ notOpen notClose, ih, Option.map_map,
      Option.map_map]
    congr 1
    funext content
    simp [Nat.add_comm]

/-- The contents of a comment stand at the front of the text. -/
theorem isPrefix_of_readComment {depth : Nat} {text content : List Char}
    (read : readComment depth text = some content) : content <+: text := by
  fun_induction readComment depth text generalizing content with
  | case1 => cases read
  | case2 depth rest ih
  | case4 depth rest notLast ih | case5 depth character rest notOpen notClose ih =>
    obtain ⟨inner, readInner, rfl⟩ := Option.map_eq_some_iff.mp read
    simpa using ih readInner
  | case3 depth rest isLast =>
    cases read
    exact List.nil_prefix

/-- The comment around a script ends behind the script if the script is read as
its contents. -/
theorem commentEnd?_eq_length_iff (source : List Char) :
    commentEnd? 1 ((source ++ sourceClosing.toList).flatMap String.utf8EncodeChar) =
        some (source.flatMap String.utf8EncodeChar).length ↔
      readComment 0 (source ++ sourceClosing.toList) = some source := by
  rw [commentEnd?_encode, Option.map_eq_some_iff]
  constructor
  · rintro ⟨content, read, sameLength⟩
    have begins := isPrefix_of_readComment read
    rcases List.prefix_or_prefix_of_prefix begins (List.prefix_append source _) with
      within | beyond
    · rw [read, Text.eq_of_isPrefix_of_length_eq within sameLength]
    · rw [read, Text.eq_of_isPrefix_of_length_eq beyond sameLength.symm]
  · intro read
    exact ⟨source, read, rfl⟩

/-! ## Recovery -/

/-- A script is recovered from its bundle if and only if the comment around it,
scanned byte by byte, ends exactly behind it.  The generated code itself never
opens a comment that could be taken for the one with the script. -/
theorem recover_ofSource_eq_iff (options : Options) (source : String) :
    (recover (ofSource options source) = source ↔
        commentEnd? 1 (utf8Bytes (source ++ sourceClosing)) = some source.utf8ByteSize) ∧
      Text.contains (generated options source) sourceOpening = false := by
  constructor
  · rw [utf8Bytes, String.toList_append, Text.utf8ByteSize_eq, commentEnd?_eq_length_iff,
      recover_ofSource]
    constructor
    · intro recovered
      have contents := congrArg String.toList recovered
      rw [String.toList_ofList] at contents
      cases read : readComment 0 (source.toList ++ sourceClosing.toList) with
      | some content =>
        rw [read, Option.getD_some] at contents
        rw [contents]
      | none =>
        rw [read, Option.getD_none] at contents
        rw [← contents] at read
        cases read
    · intro read
      rw [read, Option.getD_some, String.ofList_toList]
  · have split := (unmarked_generated options source).splitAt?_append
      (by simp : ¬markLine ++ ['\n'] <+: [])
    rw [List.append_nil] at split
    rw [Text.contains, Text.occursIn_eq_isSome_splitAt?, split]
    rfl

end Bundle

end EventScript
