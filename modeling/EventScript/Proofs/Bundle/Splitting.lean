import EventScript.Proofs.Bundle.Recovery

/-!
# Splitting a script

A script is split at its first mark for the client, in any case of letters, and
the two parts are converted apart from each other.  `MarkAt` says where marks
begin: at the offsets at which the lower-case copy of the script, taken byte by
byte, goes on with a mark.  Such an offset never lies inside a character, so the
script can be cut there.
-/

namespace EventScript

variable {text : List Char}

/-! ## Lower-case bytes -/

/-- A byte, or the one for the lower-case letter if it stands for an upper-case
letter. -/
def lowerByte (byte : UInt8) : UInt8 :=
  if 0x41 ≤ byte ∧ byte ≤ 0x5A then byte + 0x20 else byte

theorem lowerByte_eq_self {byte : UInt8} (notUpper : ¬(65 ≤ byte.toNat ∧ byte.toNat ≤ 90)) :
    lowerByte byte = byte := by
  rw [lowerByte, if_neg]
  rwa [UInt8.le_iff_toNat_le, UInt8.le_iff_toNat_le]

/-- Lower-case letters are spelled by lower-case bytes. -/
theorem map_lowerByte_utf8EncodeChar (character : Char) :
    (String.utf8EncodeChar character).map lowerByte = String.utf8EncodeChar character.toLower := by
  by_cases upper : character.val ≥ 'A'.val ∧ character.val ≤ 'Z'.val
  · have above : 65 ≤ character.val.toNat := upper.1
    have below : character.val.toNat ≤ 90 := upper.2
    have lowered : character.toLower.val.toNat = character.val.toNat + 32 := by
      rw [show character.toLower = _ from dif_pos upper]
      change (character.val.toNat + 32) % 4294967296 = _
      omega
    have isUpper : 0x41 ≤ UInt8.ofNat character.val.toNat ∧
        UInt8.ofNat character.val.toNat ≤ 0x5A := by
      rw [UInt8.le_iff_toNat_le, UInt8.le_iff_toNat_le, UInt8.toNat_ofNat']
      change 65 ≤ _ ∧ _ ≤ 90
      omega
    rw [String.utf8EncodeChar, String.utf8EncodeChar, lowered, if_pos (by omega),
      if_pos (by omega), List.map_singleton, lowerByte, if_pos isUpper, UInt8.ofNat_add]
    rfl
  · have kept : ∀ byte ∈ String.utf8EncodeChar character, lowerByte byte = byte := by
      intro byte member
      refine lowerByte_eq_self ?_
      rintro ⟨above, below⟩
      have same := Text.toNat_eq_of_mem_utf8EncodeChar member (by omega)
      rw [← same] at above below
      exact upper ⟨above, below⟩
    have unchanged : character.toLower = character := dif_neg upper
    rw [unchanged, List.map_congr_left kept, List.map_id']

/-- The lower-case copy of a text, byte by byte and character by character. -/
theorem map_lowerByte_flatMap (text : List Char) :
    (text.flatMap String.utf8EncodeChar).map lowerByte =
      (text.map Char.toLower).flatMap String.utf8EncodeChar := by
  rw [List.map_flatMap, List.flatMap_map]
  congr 1
  funext character
  exact map_lowerByte_utf8EncodeChar character

namespace Text

theorem utf8EncodeChar_of_ascii {character : Char} (ascii : character.toNat < 128) :
    String.utf8EncodeChar character = [UInt8.ofNat character.toNat] := by
  have small : character.val.toNat ≤ 127 := Nat.le_of_lt_succ ascii
  rw [String.utf8EncodeChar, if_pos small]
  rfl

/-- A text that begins with the bytes of a text of characters below 128 begins
with its characters. -/
theorem isPrefix_of_utf8_isPrefix {mark : List Char}
    (ascii : ∀ character ∈ mark, character.toNat < 128)
    (begins : mark.flatMap String.utf8EncodeChar <+: text.flatMap String.utf8EncodeChar) :
    mark <+: text := by
  induction mark generalizing text with
  | nil => exact List.nil_prefix
  | cons first others ih =>
    rw [List.forall_mem_cons] at ascii
    have encoded := utf8EncodeChar_of_ascii ascii.1
    obtain ⟨behind, split⟩ := begins
    rw [List.flatMap_cons, encoded, List.append_assoc, List.singleton_append] at split
    obtain ⟨rest, rfl⟩ := exists_cons_of_utf8_cons first ascii.1 split.symm
    rw [List.flatMap_cons, encoded, List.singleton_append, List.cons.injEq] at split
    exact List.cons_prefix_cons.mpr ⟨rfl, ih ascii.2 ⟨behind, split.2⟩⟩

/-- A byte below 128 stands between two characters: a text can be cut in front of
it. -/
theorem exists_cut_of_drop_bytes {offset : Nat} {byte : UInt8} {others : List UInt8}
    (ascii : byte.toNat < 128)
    (behind : (text.flatMap String.utf8EncodeChar).drop offset = byte :: others) :
    ∃ front rest, text = front ++ rest ∧ (front.flatMap String.utf8EncodeChar).length = offset ∧
      rest.flatMap String.utf8EncodeChar = byte :: others := by
  induction text generalizing offset with
  | nil => simp at behind
  | cons character rest ih =>
    rcases Nat.eq_zero_or_pos offset with rfl | positive
    · exact ⟨[], character :: rest, rfl, rfl, behind⟩
    rw [List.flatMap_cons, List.drop_append] at behind
    by_cases inside : offset < (String.utf8EncodeChar character).length
    · -- the byte would be a later one of a character of several bytes
      have nonempty : (String.utf8EncodeChar character).drop offset ≠ [] := by
        rwa [ne_eq, List.drop_eq_nil_iff, Nat.not_le]
      obtain ⟨first, more, isFirst⟩ := List.exists_cons_of_ne_nil nonempty
      rw [isFirst, List.cons_append, List.cons.injEq] at behind
      have member : byte ∈ String.utf8EncodeChar character :=
        List.mem_of_mem_drop (behind.1 ▸ isFirst ▸ List.mem_cons_self)
      have small := toNat_eq_of_mem_utf8EncodeChar member ascii
      rw [utf8EncodeChar_of_ascii (by omega), List.length_singleton] at inside
      omega
    · rw [List.drop_eq_nil_of_le (by omega), List.nil_append] at behind
      obtain ⟨front, others, rfl, size, bytes⟩ := ih behind
      refine ⟨character :: front, others, rfl, ?_, bytes⟩
      rw [List.flatMap_cons, List.length_append, size]
      omega

theorem length_bytes_le_of_isPrefix {first second : List Char} (begins : first <+: second) :
    (first.flatMap String.utf8EncodeChar).length ≤
      (second.flatMap String.utf8EncodeChar).length := by
  obtain ⟨rest, rfl⟩ := begins
  rw [List.flatMap_append, List.length_append]
  exact Nat.le_add_right _ _

end Text

namespace Bundle

variable {server client : List Char} {source : String}

/-! ## Marks -/

/-- A mark begins at an offset of a script: the lower-case copy of the script goes
on with the bytes of a mark. -/
def MarkAt (source : String) (offset : Nat) : Prop :=
  ∃ mark ∈ clientMarks, utf8Bytes mark <+: ((utf8Bytes source).map lowerByte).drop offset

/-- A text is a mark, in any case of letters. -/
def IsMark (text : List Char) : Prop :=
  String.ofList (text.map Char.toLower) ∈ clientMarks

/-- A text begins with a mark, in any case of letters. -/
def BeginsMarked (text : List Char) : Prop :=
  ∃ mark ∈ clientMarks, mark.toList <+: text.map Char.toLower

theorem ascii_of_mem_clientMarks :
    ∀ mark ∈ clientMarks, ∀ character ∈ mark.toList, character.toNat < 128 := by
  simp [clientMarks]

/-- Every mark begins with a slash. -/
theorem head?_of_mem_clientMarks : ∀ mark ∈ clientMarks, (utf8Bytes mark).head? = some 0x2F := by
  decide +kernel

/-- No mark is the beginning of another one. -/
theorem eq_of_marks_isPrefix {first second : String} (isMark : first ∈ clientMarks)
    (isMarkSecond : second ∈ clientMarks) (begins : first.toList <+: text)
    (beginsSecond : second.toList <+: text) : first = second := by
  have apart : ∀ first ∈ clientMarks, ∀ second ∈ clientMarks,
      first.toList <+: second.toList → first = second := by decide
  rcases List.prefix_or_prefix_of_prefix begins beginsSecond with within | beyond
  · exact apart first isMark second isMarkSecond within
  · exact (apart second isMarkSecond first isMark beyond).symm

theorem beginsWith_iff {mark : List Char} :
    beginsWith mark text = true ↔ mark <+: text.map Char.toLower := by
  rw [beginsWith, beq_iff_eq, List.prefix_iff_eq_take, ← List.map_take, eq_comm]

theorem markHere?_eq_none_iff : markHere? text = none ↔ ¬BeginsMarked text := by
  simp [BeginsMarked, markHere?, beginsWith_iff]

theorem mark_of_markHere? {mark : String} (found : markHere? text = some mark) :
    mark ∈ clientMarks ∧ mark.toList <+: text.map Char.toLower := by
  rw [markHere?] at found
  have here := List.find?_some found
  exact ⟨List.mem_of_find?_eq_some found, beginsWith_iff.mp here⟩

/-- A text that begins with a mark can be cut behind it. -/
theorem isMark_take {mark : String} (isMark : mark ∈ clientMarks)
    (begins : mark.toList <+: text.map Char.toLower) : IsMark (text.take mark.toList.length) := by
  rw [List.prefix_iff_eq_take, ← List.map_take] at begins
  rwa [IsMark, ← begins, String.ofList_toList]

theorem lower_isPrefix (mark rest : List Char) :
    (String.ofList (mark.map Char.toLower)).toList <+: (mark ++ rest).map Char.toLower := by
  rw [String.toList_ofList, List.map_append]
  exact List.prefix_append _ _

/-! ## The split -/

/-- A text is cut at its first mark: every mark begins where the part for the
server is over, or later. -/
structure CutAtMark (text server mark client : List Char) : Prop where
  split : text = server ++ (mark ++ client)
  isMark : IsMark mark
  first : ∀ front rest, text = front ++ rest → BeginsMarked rest → server <+: front

/-- There is only one cut at the first mark. -/
theorem CutAtMark.unique {mark otherServer otherMark otherClient : List Char}
    (cut : CutAtMark text server mark client)
    (other : CutAtMark text otherServer otherMark otherClient) :
    server = otherServer ∧ client = otherClient := by
  have marked {mark : List Char} (isMark : IsMark mark) (rest : List Char) :
      BeginsMarked (mark ++ rest) := ⟨_, isMark, lower_isPrefix mark rest⟩
  have within := cut.first _ _ other.split (marked other.isMark _)
  have beyond := other.first _ _ cut.split (marked cut.isMark _)
  obtain rfl := within.eq_of_length_le beyond.length_le
  have same := cut.split.symm.trans other.split
  rw [List.append_cancel_left_eq] at same
  have begins := lower_isPrefix mark client
  rw [same] at begins
  have sameMark :=
    eq_of_marks_isPrefix cut.isMark other.isMark begins (lower_isPrefix otherMark otherClient)
  have sameLength : mark.length = otherMark.length := by
    simpa using congrArg String.length sameMark
  exact ⟨rfl, (List.append_inj same sameLength).2⟩

/-- A script is split at its first mark. -/
theorem exists_cutAtMark_of_splitSource (split : splitSource text = some (server, client)) :
    ∃ mark, CutAtMark text server mark client := by
  fun_induction splitSource text generalizing server client with
  | case1 => cases split
  | case2 character rest mark found =>
    obtain ⟨rfl, rfl⟩ := Prod.mk.inj (Option.some.inj split)
    obtain ⟨isMark, begins⟩ := mark_of_markHere? found
    exact ⟨_, (List.take_append_drop _ _).symm, isMark_take isMark begins,
      fun _ _ _ _ => List.nil_prefix⟩
  | case3 character rest notHere ih =>
    obtain ⟨later, splitRest, rfl⟩ := exists_of_map_fst split
    obtain ⟨mark, cut, isMark, first⟩ := ih splitRest
    refine ⟨mark, congrArg (character :: ·) cut, isMark, fun front others isSplit marked => ?_⟩
    cases front with
    | nil =>
      rw [← List.nil_append others, ← isSplit] at marked
      exact absurd marked (markHere?_eq_none_iff.mp notHere)
    | cons next front =>
      obtain ⟨rfl, splitLater⟩ := List.cons.inj isSplit
      exact List.cons_prefix_cons.mpr ⟨rfl, first front others splitLater marked⟩

/-- A script that is not split has no mark. -/
theorem not_beginsMarked_of_splitSource (whole : splitSource text = none) {front rest : List Char}
    (split : text = front ++ rest) : ¬BeginsMarked rest := by
  fun_induction splitSource text generalizing front with
  | case1 =>
    obtain ⟨-, rfl⟩ := List.append_eq_nil_iff.mp split.symm
    exact markHere?_eq_none_iff.mp rfl
  | case2 => cases whole
  | case3 character others notHere ih =>
    cases front with
    | nil =>
      rw [List.nil_append] at split
      exact split ▸ markHere?_eq_none_iff.mp notHere
    | cons next front =>
      exact ih (Option.map_eq_none_iff.mp whole) (List.cons.inj split).2

/-- A cut at the first mark is where a script is split. -/
theorem CutAtMark.splitSource_eq {mark : List Char} (cut : CutAtMark text server mark client) :
    splitSource text = some (server, client) := by
  cases split : splitSource text with
  | none =>
    have marked : BeginsMarked (mark ++ client) := ⟨_, cut.isMark, lower_isPrefix mark client⟩
    exact absurd marked (not_beginsMarked_of_splitSource split cut.split)
  | some parts =>
    obtain ⟨found, cutThere⟩ := exists_cutAtMark_of_splitSource split
    obtain ⟨rfl, rfl⟩ := cut.unique cutThere
    rfl

/-! ## Offsets of marks -/

/-- Marks begin between two characters. -/
theorem markAt_iff {offset : Nat} :
    MarkAt source offset ↔ ∃ front rest, source.toList = front ++ rest ∧
      (front.flatMap String.utf8EncodeChar).length = offset ∧ BeginsMarked rest := by
  have lowered : (utf8Bytes source).map lowerByte =
      (source.toList.map Char.toLower).flatMap String.utf8EncodeChar := map_lowerByte_flatMap _
  have size (front : List Char) :
      ((front.map Char.toLower).flatMap String.utf8EncodeChar).length =
        (front.flatMap String.utf8EncodeChar).length := by
    rw [← map_lowerByte_flatMap, List.length_map]
  rw [MarkAt, lowered]
  constructor
  · rintro ⟨mark, isMark, begins⟩
    obtain ⟨others, encoded⟩ := List.head?_eq_some_iff.mp (head?_of_mem_clientMarks mark isMark)
    obtain ⟨behind, split⟩ := begins
    have cut := split.symm
    rw [encoded, List.cons_append] at cut
    obtain ⟨front, rest, isSplit, isSize, bytes⟩ := Text.exists_cut_of_drop_bytes (by decide) cut
    obtain ⟨front, rest, isSource, rfl, rfl⟩ := List.map_eq_append_iff.mp isSplit
    refine ⟨front, rest, isSource, (size front).symm.trans isSize, mark, isMark, ?_⟩
    refine Text.isPrefix_of_utf8_isPrefix (ascii_of_mem_clientMarks mark isMark) ⟨behind, ?_⟩
    rw [bytes, ← List.cons_append, ← encoded, utf8Bytes]
  · rintro ⟨front, rest, split, rfl, mark, isMark, ⟨behind, begins⟩⟩
    refine ⟨mark, isMark, behind.flatMap String.utf8EncodeChar, ?_⟩
    rw [split, List.map_append, List.flatMap_append, ← size, List.drop_left, ← begins,
      List.flatMap_append, utf8Bytes]

/-- A script holds a mark exactly if it is split. -/
theorem exists_markAt_iff :
    (∃ offset, MarkAt source offset) ↔ splitSource source.toList ≠ none := by
  constructor
  · rintro ⟨offset, marked⟩ whole
    obtain ⟨front, rest, isSplit, -, begins⟩ := markAt_iff.mp marked
    exact not_beginsMarked_of_splitSource whole isSplit begins
  · intro isSplit
    obtain ⟨⟨server, client⟩, split⟩ := Option.ne_none_iff_exists'.mp isSplit
    obtain ⟨mark, cut⟩ := exists_cutAtMark_of_splitSource split
    exact ⟨_, markAt_iff.mpr ⟨server, mark ++ client, cut.split, rfl, _, cut.isMark,
      lower_isPrefix mark client⟩⟩

/-- A script is cut at its first mark: into the part for the server, the mark in
whatever letters, and the part for the client. -/
structure CutAt (source server mark client : String) : Prop where
  split : source = server ++ mark ++ client
  isMark : IsMark mark.toList
  /-- No mark begins in front of this one. -/
  first : ∀ offset, MarkAt source offset → server.utf8ByteSize ≤ offset

theorem cutAt_iff {server mark client : String} :
    CutAt source server mark client ↔
      CutAtMark source.toList server.toList mark.toList client.toList := by
  constructor
  · rintro ⟨rfl, isMark, first⟩
    refine ⟨by simp, isMark, fun front rest split marked => ?_⟩
    have notEarlier := first _ (markAt_iff.mpr ⟨front, rest, split, rfl, marked⟩)
    rw [Text.utf8ByteSize_eq] at notEarlier
    have begins : server.toList <+: (server ++ mark ++ client).toList := by simp
    rcases List.prefix_or_prefix_of_prefix begins ⟨rest, split.symm⟩ with within | beyond
    · exact within
    · have shorter := Text.length_bytes_le_of_isPrefix beyond
      have same := Text.eq_of_isPrefix_of_length_eq beyond (Nat.le_antisymm shorter notEarlier)
      exact ⟨[], by rw [List.append_nil, same]⟩
  · rintro ⟨split, isMark, first⟩
    refine ⟨by simp [← String.toList_inj, split], isMark, fun offset marked => ?_⟩
    obtain ⟨front, rest, isSplit, rfl, begins⟩ := markAt_iff.mp marked
    rw [Text.utf8ByteSize_eq]
    exact Text.length_bytes_le_of_isPrefix (first front rest isSplit begins)

theorem exists_cutAt_of_splitSource (split : splitSource source.toList = some (server, client)) :
    ∃ mark, CutAt source (String.ofList server) mark (String.ofList client) := by
  obtain ⟨mark, cut⟩ := exists_cutAtMark_of_splitSource split
  refine ⟨String.ofList mark, cutAt_iff.mpr ?_⟩
  simpa only [String.toList_ofList] using cut

/-! ## Sections of a bundle -/

/-- Generated code is empty or ends with a line. -/
theorem convert_empty_or_endsWith (options : Options) (source : String) :
    (convert options source).code = "" ∨
      Text.endsWith (convert options source).code '\n' = true := by
  have whole := (unmarked_convert options source).terminated_eq
  rw [terminated] at whole
  split at whole
  · next ends => simpa using ends
  · have longer := congrArg String.length whole
    simp at longer

/-- The code for one side is the conversion of its part. -/
theorem side_eq (options : Options) (clientSide : Bool) (source : String) :
    side options clientSide source =
      (convert { options with clientSide := clientSide } source).code :=
  (unmarked_convert _ source).terminated_eq

/-- A script with a mark for the client is cut at the first one, and the bundle
holds the conversions of the part in front of it and of the part behind it.  A
script without a mark is converted as a whole.  Conversions are empty or end with
a line, so nothing is added to them. -/
theorem ofSource_eq_sections (options : Options) (source : String) :
    (∀ server mark client, CutAt source server mark client →
      ofSource options source =
        "//sgscript\n" ++ (convert { options with clientSide := false } server).code ++
          "//#clientside\n" ++ (convert { options with clientSide := true } client).code ++
          "/*\n//gs1script\n" ++ source ++ "*/") ∧
      ((∃ offset, MarkAt source offset) → ∃ server mark client, CutAt source server mark client) ∧
      ((¬∃ offset, MarkAt source offset) →
        ofSource options source =
          "//sgscript\n" ++ (convert { options with clientSide := false } source).code ++
            "/*\n//gs1script\n" ++ source ++ "*/") ∧
      ∀ text clientSide,
        (convert { options with clientSide := clientSide } text).code = "" ∨
          Text.endsWith (convert { options with clientSide := clientSide } text).code '\n' =
            true := by
  refine ⟨fun server mark client cut => ?_, ?_, fun unmarked => ?_,
    fun text clientSide => convert_empty_or_endsWith _ text⟩
  · have split := (cutAt_iff.mp cut).splitSource_eq
    simp only [ofSource, generated, split, side_eq, String.ofList_toList, String.append_assoc]
    rfl
  · intro marked
    obtain ⟨⟨server, client⟩, split⟩ :=
      Option.ne_none_iff_exists'.mp (exists_markAt_iff.mp marked)
    obtain ⟨mark, cut⟩ := exists_cutAt_of_splitSource split
    exact ⟨_, mark, _, cut⟩
  · rw [exists_markAt_iff, not_not] at unmarked
    simp only [ofSource, generated, unmarked, side_eq]
    rfl

/-- A character of two bytes and mixed letters in front of the first of two marks,
and marks that are torn apart. -/
theorem ofSource_eq_sections_mixed_letters :
    ((∃ mark, CutAt "π; //ClientSide//#clientside" "π; " mark "//#clientside") ∧
      ofSource {} "π; //ClientSide//#clientside" =
        "//sgscript\n" ++ (convert {} "π; ").code ++ "//#clientside\n" ++
          (convert { clientSide := true } "//#clientside").code ++
          "/*\n//gs1script\n" ++ "π; //ClientSide//#clientside" ++ "*/") ∧
      (¬∃ offset, MarkAt "/ /clientside" offset) ∧
      ofSource {} "/ /clientside" =
        "//sgscript\n" ++ (convert {} "/ /clientside").code ++
          "/*\n//gs1script\n" ++ "/ /clientside" ++ "*/" := by
  have split : splitSource "π; //ClientSide//#clientside".toList =
      some ("π; ".toList, "//#clientside".toList) := by decide
  have whole : ¬∃ offset, MarkAt "/ /clientside" offset := by
    rw [exists_markAt_iff, not_not]
    decide
  obtain ⟨mark, cut⟩ := exists_cutAt_of_splitSource split
  exact ⟨⟨⟨mark, cut⟩, (ofSource_eq_sections {} _).1 _ mark _ cut⟩, whole,
    (ofSource_eq_sections {} _).2.2.1 whole⟩

end Bundle

end EventScript
