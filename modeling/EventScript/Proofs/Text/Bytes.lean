import EventScript.Text.Lines

/-!
# Bytes of a text

A text is encoded in bytes, character by character.  A byte below 128 stands for
the character with that number and is not a part of any other.
-/

namespace EventScript.Text

/-- A byte below 128 encodes the character with that number. -/
theorem toNat_eq_of_mem_utf8EncodeChar {character : Char} {byte : UInt8}
    (member : byte ∈ String.utf8EncodeChar character) (ascii : byte.toNat < 128) :
    character.toNat = byte.toNat := by
  have high (number : Nat) (bounded : 128 ≤ number % 256) : byte ≠ UInt8.ofNat number := by
    rintro rfl
    rw [UInt8.toNat_ofNat'] at ascii
    omega
  rw [String.utf8EncodeChar] at member
  change byte ∈ (if character.toNat ≤ 127 then _ else _) at member
  repeat' split at member
  · rw [List.mem_singleton.mp member, UInt8.toNat_ofNat']
    change character.toNat = character.toNat % 256
    omega
  all_goals
    refine absurd member ?_
    simp only [List.mem_cons, List.not_mem_nil, or_false, not_or]
  · exact ⟨high _ (by omega), high _ (by omega)⟩
  · exact ⟨high _ (by omega), high _ (by omega), high _ (by omega)⟩
  · exact ⟨high _ (by omega), high _ (by omega), high _ (by omega), high _ (by omega)⟩

/-- A character whose number is not that of a byte does not hold that byte. -/
theorem notMem_utf8EncodeChar {character mark : Char} (differ : character ≠ mark)
    (ascii : mark.toNat < 128) : UInt8.ofNat mark.toNat ∉ String.utf8EncodeChar character := by
  intro member
  have small : (UInt8.ofNat mark.toNat).toNat = mark.toNat := by
    rw [UInt8.toNat_ofNat']
    omega
  have same := toNat_eq_of_mem_utf8EncodeChar member (by omega)
  exact differ (Char.toNat_inj.mp (same.trans small))

theorem utf8EncodeChar_ne_nil (character : Char) : String.utf8EncodeChar character ≠ [] := by
  intro isEmpty
  have size := String.length_utf8EncodeChar character
  rw [isEmpty] at size
  exact absurd size.symm (Nat.ne_of_gt character.utf8Size_pos)

/-- A text whose first byte is that of a mark begins with the mark. -/
theorem exists_cons_of_utf8_cons (mark : Char) (ascii : mark.toNat < 128) {text : List Char}
    {others : List UInt8}
    (encoded : text.flatMap String.utf8EncodeChar = UInt8.ofNat mark.toNat :: others) :
    ∃ rest, text = mark :: rest := by
  cases text with
  | nil => cases encoded
  | cons character rest =>
    rw [List.flatMap_cons] at encoded
    obtain ⟨byte, more, bytes⟩ := List.exists_cons_of_ne_nil (utf8EncodeChar_ne_nil character)
    rw [bytes, List.cons_append] at encoded
    have member : UInt8.ofNat mark.toNat ∈ String.utf8EncodeChar character := by
      rw [bytes, ← (List.cons.inj encoded).1]
      exact List.mem_cons_self
    by_cases same : character = mark
    · exact ⟨rest, by rw [same]⟩
    · exact absurd member (notMem_utf8EncodeChar same ascii)

/-- Beginnings of the same number of bytes are equal. -/
theorem eq_of_isPrefix_of_length_eq {first second : List Char} (begins : first <+: second)
    (sameLength : (first.flatMap String.utf8EncodeChar).length =
      (second.flatMap String.utf8EncodeChar).length) : first = second := by
  obtain ⟨others, rfl⟩ := begins
  cases others with
  | nil => rw [List.append_nil]
  | cons character rest =>
    rw [List.flatMap_append, List.length_append, List.flatMap_cons, List.length_append] at sameLength
    have positive := List.length_pos_iff.mpr (utf8EncodeChar_ne_nil character)
    omega

/-- The bytes of a text are those of its characters. -/
theorem toList_toByteArray (text : String) :
    text.toByteArray.data.toList = text.toList.flatMap String.utf8EncodeChar := by
  rw [← String.utf8Encode_toList, List.utf8Encode, List.data_toByteArray]

theorem utf8ByteSize_eq (text : String) :
    text.utf8ByteSize = (text.toList.flatMap String.utf8EncodeChar).length := by
  rw [← toList_toByteArray, Array.length_toList]
  rfl

/-- A character below 128 occurs in a text if its byte does. -/
theorem mem_bytes_iff (mark : Char) (ascii : mark.toNat < 128) (text : String) :
    UInt8.ofNat mark.toNat ∈ text.toByteArray.data.toList ↔ mark ∈ text.toList := by
  rw [toList_toByteArray, List.mem_flatMap]
  constructor
  · rintro ⟨character, member, inside⟩
    by_cases same : character = mark
    · exact same ▸ member
    · exact absurd inside (notMem_utf8EncodeChar same ascii)
  · intro member
    refine ⟨mark, member, ?_⟩
    have small : mark.val.toNat ≤ 127 := Nat.le_of_lt_succ ascii
    rw [String.utf8EncodeChar, if_pos small]
    exact List.mem_singleton_self _

end EventScript.Text
