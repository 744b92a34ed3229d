import Mathlib
import Lox.Scanner

/-!
# Characters and their bytes

Where the characters of a source stand among its bytes. A source that starts with the characters `pre`
has the next one at the place `width pre`. An ASCII character is its one byte there; all bytes of a wider
one lie beyond ASCII.
-/

namespace Lox

/-- The number of bytes that characters take. -/
def width : List Char → Nat
  | [] => 0
  | c :: cs => c.utf8Size + width cs

@[simp] theorem width_nil : width [] = 0 := rfl

@[simp] theorem width_cons (c : Char) (cs : List Char) : width (c :: cs) = c.utf8Size + width cs := rfl

@[simp] theorem width_append (cs ds : List Char) : width (cs ++ ds) = width cs + width ds := by
  induction cs with
  | nil => simp
  | cons c cs ih => rw [List.cons_append, width_cons, width_cons, ih, Nat.add_assoc]

/-- The bytes of characters. -/
def encoding (cs : List Char) : List UInt8 := cs.flatMap String.utf8EncodeChar

theorem length_encoding (cs : List Char) : (encoding cs).length = width cs := by
  induction cs with
  | nil => rfl
  | cons c cs ih =>
    rw [encoding, List.flatMap_cons, List.length_append, String.length_utf8EncodeChar, width_cons, ← ih,
      encoding]

theorem encoding_append (cs ds : List Char) : encoding (cs ++ ds) = encoding cs ++ encoding ds := by
  simp [encoding]

theorem toByteArray_eq (source : String) :
    source.toByteArray = (encoding source.toList).toByteArray := by
  rw [← String.utf8Encode_toList]
  rfl

theorem utf8ByteSize_eq (source : String) : source.utf8ByteSize = width source.toList := by
  rw [← String.size_toByteArray, toByteArray_eq, ← length_encoding]
  simp

theorem byteAt_eq (source : String) (place : Nat) :
    Scanner.byteAt source place = Char.ofUInt8 ((encoding source.toList).getD place 0) := by
  unfold Scanner.byteAt
  split
  · rename_i within
    have within' : place < (encoding source.toList).length := by
      rwa [length_encoding, ← utf8ByteSize_eq]
    rw [List.getD_eq_getElem?_getD, List.getElem?_eq_getElem within', Option.getD_some]
    simp only [String.getUTF8Byte, toByteArray_eq, List.getElem_toByteArray]
  · rename_i beyond
    have beyond' : (encoding source.toList).length ≤ place := by
      rw [length_encoding, ← utf8ByteSize_eq]
      exact Nat.le_of_not_lt beyond
    rw [List.getD_eq_getElem?_getD, List.getElem?_eq_none beyond']
    rfl

/-- One byte is an ASCII character, and all bytes of a longer encoding lie beyond. -/
theorem mem_encodeChar_wide {c : Char} (wide : c.utf8Size ≠ 1) {b : UInt8}
    (among : b ∈ String.utf8EncodeChar c) : 128 ≤ b.toNat := by
  rw [String.utf8EncodeChar_eq_utf8EncodeCharFast] at among
  have beyond (x y : UInt8) (big : 128 ≤ y.toNat) : 128 ≤ (x ||| y).toNat := by
    rw [UInt8.toNat_or]
    exact Nat.le_trans big Nat.right_le_or
  unfold String.utf8EncodeCharFast at among
  dsimp only at among
  split at among
  · rename_i small
    exact absurd (by simp [Char.utf8Size, small]) wide
  · split at among
    · simp only [List.mem_cons, List.not_mem_nil, or_false] at among
      rcases among with rfl | rfl <;> exact beyond _ _ (by decide)
    · split at among
      · simp only [List.mem_cons, List.not_mem_nil, or_false] at among
        rcases among with rfl | rfl | rfl <;> exact beyond _ _ (by decide)
      · simp only [List.mem_cons, List.not_mem_nil, or_false] at among
        rcases among with rfl | rfl | rfl | rfl <;> exact beyond _ _ (by decide)

theorem encodeChar_ascii {c : Char} (ascii : c.utf8Size = 1) :
    ∃ b, String.utf8EncodeChar c = [b] ∧ Char.ofUInt8 b = c := by
  refine ⟨c.val.toUInt8, String.utf8EncodeChar_eq_singleton ascii, ?_⟩
  have small : c.val.toNat ≤ 127 := by
    have := Char.utf8Size_eq_one_iff.mp ascii
    exact UInt32.le_iff_toNat_le.mp this
  refine Char.ext (UInt32.toNat_inj.mp ?_)
  simp only [Char.ofUInt8, UInt8.toNat_toUInt32, UInt32.toNat_toUInt8]
  omega

section

variable {source : String} {pre : List Char}

theorem byteAt_end (text : source.toList = pre) : Scanner.byteAt source (width pre) = '\x00' := by
  have beyond : (encoding pre).length ≤ width pre := Nat.le_of_eq (length_encoding pre)
  rw [byteAt_eq, text, List.getD_eq_getElem?_getD, List.getElem?_eq_none beyond]
  rfl

/-- The byte of an ASCII character is that character. -/
theorem byteAt_ascii {c : Char} {rest : List Char} (text : source.toList = pre ++ c :: rest)
    (ascii : c.utf8Size = 1) : Scanner.byteAt source (width pre) = c := by
  obtain ⟨b, single, same⟩ := encodeChar_ascii ascii
  rw [byteAt_eq, text, encoding_append, ← length_encoding pre, List.getD_eq_getElem?_getD,
    List.getElem?_append_right (Nat.le_refl _)]
  simp [encoding, single, same]

/-- The bytes of a wider character are no ASCII characters. -/
theorem byteAt_wide {c : Char} {rest : List Char} (text : source.toList = pre ++ c :: rest)
    (wide : c.utf8Size ≠ 1) {i : Nat} (within : i < c.utf8Size) :
    128 ≤ (Scanner.byteAt source (width pre + i)).toNat := by
  have among : i < (String.utf8EncodeChar c).length := by rwa [String.length_utf8EncodeChar]
  have found : (encoding source.toList).getD (width pre + i) 0 = (String.utf8EncodeChar c)[i] := by
    rw [text, encoding_append, ← length_encoding pre, List.getD_eq_getElem?_getD,
      List.getElem?_append_right (Nat.le_add_right _ _), Nat.add_sub_cancel_left, encoding,
      List.flatMap_cons, List.getElem?_append_left among, List.getElem?_eq_getElem among,
      Option.getD_some]
  rw [byteAt_eq, found]
  exact mem_encodeChar_wide wide (List.getElem_mem among)

theorem rawEndPos_ofList (cs : List Char) : (String.ofList cs).rawEndPos = ⟨width cs⟩ := by
  have size := utf8ByteSize_eq (String.ofList cs)
  rw [String.toList_ofList] at size
  exact congrArg String.Pos.Raw.mk size

/-- Between characters is a place to cut. -/
theorem isValid_width {post : List Char} (text : source.toList = pre ++ post) :
    (⟨width pre⟩ : String.Pos.Raw).IsValid source := by
  have whole : source = String.ofList pre ++ String.ofList post := by
    rw [← String.ofList_append, ← text, String.ofList_toList]
  rw [whole, ← rawEndPos_ofList]
  exact (String.Pos.Raw.isValid_rawEndPos).append_right _

/-- Characters are cut out whole. -/
theorem slice?_eq {mid post : List Char} (text : source.toList = pre ++ mid ++ post) :
    slice? source (width pre) (width (pre ++ mid)) = some (String.ofList mid) := by
  have first := isValid_width (text.trans (List.append_assoc ..))
  have last := isValid_width text
  have order : width pre ≤ width (pre ++ mid) := by simp
  rw [slice?, dif_pos ⟨order, first, last⟩, Option.some_inj, ← String.toByteArray_inj,
    String.toByteArray_extract, String.toByteArray_ofList, toByteArray_eq, text]
  change (encoding (pre ++ mid ++ post)).toByteArray.extract (width pre) (width (pre ++ mid)) =
    (encoding mid).toByteArray
  rw [encoding_append, encoding_append, List.toByteArray_append, List.toByteArray_append,
    ByteArray.extract_append, ByteArray.extract_append_eq_right]
  · simp [length_encoding]
  · simp [length_encoding]
  · simp [length_encoding]

theorem charFrom?_eq {c : Char} {rest : List Char} (text : source.toList = pre ++ c :: rest) :
    charFrom? source (width pre) = some (some c) := by
  have valid := isValid_width text
  have whole : source = String.ofList pre ++ String.ofList (c :: rest) := by
    rw [← String.ofList_append, ← text, String.ofList_toList]
  have splits : (source.pos ⟨width pre⟩ valid).Splits (String.ofList pre)
      (String.ofList (c :: rest)) :=
    ⟨whole, (rawEndPos_ofList pre).symm⟩
  have within : source.pos ⟨width pre⟩ valid ≠ source.endPos := by
    intro ended
    have none := splits.eq_endPos_iff.mp ended
    simp at none
  obtain ⟨post, same⟩ := splits.exists_eq_singleton_append within
  have same := congrArg String.toList same
  rw [String.toList_ofList, String.toList_append, String.toList_singleton] at same
  rw [charFrom?, dif_pos valid]
  dsimp only
  rw [dif_pos within, (List.cons.inj same).1]

end

end Lox
