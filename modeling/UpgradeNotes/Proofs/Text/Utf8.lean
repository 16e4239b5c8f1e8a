import UpgradeNotes.Proofs.Text.Offset

/-!
# The bytes of a text

Offsets count bytes of the UTF-8 form. A blank of the ASCII class is one byte there, and no
byte of any other character looks like one (`isBlankByte_of_mem`). So whether a part of a
text is blank can be asked of its bytes or of its characters.
-/

namespace UpgradeNotes.Text

/-- The bytes of a text in UTF-8. -/
def bytes (cs : List Char) : List UInt8 :=
  cs.flatMap String.utf8EncodeChar

/-- The bytes that separate a comment from its node: those of the blanks of the ASCII
class. -/
def isBlankByte (b : UInt8) : Bool :=
  b == 0x20 || b == 0x09 || b == 0x0A || b == 0x0C || b == 0x0D

theorem bytes_cons (c : Char) (cs : List Char) :
    bytes (c :: cs) = String.utf8EncodeChar c ++ bytes cs :=
  List.flatMap_cons

@[simp] theorem length_bytes (cs : List Char) : (bytes cs).length = byteLen cs := by
  induction cs with
  | nil => rfl
  | cons c cs ih =>
    rw [bytes_cons, List.length_append, String.length_utf8EncodeChar, byteLen_cons, ih]

theorem isBlankByte_iff {b : UInt8} :
    isBlankByte b = true ↔
      b.toNat = 32 ∨ b.toNat = 9 ∨ b.toNat = 10 ∨ b.toNat = 12 ∨ b.toNat = 13 := by
  simp [isBlankByte, ← UInt8.toNat_inj, or_assoc]

theorem isAsciiBlank_iff {c : Char} :
    isAsciiBlank c = true ↔
      c.toNat = 32 ∨ c.toNat = 9 ∨ c.toNat = 10 ∨ c.toNat = 12 ∨ c.toNat = 13 := by
  simp [isAsciiBlank, ← Char.toNat_inj, or_assoc]

/-- A byte of a longer form is above the ASCII range. -/
theorem le_toNat_of_mem {c : Char} {b : UInt8} (hc : ¬ c.val.toNat ≤ 127)
    (h : b ∈ String.utf8EncodeChar c) : 128 ≤ b.toNat := by
  rw [String.utf8EncodeChar, if_neg hc] at h
  split at h
  · simp only [List.mem_cons, List.not_mem_nil, or_false] at h
    rcases h with rfl | rfl <;> rw [UInt8.toNat_ofNat'] <;> omega
  · split at h
    · simp only [List.mem_cons, List.not_mem_nil, or_false] at h
      rcases h with rfl | rfl | rfl <;> rw [UInt8.toNat_ofNat'] <;> omega
    · simp only [List.mem_cons, List.not_mem_nil, or_false] at h
      rcases h with rfl | rfl | rfl | rfl <;> rw [UInt8.toNat_ofNat'] <;> omega

/-- The bytes of a character are blank iff the character is. -/
theorem isBlankByte_of_mem {c : Char} {b : UInt8} (h : b ∈ String.utf8EncodeChar c) :
    isBlankByte b = isAsciiBlank c := by
  have hval : c.toNat = c.val.toNat := rfl
  rw [Bool.eq_iff_iff, isBlankByte_iff, isAsciiBlank_iff, hval]
  by_cases hc : c.val.toNat ≤ 127
  · rw [String.utf8EncodeChar, if_pos hc] at h
    rw [List.mem_singleton.mp h, UInt8.toNat_ofNat']
    omega
  · have hlong := le_toNat_of_mem hc h
    omega

/-- The bytes of a text with a character in front: first those of the character. -/
theorem getElem?_bytes_cons {c : Char} {cs : List Char} {i : Nat} {b : UInt8}
    (h : (bytes (c :: cs))[i]? = some b) :
    (i < c.utf8Size ∧ b ∈ String.utf8EncodeChar c) ∨
      (c.utf8Size ≤ i ∧ (bytes cs)[i - c.utf8Size]? = some b) := by
  rw [bytes_cons] at h
  by_cases hi : i < c.utf8Size
  · rw [List.getElem?_append_left (by rwa [String.length_utf8EncodeChar])] at h
    exact .inl ⟨hi, List.mem_of_getElem? h⟩
  · rw [List.getElem?_append_right (by rw [String.length_utf8EncodeChar]; omega),
      String.length_utf8EncodeChar] at h
    exact .inr ⟨by omega, h⟩

theorem getElem?_bytes_cons_add (c : Char) (cs : List Char) (i : Nat) :
    (bytes (c :: cs))[c.utf8Size + i]? = (bytes cs)[i]? := by
  rw [bytes_cons, ← String.length_utf8EncodeChar, List.getElem?_append_right (Nat.le_add_right _ _),
    Nat.add_sub_cancel_left]

theorem exists_getElem?_bytes {cs : List Char} {i : Nat} (h : i < byteLen cs) :
    ∃ b, (bytes cs)[i]? = some b :=
  ⟨_, List.getElem?_eq_getElem (by rwa [length_bytes])⟩

end UpgradeNotes.Text
