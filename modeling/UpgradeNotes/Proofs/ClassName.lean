import UpgradeNotes.ClassName

/-!
# Class names by key

A name enters every comparison through its key only. The comparison cuts the
actual name at a byte offset, and it does so only where a character starts, so
it always comes to an end (`fits?_eq`). A class fits a configured name iff the
key of the class is that of the name, or ends in it behind a separator
(`fits_iff`); so spellings with one key fit the same names (`fits_of_key_eq`).
-/

namespace UpgradeNotes.ClassName

open Text

/-- Lower case neither makes a separator nor loses one. -/
theorem toLower_eq_separator {c : Char} : c.toLower = '\\' ↔ c = '\\' := by
  constructor
  · intro h
    by_cases hupper : 'A'.val ≤ c.val ∧ c.val ≤ 'Z'.val
    · -- a capital becomes a letter, and a separator is none
      have hlower : c.toLower.val = c.val + 32 := congrArg Char.val (dif_pos hupper)
      have hval : (c.val + 32).toNat = '\\'.val.toNat := by rw [← hlower, h]
      have hlow := UInt32.le_iff_toNat_le.mp hupper.1
      have hhigh := UInt32.le_iff_toNat_le.mp hupper.2
      simp at hval hlow hhigh
      omega
    · have hsame : c.toLower = c := dif_neg hupper
      rwa [hsame] at h
  · rintro rfl
    rfl

theorem dropRoot_map_toLower (name : List Char) :
    dropRoot (name.map Char.toLower) = (dropRoot name).map Char.toLower := by
  unfold dropRoot
  induction name with
  | nil => rfl
  | cons c rest ih =>
    by_cases hc : c = '\\'
    · subst hc
      exact ih
    · have hlower : c.toLower ≠ '\\' := fun h => hc (toLower_eq_separator.mp h)
      simp [hc, hlower]

theorem dropRoot_dropRoot (name : List Char) : dropRoot (dropRoot name) = dropRoot name := by
  unfold dropRoot
  induction name with
  | nil => rfl
  | cons c rest ih =>
    by_cases hc : c = '\\'
    · subst hc
      exact ih
    · simp [hc]

theorem toList_unrooted (name : String) : (unrooted name).toList = dropRoot name.toList :=
  String.toList_ofList

theorem toList_key (name : String) :
    (key name).toList = (dropRoot name.toList).map Char.toLower := by
  rw [key, toList_fold, toList_unrooted]

@[simp] theorem key_unrooted (name : String) : key (unrooted name) = key name := by
  rw [← String.toList_inj, toList_key, toList_key, toList_unrooted, dropRoot_dropRoot]

/-- A text that reads like an unrooted name up to letter case has its key. -/
theorem key_of_sameFold {a b : String} (h : sameFold a (unrooted b) = true) : key a = key b := by
  have hfold : a.toList.map Char.toLower = (dropRoot b.toList).map Char.toLower := by
    rw [← toList_unrooted]
    exact sameFoldChars_iff.mp h
  rw [← String.toList_inj, toList_key, toList_key, ← dropRoot_map_toLower, hfold,
    dropRoot_map_toLower, dropRoot_dropRoot]

theorem unrooted_eq_empty_iff {name : String} : unrooted name = "" ↔ key name = "" := by
  rw [← String.toList_inj, ← String.toList_inj, toList_unrooted, toList_key]
  simp

/-! ## The comparison by bytes -/

/-- Letter case does not change the bytes that a character takes. -/
theorem utf8Size_toLower (c : Char) : c.toLower.utf8Size = c.utf8Size := by
  by_cases hupper : 'A'.val ≤ c.val ∧ c.val ≤ 'Z'.val
  · have hlower : c.toLower.val = c.val + 32 := congrArg Char.val (dif_pos hupper)
    have hhigh := UInt32.le_iff_toNat_le.mp hupper.2
    have hsmall : c.val ≤ 127 := UInt32.le_iff_toNat_le.mpr (by simp at hhigh ⊢; omega)
    have hsmall' : c.toLower.val ≤ 127 := by
      rw [hlower]
      exact UInt32.le_iff_toNat_le.mpr (by simp at hhigh ⊢; omega)
    rw [Char.utf8Size_eq_one_iff.mpr hsmall, Char.utf8Size_eq_one_iff.mpr hsmall']
  · have hsame : c.toLower = c := dif_neg hupper
    rw [hsame]

theorem byteLen_map_toLower (cs : List Char) : byteLen (cs.map Char.toLower) = byteLen cs := by
  induction cs with
  | nil => rfl
  | cons c cs ih => simp [utf8Size_toLower, ih]

/-- The cut is made only where a character starts, so it does not fail. -/
theorem isSome_endsInSegments? (actual configured : List Char) :
    (endsInSegments? actual configured).isSome = true := by
  unfold endsInSegments?
  dsimp only
  split
  · rfl
  · split
    · rename_i hboundary
      rw [← isSome_cut?] at hboundary
      obtain ⟨parts, hcut⟩ := Option.isSome_iff_exists.mp hboundary
      rw [hcut]
      rfl
    · rfl

theorem byteLen_of_sameFoldChars {a b : List Char} (h : sameFoldChars a b = true) :
    byteLen a = byteLen b := by
  rw [← byteLen_map_toLower a, sameFoldChars_iff.mp h, byteLen_map_toLower]

/-- A tail behind a separator is found: it is as long in bytes as the configured name, so
the cut is right in front of it. -/
theorem endsInSegments?_append {tail configured : List Char}
    (h : sameFoldChars tail configured = true) (front : List Char) :
    endsInSegments? (front ++ ['\\'] ++ tail) configured = some true := by
  have hcut := cut?_append (front ++ ['\\']) tail
  have hboundary : isBoundary (byteLen (front ++ ['\\'])) (front ++ ['\\'] ++ tail) = true := by
    rw [← isSome_cut?, hcut]
    rfl
  have hlonger : ¬ byteLen (front ++ ['\\'] ++ tail) ≤ byteLen configured := by
    have hpos := Char.utf8Size_pos '\\'
    rw [byteLen_append, byteLen_append, byteLen_cons, byteLen_of_sameFoldChars h]
    omega
  unfold endsInSegments?
  rw [if_neg hlonger, byteLen_append, byteLen_of_sameFoldChars h, Nat.add_sub_cancel,
    if_pos hboundary, hcut]
  simp [h]

theorem exists_of_endsInSegments? {actual configured : List Char}
    (h : endsInSegments? actual configured = some true) :
    ∃ front tail, actual = front ++ ['\\'] ++ tail ∧ sameFoldChars tail configured = true := by
  unfold endsInSegments? at h
  dsimp only at h
  split at h
  · exact absurd h (by simp)
  · split at h
    · obtain ⟨⟨front, tail⟩, hcut, hends⟩ := Option.bind_eq_some_iff.mp h
      obtain ⟨rfl, -⟩ := cut?_eq_some hcut
      obtain ⟨htail, hlast⟩ : sameFoldChars tail configured = true ∧
          front.getLast? = some '\\' := by simpa using hends
      obtain ⟨front, rfl⟩ := List.getLast?_eq_some_iff.mp hlast
      exact ⟨front, tail, rfl, htail⟩
    · exact absurd h (by simp)

/-- One list ends in another behind a separator iff it does so in lower case. -/
theorem endsInSegments?_iff {actual configured : List Char} :
    endsInSegments? actual configured = some true ↔
      ∃ front, actual.map Char.toLower = front ++ '\\' :: configured.map Char.toLower := by
  constructor
  · intro h
    obtain ⟨front, tail, rfl, htail⟩ := exists_of_endsInSegments? h
    refine ⟨front.map Char.toLower, ?_⟩
    rw [← sameFoldChars_iff.mp htail]
    simp
  · rintro ⟨front, hactual⟩
    obtain ⟨before, behind, rfl, -, hbehind⟩ := List.map_eq_append_iff.mp hactual
    obtain ⟨c, tail, rfl, hlower, htail⟩ := List.map_eq_cons_iff.mp hbehind
    obtain rfl := toLower_eq_separator.mp hlower
    have hwhole : before ++ '\\' :: tail = before ++ ['\\'] ++ tail := by simp
    rw [hwhole]
    exact endsInSegments?_append (sameFoldChars_iff.mpr htail) before

/-- The comparison always comes to an end. -/
theorem fits?_eq (actual configured : String) :
    fits? actual configured = some (fits actual configured) := by
  have hsome : (fits? actual configured).isSome = true := by
    unfold fits?
    dsimp only
    split
    · rfl
    · split
      · rfl
      · exact isSome_endsInSegments? _ _
  obtain ⟨answer, hanswer⟩ := Option.isSome_iff_exists.mp hsome
  rw [fits, hanswer, Option.getD_some]

/-- A class fits a configured name iff its key is the key of the name or ends in
it behind a separator. -/
theorem fits_iff {actual configured : String} :
    fits actual configured = true ↔
      key configured ≠ "" ∧ (key actual = key configured ∨
        ∃ front, (key actual).toList = front ++ '\\' :: (key configured).toList) := by
  have hempty : key configured ≠ "" ↔ dropRoot configured.toList ≠ [] := by
    rw [ne_eq, ← String.toList_inj, toList_key]
    simp
  have hsome : fits actual configured = true ↔ fits? actual configured = some true := by
    rw [fits?_eq, Option.some.injEq]
  rw [hempty, ← String.toList_inj, toList_key, toList_key, ← endsInSegments?_iff,
    ← sameFoldChars_iff, hsome]
  unfold fits?
  dsimp only
  by_cases hname : dropRoot configured.toList = []
  · simp [hname]
  · by_cases hsame : sameFoldChars (dropRoot actual.toList) (dropRoot configured.toList) = true <;>
      simp [hname, hsame]

/-- Spellings with one key fit the same names. -/
theorem fits_of_key_eq {a b configured : String} (h : key a = key b)
    (hfits : fits a configured = true) : fits b configured = true := by
  rw [fits_iff] at hfits ⊢
  rwa [← h]

theorem fits_unrooted (actual configured : String) :
    fits (unrooted actual) (unrooted configured) = fits actual configured := by
  rw [Bool.eq_iff_iff, fits_iff, fits_iff, key_unrooted, key_unrooted]

theorem fits_unrooted_right (actual configured : String) :
    fits actual (unrooted configured) = fits actual configured := by
  rw [Bool.eq_iff_iff, fits_iff, fits_iff, key_unrooted]

/-- The empty text fits no name. -/
theorem fits_empty (configured : String) : fits "" configured = false := by
  rw [Bool.eq_false_iff, ne_eq, fits_iff]
  rintro ⟨hne, heq | ⟨front, hfront⟩⟩
  · exact hne heq.symm
  · rw [toList_key] at hfront
    exact absurd hfront (by simp [dropRoot])

end UpgradeNotes.ClassName
