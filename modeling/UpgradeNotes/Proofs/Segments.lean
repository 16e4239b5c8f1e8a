import UpgradeNotes.Proofs.ClassName
import UpgradeNotes.Proofs.Text.Lines

/-!
# Class names by segments

The comparison of names cuts the actual name at a byte offset and looks at the character in
front of the cut. What comes out of it is a relation of segments: a class fits a configured
name iff the segments of the name are, up to letter case, the last segments of the class
(`fits_by_segments`).
-/

namespace UpgradeNotes.ClassName

open Text

/-- The segments of a name, without the separators in front. -/
def segments (name : String) : List String :=
  split '\\' (unrooted name)

/-- The segments of the key are those of the name in lower case. -/
theorem split_key (name : String) : split '\\' (key name) = (segments name).map fold := by
  have hlower : ∀ c : Char, c.toLower = '\\' ↔ c = '\\' := fun _ => toLower_eq_separator
  rw [split, toList_key, splitChars_map hlower, segments, split, toList_unrooted, List.map_map,
    List.map_map]
  refine List.map_congr_left ?_
  intro part _
  rw [Function.comp_apply, Function.comp_apply, fold, String.toList_ofList]

/-- A text ends in another as a whole or behind a separator iff its last segments are those
of the other. -/
theorem split_isSuffix_iff {a b : String} :
    split '\\' b <:+ split '\\' a ↔ a = b ∨ ∃ front, a.toList = front ++ '\\' :: b.toList := by
  have hinj : Function.Injective String.ofList := fun _ _ => String.ofList_inj.mp
  rw [split, split, List.suffix_map_iff_of_injective hinj, splitChars_isSuffix_iff,
    String.toList_inj]

theorem fits_iff_segments {actual configured : String} :
    fits actual configured = true ↔
      unrooted configured ≠ "" ∧
        (segments configured).map fold <:+ (segments actual).map fold := by
  rw [fits_iff, ← split_key, ← split_key, split_isSuffix_iff, ne_eq, ne_eq,
    unrooted_eq_empty_iff]

theorem fits_trans {a b c : String} (hab : fits a b = true) (hbc : fits b c = true) :
    fits a c = true := by
  rw [fits_iff_segments] at hab hbc ⊢
  exact ⟨hbc.1, hbc.2.trans hab.2⟩

/-- The comparison of two names never breaks down, and a class fits a configured name iff
the name is not empty and its segments are, up to letter case, the last ones of the class.
So the names that fit themselves are those that are not empty, and a class fits what the
names that it fits fit themselves. -/
theorem fits_by_segments :
    (∀ actual configured : String, fits? actual configured = some (fits actual configured) ∧
      (fits actual configured = true ↔
        unrooted configured ≠ "" ∧
          (segments configured).map fold <:+ (segments actual).map fold)) ∧
    (∀ name : String, fits name name = true ↔ unrooted name ≠ "") ∧
    ∀ a b c : String, fits a b = true → fits b c = true → fits a c = true := by
  refine ⟨?_, ?_, ?_⟩
  · intro actual configured
    exact ⟨fits?_eq actual configured, fits_iff_segments⟩
  · intro name
    rw [fits_iff_segments]
    exact and_iff_left List.suffix_rfl
  · intro a b c hab hbc
    exact fits_trans hab hbc

/-- Characters of more than one byte, a cut inside one of them, an empty segment at the end
and the end of a segment that is no segment. -/
theorem fits_by_segments_sample :
    fits "App\\Größe\\Tâche" "größe\\TâCHE" = true ∧
      fits? "é" "x" = some false ∧
      fits "App\\Task\\" "Task\\" = true ∧
      fits "App\\MyTask" "Task" = false ∧
      fits "\\Tâche" "\\Tâche" = true ∧
      fits "App\\Größe\\Tâche" "Tâche" = true := by
  obtain ⟨hsegments, hself, htrans⟩ := fits_by_segments
  have hfits : fits "App\\Größe\\Tâche" "größe\\TâCHE" = true :=
    (hsegments _ _).2.mpr ⟨by decide +kernel, ["app"], by decide +kernel⟩
  refine ⟨hfits, ?_, (hsegments _ _).2.mpr ⟨by decide +kernel, ["app"], by decide +kernel⟩, ?_,
    (hself _).mpr (by decide +kernel), htrans _ _ _ hfits (by decide +kernel)⟩
  · rw [(hsegments _ _).1]
    decide +kernel
  · rw [Bool.eq_false_iff, ne_eq, (hsegments _ _).2]
    decide +kernel

end UpgradeNotes.ClassName
