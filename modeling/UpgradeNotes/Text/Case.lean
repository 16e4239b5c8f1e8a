/-!
# Letter case

Class and method names compare without regard to the case of ASCII letters.
All other characters stand for themselves.
-/

namespace UpgradeNotes.Text

/-- The text with its ASCII letters in lower case. -/
def fold (s : String) : String :=
  String.ofList (s.toList.map Char.toLower)

/-- Two character lists that agree up to the case of ASCII letters. -/
def sameFoldChars (a b : List Char) : Bool :=
  a.map Char.toLower == b.map Char.toLower

/-- Two texts that agree up to the case of ASCII letters. -/
def sameFold (a b : String) : Bool :=
  sameFoldChars a.toList b.toList

theorem sameFoldChars_iff {a b : List Char} :
    sameFoldChars a b = true ↔ a.map Char.toLower = b.map Char.toLower := by
  simp [sameFoldChars]

theorem sameFold_iff {a b : String} : sameFold a b = true ↔ fold a = fold b := by
  simp [sameFold, sameFoldChars, fold, String.ofList_inj]

@[simp] theorem toList_fold (s : String) : (fold s).toList = s.toList.map Char.toLower :=
  String.toList_ofList

@[simp] theorem fold_append (a b : String) : fold (a ++ b) = fold a ++ fold b := by
  rw [← String.toList_inj]
  simp

theorem fold_eq_iff {a b : String} :
    fold a = fold b ↔ a.toList.map Char.toLower = b.toList.map Char.toLower := by
  rw [← String.toList_inj, toList_fold, toList_fold]

/-- Letter case does not change the length. -/
theorem length_of_fold_eq {a b : String} (h : fold a = fold b) :
    a.toList.length = b.toList.length := by
  simpa using congrArg List.length (fold_eq_iff.mp h)

end UpgradeNotes.Text
