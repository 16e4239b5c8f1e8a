import UpgradeNotes.Text.Blank
import UpgradeNotes.Text.Bytes

/-!
# Parts of a text by offset

Cutting and slicing at byte offsets, said as ways to write a character list as
a concatenation. A slice stays the same when the text changes elsewhere: in
front of a change at the same offsets, behind it at moved ones
(`slice?_before`, `slice?_behind`).
-/

namespace UpgradeNotes.Text

/-- A list of characters without bytes is empty. -/
theorem eq_nil_of_byteLen {cs : List Char} (h : byteLen cs = 0) : cs = [] := by
  cases cs with
  | nil => rfl
  | cons c cs =>
    have hc := c.utf8Size_pos
    rw [byteLen_cons] at h
    omega

/-- The bounds of the characters are the places where the list can be split. -/
theorem isBoundary_iff {n : Nat} {cs : List Char} :
    isBoundary n cs = true ↔ ∃ front back, cs = front ++ back ∧ byteLen front = n := by
  rw [← isSome_cut?, Option.isSome_iff_exists]
  constructor
  · rintro ⟨⟨front, back⟩, hcut⟩
    exact ⟨front, back, cut?_eq_some hcut⟩
  · rintro ⟨front, back, rfl, rfl⟩
    exact ⟨_, cut?_append front back⟩

/-- Of two splits of one list, the later one takes something more. -/
theorem exists_between {a b a' b' : List Char} (h : a ++ b = a' ++ b')
    (hle : byteLen a ≤ byteLen a') : ∃ m, a' = a ++ m ∧ b = m ++ b' := by
  rcases List.append_eq_append_iff.mp h with ⟨m, ha, hb⟩ | ⟨m, ha, hb⟩
  · exact ⟨m, ha, hb⟩
  · -- then `a` is not shorter either, and both splits are the same
    have hm : m = [] := by
      apply eq_nil_of_byteLen
      rw [ha, byteLen_append] at hle
      omega
    subst hm
    exact ⟨[], by simpa using ha.symm, by simpa using hb.symm⟩

/-- A slice is the part between what the two offsets leave out. -/
theorem slice?_eq_some_iff {start stop : Nat} {cs part : List Char} :
    slice? start stop cs = some part ↔
      ∃ a b, cs = a ++ part ++ b ∧ byteLen a = start ∧ stop = start + byteLen part := by
  constructor
  · intro h
    simp only [slice?, Option.bind_eq_bind, Option.bind_eq_some_iff] at h
    obtain ⟨⟨a, rest⟩, hcut, hpart⟩ := h
    obtain ⟨rfl, rfl⟩ := cut?_eq_some hcut
    split at hpart
    · rename_i hle
      obtain ⟨⟨p, b⟩, hp, hret⟩ := Option.bind_eq_some_iff.mp hpart
      obtain ⟨rfl, hlen⟩ := cut?_eq_some hp
      obtain rfl : p = part := by simpa using hret
      exact ⟨a, b, by rw [List.append_assoc], rfl, by omega⟩
    · exact absurd hpart (by simp)
  · rintro ⟨a, b, rfl, rfl, rfl⟩
    have hle : byteLen a ≤ byteLen a + byteLen part := by omega
    have hsub : byteLen a + byteLen part - byteLen a = byteLen part := by omega
    simp only [slice?, List.append_assoc, cut?_append, Option.bind_eq_bind, Option.bind_some,
      if_pos hle, hsub]
    rfl

/-- A slice in front of a change is still there. -/
theorem slice?_before {start stop : Nat} {front old new part : List Char}
    (hstop : stop ≤ byteLen front) (h : slice? start stop (front ++ old) = some part) :
    slice? start stop (front ++ new) = some part := by
  obtain ⟨a, b, hcs, hstart, rfl⟩ := slice?_eq_some_iff.mp h
  have hle : byteLen (a ++ part) ≤ byteLen front := by
    rw [byteLen_append]
    omega
  obtain ⟨m, hfront, _⟩ := exists_between hcs.symm hle
  rw [slice?_eq_some_iff, hfront]
  exact ⟨a, m ++ new, by simp, hstart, rfl⟩

/-- A slice behind a change is still there, as far behind it as before. -/
theorem slice?_behind {start stop : Nat} {old new back part : List Char}
    (hstart : byteLen old ≤ start) (h : slice? start stop (old ++ back) = some part) :
    slice? (byteLen new + (start - byteLen old)) (byteLen new + (stop - byteLen old))
      (new ++ back) = some part := by
  obtain ⟨a, b, hcs, ha, rfl⟩ := slice?_eq_some_iff.mp h
  have hcs' : old ++ back = a ++ (part ++ b) := by rw [hcs, List.append_assoc]
  obtain ⟨m, rfl, rfl⟩ := exists_between hcs' (by omega)
  rw [byteLen_append] at ha
  rw [slice?_eq_some_iff]
  refine ⟨new ++ m, b, by simp, ?_, ?_⟩
  · rw [byteLen_append]
    omega
  · omega

/-- A character start behind a change is one as far behind it as before. -/
theorem isSome_cut?_behind {n : Nat} {old back : List Char} (new : List Char)
    (hn : byteLen old ≤ n) (h : (cut? n (old ++ back)).isSome) :
    (cut? (byteLen new + (n - byteLen old)) (new ++ back)).isSome := by
  obtain ⟨⟨a, b⟩, hcut⟩ := Option.isSome_iff_exists.mp h
  obtain ⟨hcs, ha⟩ := cut?_eq_some hcut
  obtain ⟨m, rfl, rfl⟩ := exists_between hcs (by omega)
  rw [byteLen_append] at ha
  have hlen : byteLen new + (n - byteLen old) = byteLen (new ++ m) := by
    rw [byteLen_append]
    omega
  rw [hlen, ← List.append_assoc, cut?_append]
  rfl

/-- Byte `n` belongs to a character other than a blank. -/
def NonblankAt (cs : List Char) (n : Nat) : Prop :=
  ∃ front c back, cs = front ++ c :: back ∧
    byteLen front ≤ n ∧ n < byteLen front + c.utf8Size ∧ isAsciiBlank c = false

theorem NonblankAt.lt {cs : List Char} {n : Nat} (h : NonblankAt cs n) : n < byteLen cs := by
  obtain ⟨front, c, back, rfl, _, hto, _⟩ := h
  rw [byteLen_append, byteLen_cons]
  omega

end UpgradeNotes.Text
