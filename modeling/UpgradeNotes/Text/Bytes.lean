/-!
# Byte offsets

Positions in a source are counted in bytes of its UTF-8 form. A position is
usable for cutting only where a character starts, so cutting is partial:
`cut?` fails inside a character and past the end.
-/

namespace UpgradeNotes.Text

/-- The number of bytes that a character list takes in UTF-8. -/
def byteLen : List Char → Nat
  | [] => 0
  | c :: cs => c.utf8Size + byteLen cs

@[simp] theorem byteLen_nil : byteLen [] = 0 := rfl

@[simp] theorem byteLen_cons (c : Char) (cs : List Char) :
    byteLen (c :: cs) = c.utf8Size + byteLen cs := rfl

@[simp] theorem byteLen_append (a b : List Char) : byteLen (a ++ b) = byteLen a + byteLen b := by
  induction a with
  | nil => simp
  | cons c cs ih => simp [ih, Nat.add_assoc]

/-- Splits a character list after exactly `n` bytes. -/
def cut? (n : Nat) : List Char → Option (List Char × List Char)
  | [] => if n = 0 then some ([], []) else none
  | c :: cs =>
    if n = 0 then some ([], c :: cs)
    else if c.utf8Size ≤ n then
      (cut? (n - c.utf8Size) cs).map fun (a, b) => (c :: a, b)
    else none

/-- A cut loses nothing and takes exactly the bytes asked for. -/
theorem cut?_eq_some {n : Nat} {cs a b : List Char} (h : cut? n cs = some (a, b)) :
    cs = a ++ b ∧ byteLen a = n := by
  induction cs generalizing n a b with
  | nil =>
    simp only [cut?] at h
    split at h <;> simp_all
  | cons c cs ih =>
    simp only [cut?] at h
    split at h
    · simp_all
    · split at h
      · obtain ⟨⟨u, v⟩, hu, he⟩ := Option.map_eq_some_iff.1 h
        simp only [Prod.mk.injEq] at he
        obtain ⟨rfl, rfl⟩ := he
        obtain ⟨rfl, hlen⟩ := ih hu
        simp only [List.cons_append, byteLen_cons, true_and]
        omega
      · simp at h

/-- Cutting after the bytes of a front part gives that part and the rest. -/
theorem cut?_append (a b : List Char) : cut? (byteLen a) (a ++ b) = some (a, b) := by
  induction a with
  | nil => cases b <;> simp [cut?]
  | cons c cs ih =>
    have hc := c.utf8Size_pos
    have hne : c.utf8Size + byteLen cs ≠ 0 := by omega
    have hle : c.utf8Size ≤ c.utf8Size + byteLen cs := by omega
    have hsub : c.utf8Size + byteLen cs - c.utf8Size = byteLen cs := by omega
    simp only [List.cons_append, byteLen_cons, cut?, if_neg hne, if_pos hle, hsub, ih,
      Option.map_some]

/-- Whether a character starts at byte `n`, or the text ends there. -/
def isBoundary (n : Nat) : List Char → Bool
  | [] => n == 0
  | c :: cs => n == 0 || (c.utf8Size ≤ n && isBoundary (n - c.utf8Size) cs)

/-- A cut succeeds exactly where a character starts or the text ends. -/
theorem isSome_cut? (n : Nat) (cs : List Char) : (cut? n cs).isSome = isBoundary n cs := by
  induction cs generalizing n with
  | nil => by_cases h : n = 0 <;> simp [cut?, isBoundary, h]
  | cons c cs ih =>
    by_cases hzero : n = 0
    · simp [cut?, isBoundary, hzero]
    · by_cases hle : c.utf8Size ≤ n <;> simp [cut?, isBoundary, hzero, hle, ih]

/-- The number of bytes of a text. -/
def size (s : String) : Nat :=
  byteLen s.toList

/-- The characters between two byte offsets, where both are character starts
in order. -/
def slice? (start stop : Nat) (cs : List Char) : Option (List Char) := do
  let (_, rest) ← cut? start cs
  let (part, _) ← if start ≤ stop then cut? (stop - start) rest else none
  return part

/-- The characters that start before byte `n`. -/
def takeBytes (n : Nat) : List Char → List Char
  | [] => []
  | c :: cs => if n = 0 then [] else c :: takeBytes (n - c.utf8Size) cs

/-- The characters from the first one that starts at byte `n` or later. -/
def dropBytes (n : Nat) : List Char → List Char
  | [] => []
  | c :: cs => if n = 0 then c :: cs else dropBytes (n - c.utf8Size) cs

end UpgradeNotes.Text
