import Mathlib.Algebra.Ring.Nat
import UpgradeNotes.Proofs.ClassIndex.Reachability

/-!
# Searches end

A search takes keys from a stack. A key that it has seen, or that no class has, is
dropped; a class holds the answer or puts the keys it leads to on the stack
(`search`). No class is taken twice, so the search is over after one round for every
key that classes can put there and two more (`Searches.search_eq`), on any index, also
on one with cycles.

Whether a class is below another is such a search. It always ends, and the answer is
whether links lead from the one class to the other in one or more steps
(`isSubclass_iff_linked`).
-/

namespace UpgradeNotes.ClassIndex

open Relation ClassName

/-! ## What was not seen yet -/

/-- The entries that are left when the classes under the keys seen are taken out. -/
structure Unseen (ix : ClassIndex) (seen : List String)
    (entries : List (String × ClassInfo)) : Prop where
  nodup : (entries.map (·.1)).Nodup
  lookup : ∀ k, entries.lookup k = if k ∈ seen then none else ix.classes.get? k

section Unseen

variable {ix : ClassIndex} {seen : List String} {entries others : List (String × ClassInfo)}
  {k : String} {c : ClassInfo}

theorem Keyed.unseen (h : Keyed ix) : Unseen ix [] ix.classes.entries :=
  ⟨h.nodup, fun _ => by simp [Table.get?]⟩

/-- A class that can be taken out was not seen. -/
theorem Unseen.get?_of_take? (h : Unseen ix seen entries)
    (htake : take? k entries = some (c, others)) : k ∉ seen ∧ ix.classes.get? k = some c := by
  have hc := h.lookup k
  rw [lookup_of_take? htake] at hc
  by_cases hk : k ∈ seen
  · simp [hk] at hc
  · rw [if_neg hk] at hc
    exact ⟨hk, hc.symm⟩

/-- A class that was not seen can be taken out. -/
theorem Unseen.exists_take? (h : Unseen ix seen entries) (hnew : k ∉ seen)
    (hc : ix.classes.get? k = some c) : ∃ others, take? k entries = some (c, others) := by
  have hlookup : entries.lookup k = some c := by
    rw [h.lookup, if_neg hnew, hc]
  cases htake : take? k entries with
  | none => exact absurd ((take?_eq_none_iff.mp htake).symm.trans hlookup) (by simp)
  | some found =>
    obtain ⟨d, others⟩ := found
    obtain rfl := Option.some.inj ((lookup_of_take? htake).symm.trans hlookup)
    exact ⟨others, rfl⟩

/-- What cannot be taken out was seen or is no class. -/
theorem Unseen.of_take?_eq_none (h : Unseen ix seen entries) (htake : take? k entries = none) :
    k ∈ seen ∨ ix.classes.get? k = none := by
  have hnone := h.lookup k
  rw [take?_eq_none_iff.mp htake] at hnone
  by_cases hk : k ∈ seen
  · exact .inl hk
  · rw [if_neg hk] at hnone
    exact .inr hnone.symm

theorem Unseen.taken (h : Unseen ix seen entries) (htake : take? k entries = some (c, others)) :
    Unseen ix (k :: seen) others := by
  obtain ⟨hnodup, hgone⟩ := nodup_of_take? h.nodup htake
  refine ⟨hnodup, ?_⟩
  intro l
  by_cases hl : l = k
  · simp [hl, hgone]
  · rw [lookup_others_of_ne htake hl, h.lookup]
    simp [hl]

theorem Unseen.dropped (h : Unseen ix seen entries) (htake : take? k entries = none) :
    Unseen ix (k :: seen) entries := by
  refine ⟨h.nodup, ?_⟩
  intro l
  by_cases hl : l = k
  · simp [hl, take?_eq_none_iff.mp htake]
  · rw [h.lookup]
    simp [hl]

/-- A class that is taken out takes its share of a sum with it. -/
theorem sum_of_take? (size : ClassInfo → Nat) (htake : take? k entries = some (c, others)) :
    (entries.map (size ·.2)).sum = size c + (others.map (size ·.2)).sum := by
  obtain ⟨front, back, rfl, rfl, _⟩ := split_of_take? htake
  simp only [List.map_append, List.map_cons, List.sum_append, List.sum_cons]
  omega

end Unseen

/-! ## Searches with a bound -/

/-- A search for at most so many rounds, none if it is not over by then. What a class
says is an answer or the keys that it leads to, of which the last is taken first. -/
def search {α : Type} (ix : ClassIndex) (visit : ClassInfo → α ⊕ List String) (otherwise : α) :
    Nat → List String → List String → Option α
  | 0, _, _ => none
  | _ + 1, _, [] => some otherwise
  | rounds + 1, seen, k :: stack =>
    if k ∈ seen then search ix visit otherwise rounds seen stack
    else match ix.classes.get? k with
      | none => search ix visit otherwise rounds (k :: seen) stack
      | some c =>
        match visit c with
        | .inl answer => some answer
        | .inr next => search ix visit otherwise rounds (k :: seen) (next.reverse ++ stack)

/-- A walk that answers as the search does, with the entries left in place of the keys
seen. -/
structure Searches {α : Type} (visit : ClassInfo → α ⊕ List String) (otherwise : α)
    (walk : List (String × ClassInfo) → List String → α) : Prop where
  done : ∀ entries, walk entries [] = otherwise
  dropped : ∀ {entries k}, take? k entries = none →
    ∀ stack, walk entries (k :: stack) = walk entries stack
  answered : ∀ {entries k c others answer}, take? k entries = some (c, others) →
    visit c = .inl answer → ∀ stack, walk entries (k :: stack) = answer
  onward : ∀ {entries k c others next}, take? k entries = some (c, others) →
    visit c = .inr next →
    ∀ stack, walk entries (k :: stack) = walk others (next.reverse ++ stack)

/-- A search is over when it had a round for every key on the stack, one for every key
that the classes left can put there, and one more. -/
theorem Searches.search_eq {α : Type} {visit : ClassInfo → α ⊕ List String} {otherwise : α}
    {walk : List (String × ClassInfo) → List String → α} (hwalk : Searches visit otherwise walk)
    (size : ClassInfo → Nat) (hsize : ∀ c next, visit c = .inr next → next.length ≤ size c)
    {ix : ClassIndex} {seen : List String} {entries : List (String × ClassInfo)}
    (hunseen : Unseen ix seen entries) {stack : List String} {rounds : Nat}
    (hrounds : stack.length + (entries.map (size ·.2)).sum < rounds) :
    search ix visit otherwise rounds seen stack = some (walk entries stack) := by
  induction rounds generalizing seen entries stack with
  | zero => exact absurd hrounds (Nat.not_lt_zero _)
  | succ rounds ih =>
    cases stack with
    | nil => rw [search, hwalk.done]
    | cons k stack =>
      simp only [List.length_cons] at hrounds
      rw [search]
      cases htake : take? k entries with
      | none =>
        rw [hwalk.dropped htake]
        by_cases hk : k ∈ seen
        · rw [if_pos hk]
          exact ih hunseen (by omega)
        · rw [if_neg hk, (hunseen.of_take?_eq_none htake).resolve_left hk]
          exact ih (hunseen.dropped htake) (by omega)
      | some found =>
        obtain ⟨c, others⟩ := found
        obtain ⟨hk, hc⟩ := hunseen.get?_of_take? htake
        have hsum := sum_of_take? size htake
        rw [if_neg hk, hc]
        cases hvisit : visit c with
        | inl answer => simp only [hvisit, hwalk.answered htake hvisit]
        | inr next =>
          -- the class pays for the keys that it puts on the stack
          have hnext := hsize c next hvisit
          simp only [hvisit, hwalk.onward htake hvisit]
          refine ih (hunseen.taken htake) ?_
          rw [List.length_append, List.length_reverse]
          omega

/-! ## Subclasses -/

/-- Looks for a key among the parent and the interfaces of a class. -/
def lookFor (target : String) (c : ClassInfo) : Bool ⊕ List String :=
  let next := c.links.map key
  if target ∈ next then .inl true else .inr next

/-- The number of parents and interfaces that the classes name. -/
def linkCount (ix : ClassIndex) : Nat :=
  (ix.classes.entries.map (·.2.links.length)).sum

theorem reaches_of_take? {target k : String} {entries others : List (String × ClassInfo)}
    {c : ClassInfo} (htake : take? k entries = some (c, others)) (stack : List String) :
    reaches target entries (k :: stack) =
      ((c.links.map key).contains target ||
        reaches target others ((c.links.map key).reverse ++ stack)) := by
  rw [reaches]
  split
  · rename_i htake'
    obtain ⟨rfl, rfl⟩ := Prod.mk.inj (Option.some.inj (htake.symm.trans htake'))
    rfl
  · rename_i htake'
    exact absurd (htake.symm.trans htake') (by simp)

theorem reaches_of_take?_eq_none {target k : String} {entries : List (String × ClassInfo)}
    (htake : take? k entries = none) (stack : List String) :
    reaches target entries (k :: stack) = reaches target entries stack := by
  rw [reaches]
  split
  · rename_i htake'
    exact absurd (htake.symm.trans htake') (by simp)
  · rfl

theorem searches_reaches (target : String) : Searches (lookFor target) false (reaches target) where
  done _ := by rw [reaches]
  dropped := reaches_of_take?_eq_none
  answered := by
    intro entries k c others answer htake hvisit stack
    rw [reaches_of_take? htake]
    by_cases htarget : target ∈ c.links.map key
    · simp_all [lookFor]
    · simp [lookFor, htarget] at hvisit
  onward := by
    intro entries k c others next htake hvisit stack
    rw [reaches_of_take? htake]
    by_cases htarget : target ∈ c.links.map key
    · simp [lookFor, htarget] at hvisit
    · simp_all [lookFor]

/-- The search for a class behind the links of another is over after a round for every
link and two more. -/
theorem Keyed.search_eq_isSubclass {ix : ClassIndex} (h : Keyed ix) {name other : String}
    {rounds : Nat} (hrounds : ix.linkCount + 2 ≤ rounds) :
    ix.search (lookFor (key other)) false rounds [] [key name] =
      some (ix.isSubclass name other) := by
  refine (searches_reaches (key other)).search_eq (·.links.length) ?_ h.unseen ?_
  · intro c next hnext
    by_cases htarget : key other ∈ c.links.map key
    · simp [lookFor, htarget] at hnext
    · simp only [lookFor, if_neg htarget, Sum.inr.injEq] at hnext
      exact Nat.le_of_eq (by rw [← hnext, List.length_map])
  · rw [List.length_singleton]
    unfold linkCount at hrounds
    omega

/-- No links lead from a class back to it. -/
def Acyclic (ix : ClassIndex) : Prop :=
  ∀ k, ¬ TransGen ix.Links k k

/-- A class is below itself iff links lead back to it, and some class is if they do so
anywhere. -/
theorem Keyed.acyclic_iff {ix : ClassIndex} (h : Keyed ix) :
    Acyclic ix ↔ ∀ name, ix.isSubclass name name = false := by
  constructor
  · intro hacyclic name
    rw [Bool.eq_false_iff, ne_eq, h.isSubclass_iff]
    exact hacyclic (key name)
  · intro hfalse k hpath
    obtain ⟨l, ⟨c, hc, _⟩, _⟩ := TransGen.head'_iff.mp hpath
    -- the key is the one of the class that the first link leaves
    rw [← h.key_of_lookup hc, ← h.isSubclass_iff, hfalse] at hpath
    exact absurd hpath (by simp)

/-- A class is below another iff links lead there in one or more steps, each of them out
of a registered class, and the search for that always ends. So to be below is
transitive, a class that is not registered is below none, and no class is below itself
iff links do not run in circles. -/
theorem isSubclass_iff_linked {ix : ClassIndex} (h : Assembled ix) :
    (∀ name other,
      (∀ rounds, ix.linkCount + 2 ≤ rounds →
        ix.search (lookFor (key other)) false rounds [] [key name] =
          some (ix.isSubclass name other)) ∧
      (ix.isSubclass name other = true ↔ TransGen ix.Links (key name) (key other))) ∧
    (∀ a b c, ix.isSubclass a b = true → ix.isSubclass b c = true →
      ix.isSubclass a c = true) ∧
    (∀ a b, ix.hasClass a = false → ix.isSubclass a b = false) ∧
    ((∀ name, ix.isSubclass name name = false) ↔ Acyclic ix) := by
  have hkeyed := h.keyed
  refine ⟨?_, ?_, ?_, hkeyed.acyclic_iff.symm⟩
  · intro name other
    exact ⟨fun rounds hrounds => hkeyed.search_eq_isSubclass hrounds, hkeyed.isSubclass_iff⟩
  · intro a b c hab hbc
    rw [hkeyed.isSubclass_iff] at hab hbc ⊢
    exact hab.trans hbc
  · intro a b hclass
    rw [Bool.eq_false_iff, ne_eq, hkeyed.isSubclass_iff]
    intro hpath
    obtain ⟨l, ⟨c, hc, _⟩, _⟩ := TransGen.head'_iff.mp hpath
    rw [hasClass, get?, Table.get?, hc] at hclass
    exact absurd hclass (by simp)

/-- Two classes that extend each other, one of which implements an interface that is
not registered. -/
def circle : ClassIndex :=
  (empty.register { name := "App\\A", parent := some "\\app\\b" }).extend
    [{ name := "App\\B", parent := some "App\\A", interfaces := ["Countable"] }]

theorem isSubclass_iff_linked_circle :
    Assembled circle ∧ circle.isSubclass "App\\A" "App\\A" = true ∧
      circle.isSubclass "App\\A" "countable" = true ∧
      circle.isSubclass "Countable" "App\\A" = false ∧ ¬ Acyclic circle ∧
      circle.search (lookFor (key "App\\C")) false 5 [] [key "App\\A"] =
        some (circle.isSubclass "App\\A" "App\\C") := by
  have h : Assembled circle := .extend _ (.register _ .empty)
  obtain ⟨hsearch, htrans, hunknown, hacyclic⟩ := isSubclass_iff_linked h
  have hab : circle.isSubclass "App\\A" "App\\B" = true :=
    (hsearch _ _).2.mpr (.single ⟨_, rfl, by decide +kernel⟩)
  have hba : circle.isSubclass "App\\B" "App\\A" = true :=
    (hsearch _ _).2.mpr (.single ⟨_, rfl, by decide +kernel⟩)
  have hcountable : circle.isSubclass "App\\B" "countable" = true :=
    (hsearch _ _).2.mpr (.single ⟨_, rfl, by decide +kernel⟩)
  have haa := htrans _ _ _ hab hba
  refine ⟨h, haa, htrans _ _ _ hab hcountable, hunknown _ _ rfl, ?_,
    (hsearch _ _).1 5 (by decide +kernel)⟩
  intro hnone
  rw [← hacyclic] at hnone
  exact absurd haa (by simp [hnone])

end UpgradeNotes.ClassIndex
