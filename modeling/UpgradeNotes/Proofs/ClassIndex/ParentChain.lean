import Mathlib.Data.List.Chain
import UpgradeNotes.Proofs.ClassIndex.Comparison
import UpgradeNotes.Proofs.ClassIndex.Search

/-!
# The chain of parents

The ancestors of a class are what its parent links lead to, one after the other, up to a
class without a parent, a class that is not registered, or the first class that was met
before. `ParentChain` says this of the names as they are written behind `extends`. On
every index there is exactly one such chain, and the ancestors are its names in their
declared spelling (`ancestors_parentChain`).
-/

namespace UpgradeNotes.ClassIndex

open Relation ClassName

variable {ix : ClassIndex}

/-- The parent of a registered class, as written. -/
def parentOf (ix : ClassIndex) (name : String) : Option String :=
  (ix.get? name).bind (·.parent)

theorem extends_iff {a b : String} : ix.Extends a b ↔ ix.parentOf a = some b :=
  Option.bind_eq_some_iff.symm

/-- The names of a class and of those that its parent links lead to in turn, as far as
these are new. -/
structure ParentChain (ix : ClassIndex) (name : String) (written : List String) : Prop where
  links : (name :: written).IsChain ix.Extends
  distinct : ((name :: written).map key).Nodup
  ended : ∀ last ∈ (name :: written).getLast?, ∀ parent, ix.Extends last parent →
    key parent ∈ (name :: written).map key

/-! ## One chain at most -/

/-- Of two chains of a relation that is a function, the one goes on where the other
ends. -/
theorem prefix_of_isChain {α : Type} {r : α → α → Prop} {a : α} {l m : List α}
    (hl : (a :: l).IsChain r) (hm : (a :: m).IsChain r)
    (hr : ∀ x y z, r x y → r x z → y = z) : l <+: m ∨ m <+: l := by
  induction l generalizing a m with
  | nil => exact .inl List.nil_prefix
  | cons b l ih =>
    cases m with
    | nil => exact .inr List.nil_prefix
    | cons c m =>
      rw [List.isChain_cons_cons] at hl hm
      obtain rfl := hr a b c hl.1 hm.1
      simpa using ih hl.2 hm.2

theorem ParentChain.eq_of_isPrefix {name : String} {written other : List String}
    (h : ParentChain ix name written) (hother : ParentChain ix name other)
    (hfront : written <+: other) : written = other := by
  obtain ⟨rest, rfl⟩ := hfront
  cases rest with
  | nil => rw [List.append_nil]
  | cons next rest =>
    -- the longer chain goes on with a name that the shorter one has already
    have hlinks := hother.links
    have hdistinct := hother.distinct
    rw [← List.cons_append] at hlinks hdistinct
    obtain ⟨last, hlast⟩ := Option.isSome_iff_exists.mp
      (List.getLast?_isSome.mpr (List.cons_ne_nil name written))
    have hnext := h.ended last hlast next
      ((List.isChain_append.mp hlinks).2.2 last hlast next rfl)
    rw [List.map_append, List.nodup_append] at hdistinct
    exact absurd rfl (hdistinct.2.2 _ hnext (key next) List.mem_cons_self)

theorem ParentChain.unique {name : String} {written other : List String}
    (h : ParentChain ix name written) (hother : ParentChain ix name other) :
    other = written := by
  have hone : ∀ x y z, ix.Extends x y → ix.Extends x z → y = z := by
    intro x y z hy hz
    rw [extends_iff] at hy hz
    exact Option.some.inj (hy.symm.trans hz)
  rcases prefix_of_isChain h.links hother.links hone with hfront | hfront
  · exact (h.eq_of_isPrefix hother hfront).symm
  · exact hother.eq_of_isPrefix h hfront

/-! ## The walk along parents -/

/-- A walk along parents, from a name that is the next parent: it ends without one, and
at a key that was seen. -/
inductive Climb (ix : ClassIndex) : List String → Option String → List String → Prop
  | root {seen : List String} : Climb ix seen none []
  | back {seen : List String} {parent : String} : key parent ∈ seen →
      Climb ix seen (some parent) []
  | up {seen : List String} {parent : String} {rest : List String} : key parent ∉ seen →
      Climb ix (key parent :: seen) (ix.parentOf parent) rest →
      Climb ix seen (some parent) (parent :: rest)

theorem Climb.links {seen written : List String} {name : String}
    (h : Climb ix seen (ix.parentOf name) written) :
    (name :: written).IsChain ix.Extends := by
  induction written generalizing seen name with
  | nil => exact .singleton name
  | cons parent rest ih =>
    generalize hstart : ix.parentOf name = start at h
    cases h with
    | up _ hrest =>
      rw [List.isChain_cons_cons]
      exact ⟨extends_iff.mpr hstart, ih hrest⟩

theorem Climb.distinct {seen written : List String} {start : Option String}
    (h : Climb ix seen start written) :
    (written.map key).Nodup ∧ ∀ k ∈ written.map key, k ∉ seen := by
  induction h with
  | root => simp
  | back _ => simp
  | up hnew _ ih =>
    obtain ⟨hnodup, hapart⟩ := ih
    rw [List.map_cons, List.nodup_cons]
    refine ⟨⟨?_, hnodup⟩, ?_⟩
    · intro hmem
      exact hapart _ hmem List.mem_cons_self
    · intro k hk
      rcases List.mem_cons.mp hk with rfl | hk
      · exact hnew
      · exact fun hseen => hapart k hk (List.mem_cons_of_mem _ hseen)

theorem Climb.ended {seen written : List String} {name : String}
    (h : Climb ix seen (ix.parentOf name) written) :
    ∀ last ∈ (name :: written).getLast?, ∀ parent, ix.Extends last parent →
      key parent ∈ seen ∨ key parent ∈ written.map key := by
  induction written generalizing seen name with
  | nil =>
    intro last hlast parent hparent
    obtain rfl : name = last := by simpa using hlast
    rw [extends_iff.mp hparent] at h
    cases h with
    | back hseen => exact .inl hseen
  | cons next rest ih =>
    intro last hlast parent hparent
    generalize ix.parentOf name = start at h
    cases h with
    | up _ hrest =>
      rw [List.getLast?_cons_cons] at hlast
      have hmem := ih hrest last hlast parent hparent
      rw [List.map_cons, List.mem_cons]
      rcases hmem with hseen | hrest
      · rcases List.mem_cons.mp hseen with heq | hseen
        · exact .inr (.inl heq)
        · exact .inl hseen
      · exact .inr (.inr hrest)

theorem Climb.parentChain {name : String} {written : List String}
    (h : Climb ix [key name] (ix.parentOf name) written) : ParentChain ix name written := by
  obtain ⟨hnodup, hapart⟩ := h.distinct
  refine ⟨h.links, ?_, ?_⟩
  · rw [List.map_cons, List.nodup_cons]
    exact ⟨fun hmem => hapart _ hmem List.mem_cons_self, hnodup⟩
  · intro last hlast parent hparent
    rw [List.map_cons, List.mem_cons]
    rcases h.ended last hlast parent hparent with hname | hmem
    · exact .inl (List.mem_singleton.mp hname)
    · exact .inr hmem

/-! ## The walk in rounds -/

/-- The walk along parents for at most so many rounds, none if it is not over by then. -/
def follow (ix : ClassIndex) : Nat → List String → Option String → Option (List String)
  | 0, _, _ => none
  | _ + 1, _, none => some []
  | rounds + 1, seen, some parent =>
    if key parent ∈ seen then some []
    else (ix.follow rounds (key parent :: seen) (ix.parentOf parent)).map
      (ix.spelling parent :: ·)

theorem Climb.follow_eq {seen written : List String} {start : Option String}
    (h : Climb ix seen start written) {rounds : Nat} (hrounds : written.length < rounds) :
    ix.follow rounds seen start = some (written.map ix.spelling) := by
  induction h generalizing rounds with
  | root =>
    obtain ⟨rounds, rfl⟩ := Nat.exists_eq_add_of_lt hrounds
    rfl
  | back hseen =>
    obtain ⟨rounds, rfl⟩ := Nat.exists_eq_add_of_lt hrounds
    simp [follow, hseen]
  | up hnew _ ih =>
    cases rounds with
    | zero => exact absurd hrounds (Nat.not_lt_zero _)
    | succ rounds =>
      rw [List.length_cons] at hrounds
      simp only [follow, if_neg hnew]
      rw [ih (by omega)]
      rfl

/-! ## The ancestors -/

/-- The chain of an index climbs along parents. The keys seen are those of classes. -/
theorem climb_chain {seen : List String} {entries : List (String × ClassInfo)}
    {start : Option String} (hunseen : Unseen ix seen entries)
    (hseen : ∀ k ∈ seen, ix.classes.get? k ≠ none) :
    ∃ written, chain ix entries start = written.map ix.spelling ∧ Climb ix seen start written := by
  fun_induction chain ix entries start generalizing seen with
  | case1 => exact ⟨[], rfl, .root⟩
  | case2 entries parent c others htake _ ih =>
    obtain ⟨hnew, hc⟩ := hunseen.get?_of_take? htake
    have hparent : ix.parentOf parent = c.parent := by
      show (ix.classes.get? (key parent)).bind (·.parent) = c.parent
      rw [hc]
      rfl
    obtain ⟨written, hchain, hclimb⟩ := ih (hunseen.taken htake) (by
      intro k hk
      rcases List.mem_cons.mp hk with rfl | hk
      · rw [hc]
        simp
      · exact hseen k hk)
    refine ⟨parent :: written, ?_, .up hnew (hparent ▸ hclimb)⟩
    rw [hchain, List.map_cons, spelling_of_get? hc]
  | case3 entries parent htake hclass =>
    refine ⟨[], rfl, .back ((hunseen.of_take?_eq_none htake).resolve_right ?_)⟩
    intro hnone
    rw [hasClass, get?, hnone] at hclass
    exact absurd hclass (by simp)
  | case4 entries parent htake hclass =>
    have hnone : ix.get? parent = none := by simpa [hasClass] using hclass
    refine ⟨[parent], ?_, .up (fun hmem => hseen _ hmem hnone) ?_⟩
    · simp [spelling, declaredName, hnone]
    · rw [parentOf, hnone]
      exact .root

theorem length_chain_le (entries : List (String × ClassInfo)) (start : Option String) :
    (chain ix entries start).length ≤ entries.length + 1 := by
  fun_induction chain ix entries start with
  | case1 => simp
  | case2 entries parent c others htake _ ih =>
    rw [List.length_cons, length_of_take? htake]
    omega
  | case3 => simp
  | case4 => simp

theorem length_ancestors_le (ix : ClassIndex) (name : String) :
    (ix.ancestors name).length ≤ ix.size := by
  unfold ancestors size Table.size
  split
  · rename_i c others htake
    rw [length_of_take? htake]
    exact length_chain_le others c.parent
  · simp

theorem Keyed.climb_ancestors (h : Keyed ix) (name : String) :
    ∃ written, ix.ancestors name = written.map ix.spelling ∧
      Climb ix [key name] (ix.parentOf name) written := by
  unfold ancestors parentOf get?
  split
  · rename_i c others htake
    obtain ⟨-, hc⟩ := h.unseen.get?_of_take? htake
    rw [hc]
    refine climb_chain (h.unseen.taken htake) ?_
    intro k hk
    rw [List.mem_singleton.mp hk, hc]
    simp
  · rename_i htake
    rw [(h.unseen.of_take?_eq_none htake).resolve_left List.not_mem_nil]
    exact ⟨[], rfl, .root⟩

/-- Parent links lead to every class of a chain. -/
theorem linked_of_isChain {name : String} {written : List String}
    (h : (name :: written).IsChain ix.Extends) :
    ∀ parent ∈ written, TransGen ix.Links (key name) (key parent) := by
  induction written generalizing name with
  | nil => simp
  | cons next rest ih =>
    rw [List.isChain_cons_cons] at h
    obtain ⟨⟨c, hc, hparent⟩, hrest⟩ := h
    have hlink : ix.Links (key name) (key next) :=
      ⟨c, hc, List.mem_map_of_mem (List.mem_append_left _ (Option.mem_toList.mpr hparent))⟩
    intro parent hmem
    rcases List.mem_cons.mp hmem with rfl | hmem
    · exact .single hlink
    · exact .head hlink (ih hrest parent hmem)

/-- The ancestors of a class are the one chain of its parents, in order and in their
declared spelling, and the walk that lists them ends after at most one round more than
there are classes. No two of them, nor the class and one of them, have the same key, and
the class is below all of them. -/
theorem ancestors_parentChain (h : Assembled ix) (name : String) :
    ∃ written,
      ParentChain ix name written ∧ (∀ other, ParentChain ix name other → other = written) ∧
      ix.ancestors name = written.map ix.spelling ∧
      (∀ rounds, ix.size < rounds →
        ix.follow rounds [key name] (ix.parentOf name) = some (ix.ancestors name)) ∧
      (key name :: (ix.ancestors name).map key).Nodup ∧
      ∀ parent ∈ ix.ancestors name, ix.isSubclass name parent = true := by
  have hkeyed := h.keyed
  obtain ⟨written, hancestors, hclimb⟩ := hkeyed.climb_ancestors name
  have hchain := hclimb.parentChain
  -- spelling a name as declared does not change its key
  have hkeys : (ix.ancestors name).map key = written.map key := by
    rw [hancestors, List.map_map]
    exact List.map_congr_left fun parent _ => hkeyed.key_spelling parent
  refine ⟨written, hchain, fun other => hchain.unique, hancestors, ?_, ?_, ?_⟩
  · intro rounds hrounds
    have hlength := ix.length_ancestors_le name
    rw [hancestors, List.length_map] at hlength
    rw [hancestors]
    exact hclimb.follow_eq (by omega)
  · rw [hkeys]
    exact hchain.distinct
  · intro parent hparent
    rw [hancestors] at hparent
    obtain ⟨name', hmem, rfl⟩ := List.mem_map.mp hparent
    rw [hkeyed.isSubclass_iff, hkeyed.key_spelling]
    exact linked_of_isChain hchain.links name' hmem

/-- A class whose parents run in a circle, and one with a parent that is not
registered. -/
def crossed : ClassIndex :=
  empty.extend
    [{ name := "App\\A", parent := some "\\app\\b" }, { name := "App\\B", parent := some "APP\\C" },
      { name := "App\\C", parent := some "App\\B" }, { name := "App\\D", parent := some "App\\a" },
      { name := "App\\E", parent := some "Vendor\\Base" }]

theorem ancestors_parentChain_crossed :
    Assembled crossed ∧ crossed.ancestors "app\\d" = ["App\\A", "App\\B", "App\\C"] ∧
      crossed.ancestors "App\\E" = ["Vendor\\Base"] ∧
      crossed.isSubclass "app\\d" "App\\C" = true := by
  have h : Assembled crossed := .extend _ .empty
  have hd : ParentChain crossed "app\\d" ["App\\a", "\\app\\b", "APP\\C"] := by
    have hlast : crossed.parentOf "APP\\C" = some "App\\B" := by decide +kernel
    refine ⟨?_, by decide +kernel, ?_⟩
    · simp only [List.isChain_cons_cons, extends_iff, List.isChain_singleton]
      decide +kernel
    · simp only [extends_iff]
      intro last hmem parent hparent
      obtain rfl : "APP\\C" = last := by simpa using hmem
      obtain rfl := Option.some.inj (hlast.symm.trans hparent)
      decide +kernel
  have he : ParentChain crossed "App\\E" ["Vendor\\Base"] := by
    have hlast : crossed.parentOf "Vendor\\Base" = none := by decide +kernel
    refine ⟨?_, by decide +kernel, ?_⟩
    · simp only [List.isChain_cons_cons, extends_iff, List.isChain_singleton]
      decide +kernel
    · simp only [extends_iff]
      intro last hmem parent hparent
      obtain rfl : "Vendor\\Base" = last := by simpa using hmem
      exact absurd (hlast.symm.trans hparent) nofun
  obtain ⟨writtenD, -, hd', hancestorsD, -, -, hbelow⟩ := ancestors_parentChain h "app\\d"
  obtain ⟨writtenE, -, he', hancestorsE, -⟩ := ancestors_parentChain h "App\\E"
  rw [← hd' _ hd] at hancestorsD
  rw [← he' _ he] at hancestorsE
  have hlist : crossed.ancestors "app\\d" = ["App\\A", "App\\B", "App\\C"] := by
    rw [hancestorsD]
    decide +kernel
  refine ⟨h, hlist, ?_, hbelow _ (by simp [hlist])⟩
  rw [hancestorsE]
  decide +kernel

end UpgradeNotes.ClassIndex
