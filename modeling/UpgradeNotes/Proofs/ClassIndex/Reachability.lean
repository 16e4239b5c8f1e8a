import Mathlib.Data.List.Nodup
import Mathlib.Logic.Relation
import UpgradeNotes.ClassIndex
import UpgradeNotes.Proofs.ClassName

/-!
# The walks of a class index reach what its links reach

The walks over an index never visit a class twice, which cuts them short on
cycles. They find all the same what the links of the index reach:
`isSubclass_iff` for parents and interfaces, `mem_chain_iff` for parents alone.
Both rest on one remark. A path that leaves a class leaves it for the last time
somewhere, and from there on the class is not needed any more
(`reflTransGen_or_of_mem`).

The keys of an index that was built by registering classes are distinct and are
those of its classes (`keyed_extend`), and under each stands the class declared
last (`get?_extend`).
-/

namespace UpgradeNotes.ClassIndex

open Relation

/-! ## Entries under keys -/

/-- Every class stands under its key, and no key has two classes. -/
structure Keyed (ix : ClassIndex) : Prop where
  nodup : (ix.classes.entries.map (·.1)).Nodup
  keys : ∀ e ∈ ix.classes.entries, e.1 = ClassName.key e.2.name

theorem mem_put {α : Type} {key : String} {value : α} {entries : List (String × α)}
    {e : String × α} (h : e ∈ Table.put key value entries) : e = (key, value) ∨ e ∈ entries := by
  induction entries with
  | nil => exact .inl (List.mem_singleton.mp h)
  | cons entry rest ih =>
    simp only [Table.put] at h
    split at h
    · exact (List.mem_cons.mp h).imp_right (List.mem_cons_of_mem _)
    · rcases List.mem_cons.mp h with rfl | h
      · exact .inr List.mem_cons_self
      · exact (ih h).imp_right (List.mem_cons_of_mem _)

theorem nodup_put {α : Type} {key : String} {value : α} {entries : List (String × α)}
    (h : (entries.map (·.1)).Nodup) : ((Table.put key value entries).map (·.1)).Nodup := by
  induction entries with
  | nil => simp [Table.put]
  | cons entry rest ih =>
    rw [List.map_cons, List.nodup_cons] at h
    simp only [Table.put]
    split
    · rename_i hkey
      rw [List.map_cons, List.nodup_cons, ← hkey]
      exact h
    · rename_i hkey
      rw [List.map_cons, List.nodup_cons]
      refine ⟨?_, ih h.2⟩
      intro hmem
      obtain ⟨e, he, heq⟩ := List.mem_map.mp hmem
      rcases mem_put he with rfl | he
      · exact hkey heq.symm
      · exact h.1 (List.mem_map.mpr ⟨e, he, heq⟩)

theorem Keyed.register {ix : ClassIndex} (h : Keyed ix) (c : ClassInfo) :
    Keyed (ix.register c) := by
  refine ⟨nodup_put h.nodup, ?_⟩
  intro e he
  rcases mem_put he with rfl | he
  · rfl
  · exact h.keys e he

theorem Keyed.extend {ix : ClassIndex} (h : Keyed ix) (cs : List ClassInfo) :
    Keyed (ix.extend cs) := by
  induction cs generalizing ix with
  | nil => exact h
  | cons c rest ih => exact ih (h.register c)

/-- Under a key stands the class that was declared last under a spelling of it. -/
theorem get?_extend (ix : ClassIndex) (cs : List ClassInfo) (k : String) :
    (ix.extend cs).classes.get? k =
      (cs.reverse.find? fun c => ClassName.key c.name = k).or (ix.classes.get? k) := by
  induction cs generalizing ix with
  | nil => rfl
  | cons c rest ih =>
    have hregister : (ix.register c).classes.get? k =
        if k = ClassName.key c.name then some c else ix.classes.get? k :=
      ix.classes.get?_insert (ClassName.key c.name) k c
    show ((ix.register c).extend rest).classes.get? k = _
    rw [ih, hregister, List.reverse_cons, List.find?_append, Option.or_assoc]
    by_cases hk : k = ClassName.key c.name
    · simp [hk]
    · simp [hk, Ne.symm hk]

theorem keyed_empty : Keyed empty :=
  ⟨List.nodup_nil, fun _ he => absurd he List.not_mem_nil⟩

/-- However an index is built, its classes stand under their keys. -/
theorem keyed_extend (cs : List ClassInfo) : Keyed (empty.extend cs) :=
  keyed_empty.extend cs

/-- An index that was built from the empty one by registering classes, one at a
time or several at once. -/
inductive Assembled : ClassIndex → Prop
  | empty : Assembled empty
  | register {ix : ClassIndex} (c : ClassInfo) : Assembled ix → Assembled (ix.register c)
  | extend {ix : ClassIndex} (cs : List ClassInfo) : Assembled ix → Assembled (ix.extend cs)

theorem Assembled.keyed {ix : ClassIndex} (h : Assembled ix) : Keyed ix := by
  induction h with
  | empty => exact keyed_empty
  | register c _ ih => exact ih.register c
  | extend cs _ ih => exact ih.extend cs

/-- The class found under a key is declared under a spelling of it. -/
theorem Keyed.key_of_lookup {ix : ClassIndex} (h : Keyed ix) {k : String} {c : ClassInfo}
    (hc : ix.classes.get? k = some c) : ClassName.key c.name = k := by
  obtain ⟨front, back, hentries, _⟩ := List.lookup_eq_some_iff.mp hc
  refine (h.keys (k, c) ?_).symm
  rw [hentries]
  exact List.mem_append_right _ List.mem_cons_self

/-- The class found under a name is declared under a spelling of that name. -/
theorem Keyed.key_of_get? {ix : ClassIndex} (h : Keyed ix) {name : String} {c : ClassInfo}
    (hc : ix.get? name = some c) : ClassName.key c.name = ClassName.key name :=
  h.key_of_lookup hc

/-! ## Taking a class out -/

theorem take?_eq_none_iff {key : String} {entries : List (String × ClassInfo)} :
    take? key entries = none ↔ entries.lookup key = none := by
  induction entries with
  | nil => simp [take?]
  | cons entry rest ih =>
    obtain ⟨k, c⟩ := entry
    by_cases hk : k = key
    · simp [take?, hk]
    · have hb : (key == k) = false := beq_eq_false_iff_ne.mpr (Ne.symm hk)
      simp [take?, hk, List.lookup_cons, hb, ih]

/-- The first class under the key is taken out, and all else stays as it is. -/
theorem split_of_take? {key : String} {entries others : List (String × ClassInfo)} {c : ClassInfo}
    (h : take? key entries = some (c, others)) :
    ∃ front back, entries = front ++ (key, c) :: back ∧ others = front ++ back ∧
      front.lookup key = none := by
  induction entries generalizing others with
  | nil => exact absurd h (by simp [take?])
  | cons entry rest ih =>
    obtain ⟨k, d⟩ := entry
    simp only [take?] at h
    split at h
    · rename_i hk
      obtain ⟨rfl, rfl⟩ := Prod.mk.inj (Option.some.inj h)
      exact ⟨[], rest, by rw [hk]; rfl, rfl, rfl⟩
    · rename_i hk
      obtain ⟨⟨found, left⟩, hleft, heq⟩ := Option.map_eq_some_iff.mp h
      obtain ⟨rfl, rfl⟩ := Prod.mk.inj heq
      obtain ⟨front, back, rfl, rfl, hfront⟩ := ih hleft
      refine ⟨(k, d) :: front, back, rfl, rfl, ?_⟩
      rw [List.lookup_cons, beq_eq_false_iff_ne.mpr (Ne.symm hk)]
      exact hfront

theorem lookup_of_take? {key : String} {entries others : List (String × ClassInfo)}
    {c : ClassInfo} (h : take? key entries = some (c, others)) : entries.lookup key = some c := by
  obtain ⟨front, back, rfl, _, hfront⟩ := split_of_take? h
  rw [List.lookup_append, hfront, List.lookup_cons_self]
  rfl

theorem lookup_others_of_ne {key other : String} {entries others : List (String × ClassInfo)}
    {c : ClassInfo} (h : take? key entries = some (c, others)) (hne : other ≠ key) :
    others.lookup other = entries.lookup other := by
  obtain ⟨front, back, rfl, rfl, _⟩ := split_of_take? h
  rw [List.lookup_append, List.lookup_append, List.lookup_cons, beq_eq_false_iff_ne.mpr hne]

/-- A class found is the one that is taken out or is found among the others. -/
theorem eq_or_lookup_others {key k : String} {entries others : List (String × ClassInfo)}
    {c d : ClassInfo} (h : take? key entries = some (c, others)) (hd : entries.lookup k = some d) :
    d = c ∨ others.lookup k = some d := by
  by_cases hk : k = key
  · subst hk
    rw [lookup_of_take? h] at hd
    exact .inl (Option.some.inj hd).symm
  · exact .inr ((lookup_others_of_ne h hk).trans hd)

/-- With distinct keys, those left are distinct and do not have the one taken. -/
theorem nodup_of_take? {key : String} {entries others : List (String × ClassInfo)} {c : ClassInfo}
    (hnodup : (entries.map (·.1)).Nodup) (h : take? key entries = some (c, others)) :
    (others.map (·.1)).Nodup ∧ others.lookup key = none := by
  obtain ⟨front, back, rfl, rfl, _⟩ := split_of_take? h
  rw [List.map_append, List.map_cons, List.nodup_middle, ← List.map_append, List.nodup_cons]
    at hnodup
  refine ⟨hnodup.2, List.lookup_eq_none_iff.mpr ?_⟩
  intro e he
  rw [bne_iff_ne]
  rintro rfl
  exact hnodup.1 (List.mem_map.mpr ⟨e, he, rfl⟩)

/-- What is found among the others was there before, under another key. -/
theorem lookup_of_others {key other : String} {entries others : List (String × ClassInfo)}
    {c d : ClassInfo} (hnodup : (entries.map (·.1)).Nodup)
    (h : take? key entries = some (c, others)) (hd : others.lookup other = some d) :
    other ≠ key ∧ entries.lookup other = some d := by
  have hne : other ≠ key := by
    rintro rfl
    rw [(nodup_of_take? hnodup h).2] at hd
    exact absurd hd (by simp)
  exact ⟨hne, (lookup_others_of_ne h hne).symm.trans hd⟩

/-! ## Paths -/

/-- If every step is one of the steps `s` or ends in `ends`, then a path is made
of steps `s` altogether, or from its last point in `ends` on. -/
theorem reflTransGen_or_of_mem {α : Type} {r s : α → α → Prop} {ends : α → Prop}
    {a b : α} (hab : ReflTransGen r a b) (h : ∀ x y, r x y → s x y ∨ ends y) :
    ReflTransGen s a b ∨ ∃ n, ends n ∧ ReflTransGen s n b := by
  induction hab using ReflTransGen.head_induction_on with
  | refl => exact .inl .refl
  | head hstep _ ih =>
    rcases ih with hs | hfrom
    · rcases h _ _ hstep with hstep | hend
      · exact .inl (hs.head hstep)
      · exact .inr ⟨_, hend, hs⟩
    · exact .inr hfrom

/-- A link from the key of a class among the entries to the key of its parent or
of one of its interfaces. -/
def LinkIn (entries : List (String × ClassInfo)) (k l : String) : Prop :=
  ∃ c, entries.lookup k = some c ∧ l ∈ c.links.map ClassName.key

/-- A link from a name of a class among the entries to its parent as written. -/
def ParentIn (entries : List (String × ClassInfo)) (a b : String) : Prop :=
  ∃ c, entries.lookup (ClassName.key a) = some c ∧ c.parent = some b

/-- A step uses the class that is taken out or stays possible without it. -/
theorem linkIn_others {key : String} {entries others : List (String × ClassInfo)} {c : ClassInfo}
    (h : take? key entries = some (c, others)) {k l : String} (hkl : LinkIn entries k l) :
    LinkIn others k l ∨ l ∈ c.links.map ClassName.key := by
  obtain ⟨d, hd, hl⟩ := hkl
  rcases eq_or_lookup_others h hd with rfl | hd
  · exact .inr hl
  · exact .inl ⟨d, hd, hl⟩

theorem parentIn_others {key : String} {entries others : List (String × ClassInfo)}
    {c : ClassInfo} (h : take? key entries = some (c, others)) {a b : String}
    (hab : ParentIn entries a b) : ParentIn others a b ∨ c.parent = some b := by
  obtain ⟨d, hd, hb⟩ := hab
  rcases eq_or_lookup_others h hd with rfl | hd
  · exact .inr hb
  · exact .inl ⟨d, hd, hb⟩

/-! ## Superclasses -/

/-- The walk over parents and interfaces finds exactly what a path of one or more
links leads to. -/
theorem reaches_iff {target : String} {unvisited : List (String × ClassInfo)}
    {stack : List String} (hnodup : (unvisited.map (·.1)).Nodup) :
    reaches target unvisited stack = true ↔
      ∃ k ∈ stack, TransGen (LinkIn unvisited) k target := by
  -- along the walk: the entries not visited shrink, the stack holds what is left to do
  fun_induction reaches target unvisited stack with
  | case1 => simp
  | case2 unvisited key stack c others htake _ next ih =>
    have hmono : ∀ k l, LinkIn others k l → LinkIn unvisited k l := by
      rintro k l ⟨d, hd, hl⟩
      exact ⟨d, (lookup_of_others hnodup htake hd).2, hl⟩
    have hfirst : ∀ l ∈ next, LinkIn unvisited key l :=
      fun l hl => ⟨c, lookup_of_take? htake, hl⟩
    rw [Bool.or_eq_true, List.contains_iff_mem, ih (nodup_of_take? hnodup htake).1]
    constructor
    · rintro (htarget | ⟨k, hk, hpath⟩)
      · exact ⟨key, List.mem_cons_self, .single (hfirst target htarget)⟩
      · rw [List.mem_append, List.mem_reverse] at hk
        have hpath := TransGen.mono hmono k target hpath
        rcases hk with hk | hk
        · exact ⟨key, List.mem_cons_self, .head (hfirst k hk) hpath⟩
        · exact ⟨k, List.mem_cons_of_mem _ hk, hpath⟩
    · -- behind its last visit to the class a path does not need it
      have hfrom : ∀ n ∈ next, ReflTransGen (LinkIn others) n target →
          target ∈ next ∨ ∃ k ∈ next.reverse ++ stack, TransGen (LinkIn others) k target := by
        intro n hn hpath
        rcases reflTransGen_iff_eq_or_transGen.mp hpath with rfl | hpath
        · exact .inl hn
        · exact .inr ⟨n, List.mem_append_left _ (List.mem_reverse.mpr hn), hpath⟩
      rintro ⟨k, hk, hpath⟩
      obtain ⟨l, hkl, hpath⟩ := TransGen.head'_iff.mp hpath
      rcases reflTransGen_or_of_mem hpath fun _ _ => linkIn_others htake with hrest | hrest
      · rcases linkIn_others htake hkl with hkl | hl
        · -- the first link of the path is not one of the class taken out
          obtain ⟨d, hd, hl⟩ := hkl
          have hne := (lookup_of_others hnodup htake hd).1
          have hstack := (List.mem_cons.mp hk).resolve_left hne
          exact .inr ⟨k, List.mem_append_right _ hstack, .head' ⟨d, hd, hl⟩ hrest⟩
        · exact hfrom l hl hrest
      · obtain ⟨n, hn, hrest⟩ := hrest
        exact hfrom n hn hrest
  | case3 unvisited key stack htake ih =>
    rw [ih hnodup]
    constructor
    · rintro ⟨k, hk, hpath⟩
      exact ⟨k, List.mem_cons_of_mem _ hk, hpath⟩
    · rintro ⟨k, hk, hpath⟩
      rcases List.mem_cons.mp hk with rfl | hk
      · -- no link leaves a class that is not there
        obtain ⟨l, ⟨c, hc, _⟩, _⟩ := TransGen.head'_iff.mp hpath
        rw [take?_eq_none_iff.mp htake] at hc
        exact absurd hc (by simp)
      · exact ⟨k, hk, hpath⟩

/-- A link of the index, between keys: from a registered class to its parent or
to one of its interfaces. -/
def Links (ix : ClassIndex) (k l : String) : Prop :=
  LinkIn ix.classes.entries k l

/-- A class is a subclass of another iff the links of the index lead there in one
or more steps. -/
theorem Keyed.isSubclass_iff {ix : ClassIndex} (h : Keyed ix) {name other : String} :
    ix.isSubclass name other = true ↔
      TransGen ix.Links (ClassName.key name) (ClassName.key other) := by
  rw [isSubclass, reaches_iff h.nodup]
  simp only [List.mem_singleton, exists_eq_left]
  rfl

/-! ## The chain of parents -/

/-- A parent link of the index: from a name of a registered class to its parent
as written. -/
def Extends (ix : ClassIndex) (a b : String) : Prop :=
  ParentIn ix.classes.entries a b

/-- The declared spelling of a name, the name itself if no class has it. -/
def spelling (ix : ClassIndex) (name : String) : String :=
  (ix.declaredName name).getD name

theorem spelling_of_get? {ix : ClassIndex} {name : String} {c : ClassInfo}
    (h : ix.get? name = some c) : ix.spelling name = c.name := by
  rw [spelling, declaredName, h]
  rfl

/-- The walk over parents lists exactly the classes that a path of parent links
leads to, those visited before apart. -/
theorem mem_chain_iff {ix : ClassIndex} {unvisited : List (String × ClassInfo)}
    {start : Option String} (hnodup : (unvisited.map (·.1)).Nodup)
    (hsub : ∀ k c, unvisited.lookup k = some c → ix.classes.get? k = some c) {n : String} :
    n ∈ chain ix unvisited start ↔
      ∃ a b, start = some a ∧ ReflTransGen (ParentIn unvisited) a b ∧
        (ix.hasClass b = true → unvisited.lookup (ClassName.key b) ≠ none) ∧
        n = ix.spelling b := by
  fun_induction chain ix unvisited start with
  | case1 => simp
  | case2 unvisited parent c others htake _ ih =>
    have hc := lookup_of_take? htake
    have hspelling : ∀ b, ClassName.key b = ClassName.key parent → ix.spelling b = c.name := by
      intro b hb
      refine spelling_of_get? (hsub _ c ?_)
      rw [hb]
      exact hc
    have hothers : ∀ k d, others.lookup k = some d → unvisited.lookup k = some d :=
      fun k d hd => (lookup_of_others hnodup htake hd).2
    rw [List.mem_cons, ih (nodup_of_take? hnodup htake).1 fun k d hd => hsub k d (hothers k d hd)]
    constructor
    · rintro (rfl | ⟨a, b, ha, hpath, hb, rfl⟩)
      · exact ⟨parent, parent, rfl, .refl, by simp [hc], (hspelling parent rfl).symm⟩
      · have hmono : ∀ x y, ParentIn others x y → ParentIn unvisited x y := by
          rintro x y ⟨d, hd, hy⟩
          exact ⟨d, hothers _ d hd, hy⟩
        have hlink : ParentIn unvisited parent a := ⟨c, hc, ha⟩
        refine ⟨parent, b, rfl, .head hlink (ReflTransGen.mono hmono a b hpath), ?_, rfl⟩
        intro hclass
        obtain ⟨d, hd⟩ := Option.ne_none_iff_exists'.mp (hb hclass)
        simp [hothers _ d hd]
    · rintro ⟨a, b, ha, hpath, hb, rfl⟩
      obtain rfl := Option.some.inj ha
      by_cases hkey : ClassName.key b = ClassName.key parent
      · exact .inl (hspelling b hkey)
      · refine .inr ?_
        rcases reflTransGen_or_of_mem hpath fun _ _ => parentIn_others htake with
          hrest | ⟨p, hp, hrest⟩
        · -- without the class the path cannot have left it
          rcases hrest.cases_head with rfl | ⟨x, ⟨d, hd, _⟩, _⟩
          · exact absurd rfl hkey
          · exact absurd rfl (lookup_of_others hnodup htake hd).1
        · refine ⟨p, b, hp, hrest, ?_, rfl⟩
          rw [lookup_others_of_ne htake hkey]
          exact hb
  | case3 unvisited parent htake hclass =>
    have hnone := take?_eq_none_iff.mp htake
    simp only [List.not_mem_nil, false_iff]
    rintro ⟨a, b, ha, hpath, hb, _⟩
    obtain rfl := Option.some.inj ha
    rcases hpath.cases_head with rfl | ⟨x, ⟨d, hd, _⟩, _⟩
    · exact hb hclass hnone
    · exact absurd (hnone.symm.trans hd) (by simp)
  | case4 unvisited parent htake hclass =>
    have hnone := take?_eq_none_iff.mp htake
    have hspelling : ix.spelling parent = parent := by
      have hget : ix.get? parent = none := by simpa [hasClass] using hclass
      rw [spelling, declaredName, hget]
      rfl
    rw [List.mem_singleton]
    constructor
    · rintro rfl
      exact ⟨n, n, rfl, .refl, fun h => absurd h hclass, hspelling.symm⟩
    · rintro ⟨a, b, ha, hpath, hb, rfl⟩
      obtain rfl := Option.some.inj ha
      rcases hpath.cases_head with rfl | ⟨x, ⟨d, hd, _⟩, _⟩
      · exact hspelling
      · exact absurd (hnone.symm.trans hd) (by simp)

/-- A registered class and its ancestors are the classes that parent links lead
to from it, in their declared spelling if they are registered. -/
theorem Keyed.mem_ancestors_iff {ix : ClassIndex} (h : Keyed ix) {name n : String}
    (hclass : ix.hasClass name = true) :
    n ∈ (ix.declaredName name).getD name :: ix.ancestors name ↔
      ∃ b, ReflTransGen ix.Extends name b ∧ n = ix.spelling b := by
  -- a walk that starts at the class itself lists it in front of its ancestors
  have hchain : (ix.declaredName name).getD name :: ix.ancestors name =
      chain ix ix.classes.entries (some name) := by
    obtain ⟨c, hc⟩ := Option.isSome_iff_exists.mp hclass
    cases htake : take? (ClassName.key name) ix.classes.entries with
    | none =>
      rw [get?, Table.get?, take?_eq_none_iff.mp htake] at hc
      exact absurd hc (by simp)
    | some found =>
      obtain ⟨d, others⟩ := found
      have hname : (ix.declaredName name).getD name = d.name :=
        spelling_of_get? (lookup_of_take? htake)
      have hancestors : ix.ancestors name = chain ix others d.parent := by
        rw [ancestors, htake]
      rw [hname, hancestors, chain]
      split
      · rename_i d' others' htake'
        obtain ⟨rfl, rfl⟩ := Prod.mk.inj (Option.some.inj (htake.symm.trans htake'))
        rfl
      · rename_i htake'
        exact absurd (htake.symm.trans htake') (by simp)
  rw [hchain, mem_chain_iff h.nodup fun _ _ h => h]
  constructor
  · rintro ⟨a, b, ha, hpath, _, rfl⟩
    obtain rfl := Option.some.inj ha
    exact ⟨b, hpath, rfl⟩
  · rintro ⟨b, hpath, rfl⟩
    refine ⟨name, b, rfl, hpath, ?_, rfl⟩
    intro hb
    exact Option.isSome_iff_ne_none.mp hb

end UpgradeNotes.ClassIndex
