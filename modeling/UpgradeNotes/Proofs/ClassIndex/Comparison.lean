import UpgradeNotes.Proofs.ClassIndex.Reachability

/-!
# What it means to be the same class or a subclass

The comparison of a class with a configured name asks an index in two ways. A
qualified name is looked for behind parents and interfaces, a short name along
the chain of parents. Both questions have an answer in terms of the links of the
index (`isSameOrSubclass_iff_reachable`), also where links run in circles or
lead to classes that are not known.

So a subclass of a matched class is matched, but not always
(`isSameOrSubclass_of_link`): a short name is not passed on by an interface, and
a qualified name only by a class that has all of it or is below the class it
names.
-/

namespace UpgradeNotes.ClassIndex

open Relation ClassName

variable {ix : ClassIndex}

@[simp] theorem get?_unrooted (ix : ClassIndex) (name : String) :
    ix.get? (unrooted name) = ix.get? name := by
  rw [get?, get?, key_unrooted]

@[simp] theorem hasClass_unrooted (ix : ClassIndex) (name : String) :
    ix.hasClass (unrooted name) = ix.hasClass name := by
  rw [hasClass, hasClass, get?_unrooted]

theorem Keyed.key_spelling (h : Keyed ix) (name : String) : key (ix.spelling name) = key name := by
  cases hget : ix.get? name with
  | none =>
    rw [spelling, declaredName, hget]
    rfl
  | some c => rw [spelling_of_get? hget, h.key_of_get? hget]

theorem Keyed.fits_spelling_iff (h : Keyed ix) {name configured : String} :
    fits (ix.spelling name) configured = true ↔ fits name configured = true :=
  ⟨fits_of_key_eq (h.key_spelling name), fits_of_key_eq (h.key_spelling name).symm⟩

/-- What parent links lead to depends on the key of the class they start from. -/
theorem exists_extends_of_key_eq {a b configured : String} (hkey : key a = key b)
    (h : ∃ n, ReflTransGen ix.Extends a n ∧ fits n configured = true) :
    ∃ n, ReflTransGen ix.Extends b n ∧ fits n configured = true := by
  obtain ⟨n, hpath, hfits⟩ := h
  rcases hpath.cases_head with rfl | ⟨m, ⟨c, hc, hm⟩, hrest⟩
  · exact ⟨b, .refl, fits_of_key_eq hkey hfits⟩
  · exact ⟨n, .head ⟨c, hkey ▸ hc, hm⟩ hrest, hfits⟩

/-- The comparison with a qualified name: the class fits the name, or its links
lead to the name in one or more steps. -/
theorem Keyed.isSameOrSubclass_qualified_iff (h : Keyed ix) {actual configured : String}
    (hq : isQualified (unrooted configured) = true) :
    ix.hierarchy.isSameOrSubclass actual configured = true ↔
      fits actual configured = true ∨ TransGen ix.Links (key actual) (key configured) := by
  have hsubclass : ix.isSubclass (unrooted actual) (unrooted configured) = true ↔
      TransGen ix.Links (key actual) (key configured) := by
    rw [h.isSubclass_iff, key_unrooted, key_unrooted]
  simp only [Hierarchy.isSameOrSubclass, hierarchy, fits_unrooted, hasClass_unrooted, hq, if_true]
  by_cases hfits : fits actual configured = true
  · simp [hfits]
  rw [if_neg hfits]
  cases hget : ix.get? actual with
  | none =>
    -- no link leaves a class that is not known
    have hnone : ¬ TransGen ix.Links (key actual) (key configured) := by
      intro hpath
      obtain ⟨l, ⟨c, hc, _⟩, _⟩ := TransGen.head'_iff.mp hpath
      exact absurd (hget.symm.trans hc) (by simp)
    simp [hasClass, hget, hfits, hnone]
  | some c =>
    -- a class that is declared as the configured name fits it
    have hdeclared : Text.sameFold c.name (unrooted configured) = false := by
      rw [Bool.eq_false_iff]
      intro hsame
      have hkey : key actual = key configured :=
        (h.key_of_get? hget).symm.trans (key_of_sameFold hsame)
      refine hfits (fits_iff.mpr ⟨?_, .inl hkey⟩)
      rw [ne_eq, ← unrooted_eq_empty_iff]
      intro hempty
      rw [hempty] at hq
      exact absurd hq (by decide)
    simp [hasClass, declaredName, hget, hfits, hdeclared, hsubclass]

/-- The comparison with a short name: parent links lead, in zero or more steps,
to a class that fits the name. -/
theorem Keyed.isSameOrSubclass_short_iff (h : Keyed ix) {actual configured : String}
    (hq : isQualified (unrooted configured) = false) :
    ix.hierarchy.isSameOrSubclass actual configured = true ↔
      ∃ n, ReflTransGen ix.Extends actual n ∧ fits n configured = true := by
  simp only [Hierarchy.isSameOrSubclass, hierarchy, fits_unrooted, hasClass_unrooted, hq,
    Bool.false_eq_true, if_false]
  by_cases hfits : fits actual configured = true
  · rw [if_pos hfits]
    exact iff_of_true rfl ⟨actual, .refl, hfits⟩
  rw [if_neg hfits]
  by_cases hclass : ix.hasClass actual = true
  · have hmem := fun n => h.mem_ancestors_iff (n := n) ((hasClass_unrooted ix actual).trans hclass)
    simp only [hclass, Bool.not_true, Bool.false_eq_true, if_false, List.any_eq_true,
      Bool.and_eq_true, fits_unrooted_right]
    constructor
    · rintro ⟨n, hn, _, hfits⟩
      obtain ⟨b, hpath, rfl⟩ := (hmem n).mp hn
      exact exists_extends_of_key_eq (key_unrooted actual)
        ⟨b, hpath, h.fits_spelling_iff.mp hfits⟩
    · intro hexists
      obtain ⟨b, hpath, hfits⟩ := exists_extends_of_key_eq (key_unrooted actual).symm hexists
      have hfits := h.fits_spelling_iff.mpr hfits
      refine ⟨ix.spelling b, (hmem _).mpr ⟨b, hpath, rfl⟩, ?_, hfits⟩
      -- a name that fits is not empty
      rw [Bool.not_eq_true', String.isEmpty_eq_false_iff]
      intro hempty
      rw [hempty, fits_empty] at hfits
      exact absurd hfits (by simp)
  · rw [Bool.not_eq_true] at hclass
    simp only [hclass, Bool.not_false, if_true, Bool.false_eq_true, false_iff]
    rintro ⟨n, hpath, hn⟩
    rcases hpath.cases_head with rfl | ⟨m, ⟨c, hc, _⟩, _⟩
    · exact hfits hn
    · rw [hasClass, get?, Table.get?, hc] at hclass
      exact absurd hclass (by simp)

/-- A class is the configured class or one of its subclasses iff the configured
name is not empty and the class fits it, or is registered and the links of the
index lead to the name: for a qualified name in one or more links to parents or
interfaces, for a short name along zero or more parents to a class that fits. -/
theorem isSameOrSubclass_iff_reachable (cs : List ClassInfo) (actual configured : String) :
    (empty.extend cs).hierarchy.isSameOrSubclass actual configured = true ↔
      unrooted configured ≠ "" ∧
        (fits actual configured = true ∨
          (empty.extend cs).hasClass actual = true ∧
            if isQualified (unrooted configured) = true then
              TransGen (empty.extend cs).Links (key actual) (key configured)
            else
              ∃ n, ReflTransGen (empty.extend cs).Extends actual n ∧
                fits ((empty.extend cs).spelling n) configured = true) := by
  have h := keyed_extend cs
  generalize empty.extend cs = ix at h ⊢
  have hne : fits actual configured = true → unrooted configured ≠ "" :=
    fun hfits => mt unrooted_eq_empty_iff.mp (fits_iff.mp hfits).1
  by_cases hq : isQualified (unrooted configured) = true
  · rw [h.isSameOrSubclass_qualified_iff hq, if_pos hq]
    constructor
    · rintro (hfits | hpath)
      · exact ⟨hne hfits, .inl hfits⟩
      · obtain ⟨l, ⟨c, hc, _⟩, _⟩ := TransGen.head'_iff.mp hpath
        refine ⟨?_, .inr ⟨Option.isSome_iff_exists.mpr ⟨c, hc⟩, hpath⟩⟩
        intro hempty
        rw [hempty] at hq
        exact absurd hq (by decide)
    · rintro ⟨_, hfits | ⟨_, hpath⟩⟩
      · exact .inl hfits
      · exact .inr hpath
  · rw [h.isSameOrSubclass_short_iff (Bool.not_eq_true _ ▸ hq), if_neg hq]
    constructor
    · rintro ⟨n, hpath, hfits⟩
      refine ⟨mt unrooted_eq_empty_iff.mp (fits_iff.mp hfits).1, ?_⟩
      rcases hpath.cases_head with rfl | ⟨m, ⟨c, hc, hm⟩, hrest⟩
      · exact .inl hfits
      · exact .inr ⟨Option.isSome_iff_exists.mpr ⟨c, hc⟩, n, .head ⟨c, hc, hm⟩ hrest,
          h.fits_spelling_iff.mpr hfits⟩
    · rintro ⟨_, hfits | ⟨_, n, hpath, hfits⟩⟩
      · exact ⟨actual, .refl, hfits⟩
      · exact ⟨n, hpath, h.fits_spelling_iff.mp hfits⟩

-- the later declaration of a class counts, in another spelling too
example :
    let ix := empty.extend
      [{ name := "App\\A", parent := some "B" }, { name := "\\app\\a", parent := some "C" }]
    ix.hierarchy.isSameOrSubclass "App\\A" "C" = true ∧
      ix.hierarchy.isSameOrSubclass "App\\A" "B" = false ∧
      ix.hierarchy.isSameOrSubclass "App\\A" "\\a" = true := by
  decide +kernel

/-! ## Subclasses of matched classes -/

/-- A class passes a match on to the classes that extend or implement it, a short
name to the classes whose parent it is, a qualified name to all of them if it has
the whole name or is below the class so named. -/
theorem isSameOrSubclass_of_link (cs : List ClassInfo) {name super configured : String}
    {c : ClassInfo} (hc : (empty.extend cs).get? name = some c) (hsuper : super ∈ c.links)
    (hmatch : (empty.extend cs).hierarchy.isSameOrSubclass super configured = true)
    (hshort : isQualified (unrooted configured) = false → c.parent.map key = some (key super))
    (hqualified : isQualified (unrooted configured) = true →
      key super = key configured ∨ (empty.extend cs).isSubclass super configured = true) :
    (empty.extend cs).hierarchy.isSameOrSubclass name configured = true := by
  have h := keyed_extend cs
  generalize empty.extend cs = ix at *
  by_cases hq : isQualified (unrooted configured) = true
  · have hlink : ix.Links (key name) (key super) := ⟨c, hc, List.mem_map_of_mem hsuper⟩
    refine (h.isSameOrSubclass_qualified_iff hq).mpr (.inr ?_)
    rcases hqualified hq with hkey | hbelow
    · rw [← hkey]
      exact .single hlink
    · exact .head hlink (h.isSubclass_iff.mp hbelow)
  · rw [Bool.not_eq_true] at hq
    obtain ⟨parent, hparent, hkey⟩ := Option.map_eq_some_iff.mp (hshort hq)
    -- the parent may be written in another way than `super`
    obtain ⟨n, hpath, hfits⟩ :=
      exists_extends_of_key_eq hkey.symm ((h.isSameOrSubclass_short_iff hq).mp hmatch)
    exact (h.isSameOrSubclass_short_iff hq).mpr ⟨n, .head ⟨c, hc, hparent⟩ hpath, hfits⟩

/-- A class that implements an interface, and a class that extends it. -/
def sampleClasses : List ClassInfo :=
  [{ name := "SilverStripe\\Assets\\Image_Backend" },
    { name := "App\\Gd", interfaces := ["SilverStripe\\Assets\\Image_Backend"] },
    { name := "App\\Magick", parent := some "\\App\\GD" }]

theorem isSameOrSubclass_of_link_sample :
    (empty.extend sampleClasses).hierarchy.isSameOrSubclass "App\\Magick" "Gd" = true ∧
      (empty.extend sampleClasses).hierarchy.isSameOrSubclass "App\\Magick"
        "SilverStripe\\Assets\\Image_Backend" = true := by
  have h := keyed_extend sampleClasses
  have hc : (empty.extend sampleClasses).get? "App\\Magick" = some sampleClasses[2] := rfl
  have hsuper : "\\App\\GD" ∈ sampleClasses[2].links := by decide
  -- the parent implements the interface
  have hbelow : TransGen (empty.extend sampleClasses).Links (key "\\App\\GD")
      (key "SilverStripe\\Assets\\Image_Backend") :=
    .single ⟨sampleClasses[1], rfl, by decide⟩
  constructor
  · exact isSameOrSubclass_of_link sampleClasses hc hsuper (by decide) (by decide) (by decide)
  · exact isSameOrSubclass_of_link sampleClasses hc hsuper
      ((h.isSameOrSubclass_qualified_iff (by decide)).mpr (.inr hbelow))
      (by decide) fun _ => .inr (h.isSubclass_iff.mpr hbelow)

/-- An interface that fits its short name and the end of its qualified name does
not pass either of these matches on to the class that implements it. -/
theorem not_isSameOrSubclass_of_link :
    (empty.extend sampleClasses).get? "App\\Gd" = some sampleClasses[1] ∧
      "SilverStripe\\Assets\\Image_Backend" ∈ sampleClasses[1].links ∧
      ∀ configured ∈ ["Image_Backend", "Assets\\Image_Backend"],
        (empty.extend sampleClasses).hierarchy.isSameOrSubclass
            "SilverStripe\\Assets\\Image_Backend" configured = true ∧
          (empty.extend sampleClasses).hierarchy.isSameOrSubclass "App\\Gd" configured = false := by
  have h := keyed_extend sampleClasses
  have hc : (empty.extend sampleClasses).get? "App\\Gd" = some sampleClasses[1] := rfl
  refine ⟨hc, by decide, ?_⟩
  rw [List.forall_mem_cons, List.forall_mem_singleton]
  refine ⟨⟨by decide, ?_⟩, by decide, ?_⟩
  · rw [Bool.eq_false_iff, ne_eq, h.isSameOrSubclass_short_iff (by decide)]
    rintro ⟨n, hpath, hfits⟩
    rcases hpath.cases_head with rfl | ⟨m, ⟨c, hc', hm⟩, _⟩
    · exact absurd hfits (by decide)
    · -- the class has no parent
      obtain rfl := Option.some.inj (hc.symm.trans hc')
      exact absurd hm nofun
  · rw [Bool.eq_false_iff, ne_eq, h.isSameOrSubclass_qualified_iff (by decide)]
    rintro (hfits | hpath)
    · exact absurd hfits (by decide)
    · obtain ⟨k, ⟨c, hc', hk⟩, hrest⟩ := TransGen.head'_iff.mp hpath
      obtain rfl := Option.some.inj (hc.symm.trans hc')
      obtain rfl := List.mem_singleton.mp hk
      -- the interface has another name and no links
      rcases hrest.cases_head with heq | ⟨m, ⟨c, hc', hm⟩, _⟩
      · exact absurd heq (by decide)
      · have hi : (empty.extend sampleClasses).get? "SilverStripe\\Assets\\Image_Backend" =
            some sampleClasses[0] := rfl
        obtain rfl := Option.some.inj (hi.symm.trans hc')
        exact absurd hm List.not_mem_nil

end UpgradeNotes.ClassIndex
