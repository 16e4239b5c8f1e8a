import UpgradeNotes.Proofs.ClassIndex.ParentChain

/-!
# Where the type of a property is found

A class that does not declare a property has it from its parent or from a trait. The
search for it goes up the parents first, so a declaration on the chain of parents hides
those of all traits, also of the traits that a nearer class uses. It goes on with the
traits, and it finds nothing only if no class that parents and traits lead to declares the
property (`propertyType_parents_first`).
-/

namespace UpgradeNotes

/-- The traits and the parent, as written: where a class has the properties from that it
does not declare. -/
def ClassInfo.sources (c : ClassInfo) : List String :=
  c.traits ++ c.parent.toList

namespace ClassIndex

open Relation ClassName

variable {ix : ClassIndex} {property : String}

/-- A link from the key of a class among the entries to the key of its parent or of one of
its traits. -/
def SourceIn (entries : List (String × ClassInfo)) (k l : String) : Prop :=
  ∃ c, entries.lookup k = some c ∧ l ∈ c.sources.map key

/-- The type that the class under a key declares for a property. -/
def declaredIn (entries : List (String × ClassInfo)) (property k : String) :
    Option ReceiverType :=
  (entries.lookup k).bind (·.properties.get? property)

section Taken

variable {k : String} {entries others : List (String × ClassInfo)} {c : ClassInfo}

/-- A step uses the class that is taken out or stays possible without it. -/
theorem sourceIn_others (htake : take? k entries = some (c, others)) {a b : String}
    (hab : SourceIn entries a b) : SourceIn others a b ∨ b ∈ c.sources.map key := by
  obtain ⟨d, hd, hb⟩ := hab
  rcases eq_or_lookup_others htake hd with rfl | hd
  · exact .inr hb
  · exact .inl ⟨d, hd, hb⟩

/-- What the classes left lead to, all of them led to. -/
theorem path_of_others (hnodup : (entries.map (·.1)).Nodup)
    (htake : take? k entries = some (c, others)) {a b : String}
    (hpath : ReflTransGen (SourceIn others) a b) : ReflTransGen (SourceIn entries) a b := by
  refine ReflTransGen.mono ?_ a b hpath
  rintro x y ⟨d, hd, hy⟩
  exact ⟨d, (lookup_of_others hnodup htake hd).2, hy⟩

/-- No step leaves the key of a class that is not there. -/
theorem eq_of_no_class {l : String} (hnone : entries.lookup k = none)
    (hpath : ReflTransGen (SourceIn entries) k l) : l = k := by
  rcases hpath.cases_head with heq | ⟨m, ⟨c, hc, _⟩, _⟩
  · exact heq.symm
  · exact absurd (hnone.symm.trans hc) (by simp)

theorem declaredIn_of_take? (htake : take? k entries = some (c, others)) (property : String) :
    declaredIn entries property k = c.properties.get? property := by
  rw [declaredIn, lookup_of_take? htake]
  rfl

theorem declaredIn_others_of_ne (htake : take? k entries = some (c, others)) {l : String}
    (hl : l ≠ k) : declaredIn others property l = declaredIn entries property l := by
  rw [declaredIn, declaredIn, lookup_others_of_ne htake hl]

end Taken

/-! ## The search, step by step -/

/-- What a class declares is the answer, and the search goes on from one that does not. -/
theorem findProperty_of_take? {k : String} {entries others : List (String × ClassInfo)}
    {c : ClassInfo} (htake : take? k entries = some (c, others)) (stack : List String) :
    findProperty property entries (k :: stack) =
      match c.properties.get? property with
      | some t => some t
      | none => findProperty property others ((c.sources.map key).reverse ++ stack) := by
  rw [findProperty]
  split
  · rename_i htake'
    obtain ⟨rfl, rfl⟩ := Prod.mk.inj (Option.some.inj (htake.symm.trans htake'))
    rfl
  · rename_i htake'
    exact absurd (htake.symm.trans htake') (by simp)

theorem findProperty_of_take?_eq_none {k : String} {entries : List (String × ClassInfo)}
    (htake : take? k entries = none) (stack : List String) :
    findProperty property entries (k :: stack) = findProperty property entries stack := by
  rw [findProperty]
  split
  · rename_i htake'
    exact absurd (htake.symm.trans htake') (by simp)
  · rfl

/-- Looks for a property in a class. -/
def lookForProperty (property : String) (c : ClassInfo) :
    Option ReceiverType ⊕ List String :=
  match c.properties.get? property with
  | some t => .inl (some t)
  | none => .inr (c.sources.map key)

section Visit

variable {c : ClassInfo}

theorem lookForProperty_eq_inl {answer : Option ReceiverType} :
    lookForProperty property c = .inl answer ↔
      ∃ t, c.properties.get? property = some t ∧ some t = answer := by
  unfold lookForProperty
  cases c.properties.get? property <;> simp

theorem lookForProperty_eq_inr {next : List String} :
    lookForProperty property c = .inr next ↔
      c.properties.get? property = none ∧ c.sources.map key = next := by
  unfold lookForProperty
  cases c.properties.get? property <;> simp

end Visit

theorem searches_findProperty (property : String) :
    Searches (lookForProperty property) none (findProperty property) where
  done _ := by rw [findProperty]
  dropped := findProperty_of_take?_eq_none
  answered := by
    intro entries k c others answer htake hvisit stack
    obtain ⟨t, ht, rfl⟩ := lookForProperty_eq_inl.mp hvisit
    rw [findProperty_of_take? htake, ht]
  onward := by
    intro entries k c others next htake hvisit stack
    obtain ⟨hnone, rfl⟩ := lookForProperty_eq_inr.mp hvisit
    rw [findProperty_of_take? htake, hnone]

/-! ## What the search finds -/

/-- The search finds nothing iff no class that parents and traits lead to declares the
property. -/
theorem findProperty_eq_none_iff {entries : List (String × ClassInfo)} {stack : List String}
    (hnodup : (entries.map (·.1)).Nodup) :
    findProperty property entries stack = none ↔
      ∀ k ∈ stack, ∀ l, ReflTransGen (SourceIn entries) k l →
        declaredIn entries property l = none := by
  -- along the search: the entries not visited shrink, the stack holds what is left to do
  fun_induction findProperty property entries stack with
  | case1 => simp
  | case2 entries k stack c others htake _ t ht =>
    rw [eq_false (Option.some_ne_none t), false_iff]
    intro hnone
    have hk := (declaredIn_of_take? htake property).symm.trans (hnone k List.mem_cons_self k .refl)
    exact absurd (ht.symm.trans hk) (by simp)
  | case3 entries k stack c others htake _ ht next ih =>
    obtain ⟨hothers, hgone⟩ := nodup_of_take? hnodup htake
    rw [ih hothers]
    constructor
    · intro hnone a ha l hpath
      by_cases hl : l = k
      · rw [hl, declaredIn_of_take? htake, ht]
      · rw [← declaredIn_others_of_ne htake hl]
        -- behind its last visit to the class the path does not need it
        rcases reflTransGen_or_of_mem hpath fun _ _ => sourceIn_others htake with
          hrest | ⟨n, hn, hrest⟩
        · rcases List.mem_cons.mp ha with rfl | ha
          · exact absurd (eq_of_no_class hgone hrest) hl
          · exact hnone a (List.mem_append_right _ ha) l hrest
        · exact hnone n (List.mem_append_left _ (List.mem_reverse.mpr hn)) l hrest
    · intro hnone a ha l hpath
      have hentries := path_of_others hnodup htake hpath
      have hl : declaredIn entries property l = none := by
        rcases List.mem_append.mp ha with ha | ha
        · have hfirst : SourceIn entries k a :=
            ⟨c, lookup_of_take? htake, List.mem_reverse.mp ha⟩
          exact hnone k List.mem_cons_self l (.head hfirst hentries)
        · exact hnone a (List.mem_cons_of_mem _ ha) l hentries
      by_cases hk : l = k
      · rw [hk, declaredIn, hgone]
        rfl
      · rw [declaredIn_others_of_ne htake hk, hl]
  | case4 entries k stack htake ih =>
    have hgone := take?_eq_none_iff.mp htake
    rw [ih hnodup, List.forall_mem_cons]
    refine (and_iff_right ?_).symm
    intro l hpath
    rw [eq_of_no_class hgone hpath, declaredIn, hgone]
    rfl

/-- What the search finds, a class declares that parents and traits lead to. -/
theorem exists_declared_of_findProperty {entries : List (String × ClassInfo)}
    {stack : List String} (hnodup : (entries.map (·.1)).Nodup) {t : ReceiverType}
    (ht : findProperty property entries stack = some t) :
    ∃ k ∈ stack, ∃ l, ReflTransGen (SourceIn entries) k l ∧
      declaredIn entries property l = some t := by
  fun_induction findProperty property entries stack with
  | case1 => exact absurd ht (by simp)
  | case2 entries k stack c others htake _ u hu =>
    refine ⟨k, List.mem_cons_self, k, .refl, ?_⟩
    rw [declaredIn_of_take? htake, hu, ht]
  | case3 entries k stack c others htake _ _ next ih =>
    obtain ⟨a, ha, l, hpath, hl⟩ := ih (nodup_of_take? hnodup htake).1 ht
    have hentries := path_of_others hnodup htake hpath
    have hdeclared : declaredIn entries property l = some t := by
      obtain ⟨d, hd, htype⟩ := Option.bind_eq_some_iff.mp hl
      exact Option.bind_eq_some_iff.mpr ⟨d, (lookup_of_others hnodup htake hd).2, htype⟩
    rcases List.mem_append.mp ha with ha | ha
    · have hfirst : SourceIn entries k a := ⟨c, lookup_of_take? htake, List.mem_reverse.mp ha⟩
      exact ⟨k, List.mem_cons_self, l, .head hfirst hentries, hdeclared⟩
    · exact ⟨a, List.mem_cons_of_mem _ ha, l, hentries, hdeclared⟩
  | case4 entries k stack htake ih =>
    obtain ⟨a, ha, hfound⟩ := ih hnodup ht
    exact ⟨a, List.mem_cons_of_mem _ ha, hfound⟩

/-! ## Parents first -/

/-- A link of the index, between keys: from a registered class to its parent or to one of
its traits. -/
def Sources (ix : ClassIndex) (k l : String) : Prop :=
  SourceIn ix.classes.entries k l

/-- The type that the class of a key declares for a property, none if no class has the key. -/
def declaredType (ix : ClassIndex) (property k : String) : Option ReceiverType :=
  declaredIn ix.classes.entries property k

theorem declaredType_of_class {k : String} {c : ClassInfo} (hc : ix.classes.get? k = some c)
    (property : String) : ix.declaredType property k = c.properties.get? property := by
  unfold declaredType declaredIn
  rw [← Table.get?, hc]
  rfl

/-- The search goes up the chain of parents first, so the nearest declaration there is what
it finds, whatever else is on the stack. -/
theorem Climb.findProperty_eq {seen written : List String} {name : String}
    {entries : List (String × ClassInfo)} {t : ReceiverType}
    (hclimb : Climb ix (key name :: seen) (ix.parentOf name) written)
    (hunseen : Unseen ix seen entries) (hnew : key name ∉ seen)
    (ht : (name :: written).findSome? (fun n => ix.declaredType property (key n)) = some t)
    (stack : List String) : findProperty property entries (key name :: stack) = some t := by
  induction written generalizing name seen entries stack with
  | nil =>
    rw [List.findSome?_singleton] at ht
    obtain ⟨c, hc, hdeclared⟩ := Option.bind_eq_some_iff.mp ht
    obtain ⟨others, htake⟩ := hunseen.exists_take? hnew hc
    rw [findProperty_of_take? htake, hdeclared]
  | cons parent rest ih =>
    generalize hstart : ix.parentOf name = start at hclimb
    cases hclimb with
    | up hparent hrest =>
      obtain ⟨c, hc, hlink⟩ := Option.bind_eq_some_iff.mp hstart
      obtain ⟨others, htake⟩ := hunseen.exists_take? hnew hc
      rw [List.findSome?_cons, declaredType_of_class hc] at ht
      rw [findProperty_of_take? htake]
      cases hdeclared : c.properties.get? property with
      | some u =>
        rw [hdeclared] at ht
        exact ht
      | none =>
        rw [hdeclared] at ht
        -- the parent was put on the stack last
        have hstack : (c.sources.map key).reverse ++ stack =
            key parent :: ((c.traits.map key).reverse ++ stack) := by
          simp [ClassInfo.sources, hlink]
        rw [hstack]
        exact ih hrest (hunseen.taken htake) hparent ht _

/-- The number of parents and traits that the classes name. -/
def sourceCount (ix : ClassIndex) : Nat :=
  (ix.classes.entries.map (·.2.sources.length)).sum

/-- The search for a property is over after a round for every parent and every trait and two
more. -/
theorem Keyed.search_eq_propertyType (h : Keyed ix) {name : String} {rounds : Nat}
    (hrounds : ix.sourceCount + 2 ≤ rounds) :
    ix.search (lookForProperty property) none rounds [] [key name] =
      some (ix.propertyType name property) := by
  refine (searches_findProperty property).search_eq (·.sources.length) ?_ h.unseen ?_
  · intro c next hnext
    obtain ⟨-, rfl⟩ := lookForProperty_eq_inr.mp hnext
    rw [List.length_map]
  · rw [List.length_singleton]
    unfold sourceCount at hrounds
    omega

/-- The search for the type of a property always ends. It has a result iff a class declares
the property that parents and traits lead to from the class, this one included, and the
result is what such a class declares. If one on the chain of parents does, it is what the
nearest of these declares. -/
theorem propertyType_parents_first (h : Assembled ix) (name property : String) :
    (∀ rounds, ix.sourceCount + 2 ≤ rounds →
      ix.search (lookForProperty property) none rounds [] [key name] =
        some (ix.propertyType name property)) ∧
    (ix.propertyType name property = none ↔
      ∀ k, ReflTransGen ix.Sources (key name) k → ix.declaredType property k = none) ∧
    (∀ t, ix.propertyType name property = some t →
      ∃ k, ReflTransGen ix.Sources (key name) k ∧ ix.declaredType property k = some t) ∧
    ∃ written,
      ParentChain ix name written ∧ (∀ other, ParentChain ix name other → other = written) ∧
      ∀ t, (name :: written).findSome? (fun n => ix.declaredType property (key n)) = some t →
        ix.propertyType name property = some t := by
  have hkeyed := h.keyed
  refine ⟨fun rounds hrounds => hkeyed.search_eq_propertyType hrounds, ?_, ?_, ?_⟩
  · rw [propertyType, findProperty_eq_none_iff hkeyed.nodup, List.forall_mem_singleton]
    rfl
  · intro t ht
    obtain ⟨k, hk, l, hpath, hl⟩ := exists_declared_of_findProperty hkeyed.nodup ht
    rw [List.mem_singleton.mp hk] at hpath
    exact ⟨l, hpath, hl⟩
  · obtain ⟨written, -, hclimb⟩ := hkeyed.climb_ancestors name
    have hchain := hclimb.parentChain
    refine ⟨written, hchain, fun other => hchain.unique, ?_⟩
    intro t ht
    exact hclimb.findProperty_eq hkeyed.unseen List.not_mem_nil ht []

/-- A page and a tree that extend each other and use traits. The tree and a trait of the page
declare one property. -/
def heirs : ClassIndex :=
  (empty.register
    { name := "App\\Page", parent := some "\\app\\tree", traits := ["App\\Logs"] }).extend
    [{ name := "App\\Tree", parent := some "App\\Page", traits := ["App\\Links"],
       properties := ⟨[("log", .object "App\\TreeLog")]⟩ },
      { name := "App\\Logs",
        properties := ⟨[("log", .object "App\\PlainLog"), ("store", .object "App\\Store")]⟩ }]

theorem propertyType_parents_first_heirs :
    Assembled heirs ∧ heirs.propertyType "App\\Page" "log" = some (.object "App\\TreeLog") ∧
      heirs.propertyType "App\\Page" "store" = some (.object "App\\Store") ∧
      heirs.propertyType "App\\Page" "cache" = none := by
  have h : Assembled heirs := .extend _ (.register _ .empty)
  have hchain : ParentChain heirs "App\\Page" ["\\app\\tree"] := by
    have hlast : heirs.parentOf "\\app\\tree" = some "App\\Page" := by decide +kernel
    refine ⟨?_, by decide +kernel, ?_⟩
    · simp only [List.isChain_cons_cons, extends_iff, List.isChain_singleton]
      decide +kernel
    · intro last hmem parent hparent
      obtain rfl : "\\app\\tree" = last := by simpa using hmem
      obtain rfl := Option.some.inj (hlast.symm.trans (extends_iff.mp hparent))
      decide +kernel
  have hsearch := fun property =>
    (propertyType_parents_first h "App\\Page" property).1 6 (by decide)
  refine ⟨h, ?_, ?_, ?_⟩
  · obtain ⟨-, -, -, written, -, hunique, hnearest⟩ :=
      propertyType_parents_first h "App\\Page" "log"
    refine hnearest _ ?_
    rw [← hunique _ hchain]
    rfl
  · have hstore : heirs.search (lookForProperty "store") none 6 [] [key "App\\Page"] =
        some (some (.object "App\\Store")) := rfl
    exact Option.some.inj ((hsearch "store").symm.trans hstore)
  · have hcache : heirs.search (lookForProperty "cache") none 6 [] [key "App\\Page"] =
        some none := rfl
    exact Option.some.inj ((hsearch "cache").symm.trans hcache)

end ClassIndex

end UpgradeNotes
