import UpgradeNotes.Matching

/-!
# Unions of receiver types

Unions are made by `unionOf` out of other types, which may be unions themselves.
However they are nested, such a type has no union inside another one, and the
members of a union are not all the same (`Built.flat`). So what a union is known
to be depends on the types at its leaves alone: nothing is known iff all leaves
are one and the same unknown type (`isUnknown_unionOf_iff`), and the classes are
those that some leaf names (`mem_classNames_unionOf`). A change applies to a call
on a union as it applies to calls on the single types (`appliesAt_unionOf`).
-/

namespace UpgradeNotes

namespace ReceiverType

/-- Whether a type is a union. -/
def isUnion : ReceiverType → Bool
  | union _ => true
  | _ => false

mutual
/-- The types at the ends of all unions in a type. -/
def leaves : ReceiverType → List ReceiverType
  | union members => leavesAll members
  | t => [t]
/-- The types at the ends of all unions in some types. -/
def leavesAll : List ReceiverType → List ReceiverType
  | [] => []
  | t :: ts => leaves t ++ leavesAll ts
end

/-- A type of which every union was made by `unionOf`. -/
inductive Built : ReceiverType → Prop
  | leaf {t : ReceiverType} : t.isUnion = false → Built t
  | made {ts : List ReceiverType} : (∀ t ∈ ts, Built t) → Built (unionOf ts)

/-- At least two of the types differ. -/
def Varied (ts : List ReceiverType) : Prop :=
  ∃ a ∈ ts, ∃ b ∈ ts, a ≠ b

/-- The type is no union, or one of types that are none and are not all the same. -/
def Flat : ReceiverType → Prop
  | union members => (∀ t ∈ members, t.isUnion = false) ∧ Varied members
  | _ => True

/-- All types are one and the same, and nothing is known about it. -/
def OneUnknown (ts : List ReceiverType) : Prop :=
  ∃ u, u.isUnknown = true ∧ u ∈ ts ∧ ∀ t ∈ ts, t = u

/-! ## Leaves -/

theorem leaves_of_not_isUnion {t : ReceiverType} (h : t.isUnion = false) : t.leaves = [t] := by
  cases t with
  | union members => exact absurd h (by simp [isUnion])
  | _ => simp [leaves]

theorem flat_of_not_isUnion {t : ReceiverType} (h : t.isUnion = false) : Flat t := by
  cases t with
  | union members => exact absurd h (by simp [isUnion])
  | _ => trivial

theorem mem_leavesAll {ts : List ReceiverType} {u : ReceiverType} :
    u ∈ leavesAll ts ↔ ∃ t ∈ ts, u ∈ t.leaves := by
  induction ts with
  | nil => simp [leavesAll]
  | cons t ts ih => simp [leavesAll, ih]

theorem leavesAll_of_not_isUnion {ts : List ReceiverType} (h : ∀ t ∈ ts, t.isUnion = false) :
    leavesAll ts = ts := by
  induction ts with
  | nil => simp [leavesAll]
  | cons t ts ih =>
    obtain ⟨ht, hts⟩ := List.forall_mem_cons.mp h
    rw [leavesAll, leaves_of_not_isUnion ht, ih hts]
    rfl

mutual
/-- The classes that a type names are the objects at its leaves. -/
theorem mem_classNames {t : ReceiverType} {name : String} :
    name ∈ t.classNames ↔ object name ∈ t.leaves := by
  cases t with
  | union members =>
    simp only [classNames, leaves]
    exact mem_classNamesAll
  | _ => simp [classNames, leaves]
theorem mem_classNamesAll {ts : List ReceiverType} {name : String} :
    name ∈ classNamesAll ts ↔ object name ∈ leavesAll ts := by
  cases ts with
  | nil => simp [classNamesAll, leavesAll]
  | cons t ts =>
    simp only [classNamesAll, leavesAll, List.mem_append]
    exact or_congr mem_classNames mem_classNamesAll
end

theorem classNames_of_isUnknown {t : ReceiverType} (h : t.isUnknown = true) :
    t.classNames = [] := by
  cases t <;> simp [isUnknown, classNames] at h ⊢

/-! ## Gathering members -/

theorem addMember_of_not_isUnion {t : ReceiverType} (h : t.isUnion = false)
    (members : List ReceiverType) :
    addMember members t = if t ∈ members then members else members ++ [t] := by
  cases t with
  | union inner => exact absurd h (by simp [isUnion])
  | _ => simp [addMember]

/-- What is gathered from flat types: no unions, and several types only if they are
not all the same. -/
structure Gathered (members : List ReceiverType) : Prop where
  leaf : ∀ t ∈ members, t.isUnion = false
  apart : members.Nodup ∨ Varied members

theorem Varied.mono {ts us : List ReceiverType} (h : Varied ts) (hsub : ts ⊆ us) : Varied us := by
  obtain ⟨a, ha, b, hb, hne⟩ := h
  exact ⟨a, hsub ha, b, hsub hb, hne⟩

theorem Gathered.addMember {members : List ReceiverType} (h : Gathered members)
    {t : ReceiverType} (ht : Flat t) : Gathered (addMember members t) := by
  cases hu : t.isUnion with
  | true =>
    cases t with
    | union inner =>
      obtain ⟨hleaf, hvaried⟩ := ht
      exact ⟨List.forall_mem_append.mpr ⟨h.leaf, hleaf⟩,
        .inr (hvaried.mono (List.subset_append_right _ _))⟩
    | _ => exact absurd hu (by simp [isUnion])
  | false =>
    rw [addMember_of_not_isUnion hu]
    split
    · exact h
    · rename_i hnew
      refine ⟨List.forall_mem_append.mpr ⟨h.leaf, by simpa using hu⟩, ?_⟩
      rcases h.apart with hnodup | hvaried
      · left
        rw [List.nodup_append]
        refine ⟨hnodup, by simp, ?_⟩
        rintro a ha b hb rfl
        exact hnew (List.mem_singleton.mp hb ▸ ha)
      · exact .inr (hvaried.mono (List.subset_append_left _ _))

theorem mem_addMember {members : List ReceiverType} {t u : ReceiverType} (ht : Flat t) :
    u ∈ addMember members t ↔ u ∈ members ∨ u ∈ t.leaves := by
  cases hu : t.isUnion with
  | true =>
    cases t with
    | union inner =>
      rw [addMember, leaves, leavesAll_of_not_isUnion ht.1, List.mem_append]
    | _ => exact absurd hu (by simp [isUnion])
  | false =>
    rw [addMember_of_not_isUnion hu, leaves_of_not_isUnion hu, List.mem_singleton]
    split
    · rename_i hmem
      exact ⟨.inl, fun h => h.elim id (· ▸ hmem)⟩
    · rw [List.mem_append, List.mem_singleton]

/-- The gathered members are the leaves of what they were gathered from. -/
theorem gathered_foldl {ts : List ReceiverType} (hts : ∀ t ∈ ts, Flat t)
    {members : List ReceiverType} (h : Gathered members) :
    Gathered (ts.foldl ReceiverType.addMember members) ∧
      ∀ u, u ∈ ts.foldl ReceiverType.addMember members ↔ u ∈ members ∨ u ∈ leavesAll ts := by
  induction ts generalizing members with
  | nil => exact ⟨h, fun u => by simp [leavesAll]⟩
  | cons t ts ih =>
    obtain ⟨ht, hts⟩ := List.forall_mem_cons.mp hts
    obtain ⟨hgathered, hmem⟩ := ih hts (h.addMember ht)
    refine ⟨hgathered, fun u => ?_⟩
    rw [List.foldl_cons, hmem, mem_addMember ht, leavesAll, List.mem_append, or_assoc]

/-! ## Unions -/

/-- What `unionOf` can give: nothing at all, the only leaf, or a flat union of the
leaves. -/
theorem unionOf_cases {ts : List ReceiverType} (hts : ∀ t ∈ ts, Flat t) :
    (unionOf ts = never ∧ leavesAll ts = []) ∨
      ((unionOf ts).isUnion = false ∧ ∀ u, u ∈ leavesAll ts ↔ u = unionOf ts) ∨
      ∃ members, unionOf ts = union members ∧ Flat (union members) ∧
        ∀ u, u ∈ leavesAll ts ↔ u ∈ members := by
  have hstart : Gathered [] := ⟨by simp, .inl List.nodup_nil⟩
  obtain ⟨⟨hleaf, hapart⟩, hmem⟩ := gathered_foldl hts hstart
  simp only [List.not_mem_nil, false_or] at hmem
  unfold unionOf
  cases hfold : ts.foldl addMember [] with
  | nil =>
    rw [hfold] at hmem
    exact .inl ⟨rfl, List.eq_nil_iff_forall_not_mem.mpr fun u hu => by simpa using (hmem u).mpr hu⟩
  | cons a rest =>
    rw [hfold] at hleaf hapart hmem
    cases rest with
    | nil =>
      refine .inr (.inl ⟨hleaf a List.mem_cons_self, ?_⟩)
      exact fun u => (hmem u).symm.trans List.mem_singleton
    | cons b rest =>
      refine .inr (.inr ⟨_, rfl, ⟨hleaf, ?_⟩, fun u => (hmem u).symm⟩)
      rcases hapart with hnodup | hvaried
      · have hne : a ≠ b := by
          rintro rfl
          simp at hnodup
        exact ⟨a, by simp, b, by simp, hne⟩
      · exact hvaried

/-- A union of flat types is flat. -/
theorem flat_unionOf {ts : List ReceiverType} (hts : ∀ t ∈ ts, Flat t) : Flat (unionOf ts) := by
  obtain ⟨hnever, -⟩ | ⟨hleaf, -⟩ | ⟨members, heq, hflat, -⟩ := unionOf_cases hts
  · rw [hnever]
    trivial
  · exact flat_of_not_isUnion hleaf
  · rw [heq]
    exact hflat

/-- However unions are nested, what comes out is flat. -/
theorem Built.flat {t : ReceiverType} (h : Built t) : Flat t := by
  induction h with
  | leaf hleaf => exact flat_of_not_isUnion hleaf
  | made _ ih => exact flat_unionOf ih

/-- Types without leaves have an empty union. -/
theorem unionOf_eq_never {ts : List ReceiverType} (hts : ∀ t ∈ ts, Flat t)
    (hnone : leavesAll ts = []) : unionOf ts = never := by
  obtain ⟨hnever, -⟩ | ⟨-, hone⟩ | ⟨members, -, ⟨-, a, ha, -⟩, hmem⟩ := unionOf_cases hts
  · exact hnever
  · have hleaf := (hone _).mpr rfl
    rw [hnone] at hleaf
    exact absurd hleaf List.not_mem_nil
  · have hleaf := (hmem a).mpr ha
    rw [hnone] at hleaf
    exact absurd hleaf List.not_mem_nil

/-- Types that have leaves pass them on to their union. -/
theorem mem_leaves_unionOf {ts : List ReceiverType} (hts : ∀ t ∈ ts, Flat t)
    (hne : leavesAll ts ≠ []) {u : ReceiverType} :
    u ∈ (unionOf ts).leaves ↔ u ∈ leavesAll ts := by
  obtain ⟨-, hnil⟩ | ⟨hleaf, hone⟩ | ⟨members, heq, hflat, hmem⟩ := unionOf_cases hts
  · exact absurd hnil hne
  · rw [leaves_of_not_isUnion hleaf, List.mem_singleton, hone]
  · rw [heq, leaves, leavesAll_of_not_isUnion hflat.1, hmem]

/-- Nothing is known about a flat type iff its leaves are one and the same unknown
type. -/
theorem Flat.isUnknown_iff {t : ReceiverType} (h : Flat t) :
    t.isUnknown = true ↔ OneUnknown t.leaves := by
  cases hunion : t.isUnion with
  | false =>
    rw [leaves_of_not_isUnion hunion]
    simp [OneUnknown]
  | true =>
    cases t with
    | union members =>
      obtain ⟨hleaf, a, ha, b, hb, hne⟩ := h
      rw [leaves, leavesAll_of_not_isUnion hleaf]
      refine ⟨fun h => absurd h (by simp [isUnknown]), ?_⟩
      rintro ⟨u, -, -, hall⟩
      exact absurd ((hall a ha).trans (hall b hb).symm) hne
    | _ => exact absurd hunion (by simp [isUnion])

/-- Flat types with the same leaves name the same classes, and as much is known about
the one as about the other. -/
theorem Flat.alike {s t : ReceiverType} (hs : Flat s) (ht : Flat t)
    (hleaves : ∀ u, u ∈ s.leaves ↔ u ∈ t.leaves) :
    (∀ name, name ∈ s.classNames ↔ name ∈ t.classNames) ∧ s.isUnknown = t.isUnknown := by
  constructor
  · intro name
    rw [mem_classNames, mem_classNames, hleaves]
  · rw [Bool.eq_iff_iff, hs.isUnknown_iff, ht.isUnknown_iff]
    simp only [OneUnknown, hleaves]

/-- Nothing is known about a union iff its leaves are one and the same unknown type. -/
theorem isUnknown_unionOf_iff {ts : List ReceiverType} (hts : ∀ t ∈ ts, Flat t) :
    (unionOf ts).isUnknown = true ↔ OneUnknown (leavesAll ts) := by
  by_cases hnone : leavesAll ts = []
  · rw [unionOf_eq_never hts hnone, hnone]
    simp [isUnknown, OneUnknown]
  · rw [(flat_unionOf hts).isUnknown_iff]
    simp only [OneUnknown, mem_leaves_unionOf hts hnone]

/-- A union names the classes at its leaves. -/
theorem mem_classNames_unionOf {ts : List ReceiverType} (hts : ∀ t ∈ ts, Flat t) {name : String} :
    name ∈ (unionOf ts).classNames ↔ object name ∈ leavesAll ts := by
  by_cases hnone : leavesAll ts = []
  · rw [unionOf_eq_never hts hnone, hnone]
    simp [classNames]
  · rw [mem_classNames, mem_leaves_unionOf hts hnone]

end ReceiverType

/-! ## Calls on unions -/

open ReceiverType

namespace Change

variable (h : Hierarchy) (c : Change) (nullsafe : Bool) (method : String)

/-- When a change applies to a call on an object. -/
theorem appliesAt_methodCall (t : ReceiverType) :
    c.appliesAt h (.methodCall nullsafe method t) =
      (c.concerns method &&
        if t.isUnknown then c.onUnknown
        else t.classNames.any (h.isSameOrSubclass · c.className)) := by
  have hkind : (ReceiverKind.instanceOf != ReceiverKind.static) = true := rfl
  cases ht : t.isUnknown <;>
    simp [appliesAt, Site.method, Site.receiverKnown, Site.receiverKind, Site.candidates, ht, hkind]

/-- A call on an object is matched by the classes that its type names and by whether
anything is known about it. -/
theorem appliesAt_methodCall_congr {s t : ReceiverType}
    (hnames : ∀ name, name ∈ s.classNames ↔ name ∈ t.classNames)
    (hunknown : s.isUnknown = t.isUnknown) :
    c.appliesAt h (.methodCall nullsafe method s) =
      c.appliesAt h (.methodCall nullsafe method t) := by
  have hany : s.classNames.any (h.isSameOrSubclass · c.className) =
      t.classNames.any (h.isSameOrSubclass · c.className) := by
    rw [Bool.eq_iff_iff, List.any_eq_true, List.any_eq_true]
    simp only [hnames]
  rw [appliesAt_methodCall, appliesAt_methodCall, hunknown, hany]

/-- A change applies to a call on a type of which something is known through a class
at one of its leaves. -/
theorem appliesAt_known {t : ReceiverType} (ht : t.isUnknown = false) :
    c.appliesAt h (.methodCall nullsafe method t) = true ↔
      c.concerns method = true ∧
        ∃ name, object name ∈ t.leaves ∧ h.isSameOrSubclass name c.className = true := by
  rw [appliesAt_methodCall, ht]
  simp [mem_classNames]

/-- When a change applies to a call on a union: only the leaves matter. -/
theorem appliesAt_unionOf {ts : List ReceiverType} (hts : ∀ t ∈ ts, Flat t) :
    c.appliesAt h (.methodCall nullsafe method (unionOf ts)) = true ↔
      c.concerns method = true ∧
        (OneUnknown (leavesAll ts) ∧ c.onUnknown = true ∨
          ¬ OneUnknown (leavesAll ts) ∧
            ∃ name, object name ∈ leavesAll ts ∧ h.isSameOrSubclass name c.className = true) := by
  rw [appliesAt_methodCall, Bool.and_eq_true, ← isUnknown_unionOf_iff hts]
  cases (unionOf ts).isUnknown with
  | true => simp
  | false => simp [mem_classNames_unionOf hts]

/-- Calls on unions are matched by their members. A union has no union inside. If
all its leaves are one and the same unknown type, a change applies iff it concerns
the method and allows unknown receivers. If not, it applies iff it applies to a call
on some known one of the types that were joined, whether it allows unknown receivers
or not. So it does not matter how the same leaves are nested, ordered or repeated. -/
theorem appliesAt_union_by_leaves {ts : List ReceiverType} (hts : ∀ t ∈ ts, Built t) :
    (∀ members, unionOf ts = union members → ∀ t ∈ members, t.isUnion = false) ∧
      (OneUnknown (leavesAll ts) →
        c.appliesAt h (.methodCall nullsafe method (unionOf ts)) =
          (c.concerns method && c.onUnknown)) ∧
      (¬ OneUnknown (leavesAll ts) →
        (c.appliesAt h (.methodCall nullsafe method (unionOf ts)) = true ↔
          ∃ t ∈ ts, t.isUnknown = false ∧
            c.appliesAt h (.methodCall nullsafe method t) = true) ∧
        ∀ allowed, { c with onUnknown := allowed }.appliesAt h
            (.methodCall nullsafe method (unionOf ts)) =
          c.appliesAt h (.methodCall nullsafe method (unionOf ts))) ∧
      ∀ us : List ReceiverType, (∀ u ∈ us, Built u) →
        (∀ leaf, leaf ∈ leavesAll us ↔ leaf ∈ leavesAll ts) →
        c.appliesAt h (.methodCall nullsafe method (unionOf us)) =
          c.appliesAt h (.methodCall nullsafe method (unionOf ts)) := by
  have hflat : ∀ t ∈ ts, Flat t := fun t ht => (hts t ht).flat
  refine ⟨?_, ?_, ?_, ?_⟩
  · intro members heq
    have hunion := (Built.made hts).flat
    rw [heq] at hunion
    exact hunion.1
  · intro hone
    rw [Bool.eq_iff_iff, appliesAt_unionOf h c nullsafe method hflat]
    simp [hone]
  · intro hmany
    constructor
    · rw [appliesAt_unionOf h c nullsafe method hflat]
      simp only [hmany, false_and, not_false_eq_true, true_and, false_or, mem_leavesAll]
      constructor
      · rintro ⟨hmethod, name, ⟨t, ht, hleaf⟩, hsame⟩
        -- nothing is known of a type only if it names no class
        have hknown : t.isUnknown = false := by
          rw [Bool.eq_false_iff]
          intro hunknown
          have hname := mem_classNames.mpr hleaf
          rw [classNames_of_isUnknown hunknown] at hname
          exact absurd hname List.not_mem_nil
        exact ⟨t, ht, hknown,
          (appliesAt_known h c nullsafe method hknown).mpr ⟨hmethod, name, hleaf, hsame⟩⟩
      · rintro ⟨t, ht, hknown, happlies⟩
        obtain ⟨hmethod, name, hleaf, hsame⟩ :=
          (appliesAt_known h c nullsafe method hknown).mp happlies
        exact ⟨hmethod, name, ⟨t, ht, hleaf⟩, hsame⟩
    · intro allowed
      rw [Bool.eq_iff_iff, appliesAt_unionOf h _ nullsafe method hflat,
        appliesAt_unionOf h c nullsafe method hflat]
      simp only [hmany, false_and, false_or]
      rfl
  · intro us hus hleaves
    have hone : OneUnknown (leavesAll us) ↔ OneUnknown (leavesAll ts) := by
      simp only [OneUnknown, hleaves]
    rw [Bool.eq_iff_iff, appliesAt_unionOf h c nullsafe method fun u hu => (hus u hu).flat,
      appliesAt_unionOf h c nullsafe method hflat, hone]
    simp only [hleaves]

/-- A nested union with a repeated class and a repeated unknown member. -/
def nestedUnion : List ReceiverType :=
  [unionOf [.object "A", .unresolved], .unresolved,
    unionOf [.scalar "null", unionOf [.object "B", .object "A"]]]

/-- The same leaves side by side. -/
def plainUnion : List ReceiverType :=
  [.unresolved, .object "B", .object "A", .scalar "null"]

/-- A change of a method of `B`. -/
def changeOfB (allowed : Bool) : Change where
  className := "B"
  method := "run"
  note := "x"
  onUnknown := allowed

theorem built_of_leaves {ts : List ReceiverType} (h : ∀ t ∈ ts, t.isUnion = false) :
    ∀ t ∈ ts, Built t :=
  fun t ht => .leaf (h t ht)

theorem built_nestedUnion : ∀ t ∈ nestedUnion, Built t := by
  have hinner : Built (unionOf [.scalar "null", unionOf [.object "B", .object "A"]]) := by
    refine .made (List.forall_mem_cons.mpr ⟨.leaf rfl, List.forall_mem_singleton.mpr ?_⟩)
    exact .made (built_of_leaves (by decide))
  refine List.forall_mem_cons.mpr ⟨.made (built_of_leaves (by decide)), ?_⟩
  exact List.forall_mem_cons.mpr ⟨.leaf rfl, List.forall_mem_singleton.mpr hinner⟩

theorem leaves_nestedUnion :
    leavesAll nestedUnion =
      [.object "A", .unresolved, .unresolved, .scalar "null", .object "B", .object "A"] := rfl

theorem leaves_plainUnion (leaf : ReceiverType) :
    leaf ∈ leavesAll plainUnion ↔ leaf ∈ leavesAll nestedUnion := by
  have hplain : leavesAll plainUnion = plainUnion := rfl
  rw [leaves_nestedUnion, hplain]
  simp only [plainUnion, List.mem_cons, List.not_mem_nil, or_false]
  grind

theorem appliesAt_union_by_leaves_nested :
    ¬ OneUnknown (leavesAll nestedUnion) ∧
      (∀ allowed, (changeOfB allowed).appliesAt .unknown
        (.methodCall false "run" (unionOf nestedUnion)) = true) ∧
      (changeOfB false).appliesAt .unknown (.methodCall false "run" (unionOf plainUnion)) = true ∧
      OneUnknown (leavesAll [.error, .error]) ∧
      (changeOfB true).appliesAt .unknown
        (.methodCall true "run" (unionOf [.error, .error])) = true := by
  have hmany : ¬ OneUnknown (leavesAll nestedUnion) := by
    rintro ⟨u, -, -, hall⟩
    rw [leaves_nestedUnion] at hall
    have hsame := (hall (.object "A") (by simp)).trans (hall (.object "B") (by simp)).symm
    simp at hsame
  have hone : OneUnknown (leavesAll [.error, .error]) := ⟨.error, rfl, by simp [leavesAll, leaves]⟩
  obtain ⟨-, -, hknown, hleaves⟩ :=
    appliesAt_union_by_leaves .unknown (changeOfB false) false "run" built_nestedUnion
  obtain ⟨hiff, hallowed⟩ := hknown hmany
  have hnested := hiff.mpr ⟨unionOf [.scalar "null", unionOf [.object "B", .object "A"]],
    by simp [nestedUnion], rfl, by decide +kernel⟩
  have hplain := hleaves plainUnion (built_of_leaves (by decide)) leaves_plainUnion
  have herrors : ∀ t ∈ [ReceiverType.error, .error], Built t := built_of_leaves (by decide)
  obtain ⟨-, hunknown, -, -⟩ :=
    appliesAt_union_by_leaves .unknown (changeOfB true) true "run" herrors
  exact ⟨hmany, fun allowed => (hallowed allowed).trans hnested, hplain.trans hnested, hone,
    hunknown hone⟩

end Change

end UpgradeNotes
