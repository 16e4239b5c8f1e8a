import UpgradeNotes.Proofs.ClassIndex.Comparison
import UpgradeNotes.Proofs.Rule

/-!
# Matching does not look at spelling

Class names may be written in any letter case and with or without the root in
front. Nothing that decides about a match sees the difference: an index answers
by keys (`SameByKey`), the comparison with a configured name asks for keys only
(`isSameOrSubclass_congr`), and so does the decision about a site
(`appliesAt_congr`). What a rule announces is written in its changes. So two
programs that differ in spelling get the same lines, to the letter
(`announcements_of_respelled`).
-/

namespace UpgradeNotes

open ClassName

/-! ## The same up to spelling -/

/-- The class with keys in place of names, less its traits and properties, which
no comparison asks for. -/
def ClassInfo.byKey (c : ClassInfo) : ClassInfo where
  name := key c.name
  parent := c.parent.map key
  interfaces := c.interfaces.map key

theorem ClassInfo.name_byKey (c : ClassInfo) : c.byKey.name = key c.name := rfl

theorem ClassInfo.parent_byKey (c : ClassInfo) : c.byKey.parent = c.parent.map key := rfl

theorem ClassInfo.links_byKey (c : ClassInfo) : c.byKey.links = c.links.map key := by
  rw [links, links, List.map_append, ← Option.toList_map]
  rfl

mutual
/-- The type with the key of each class in place of its name. -/
def ReceiverType.byKey : ReceiverType → ReceiverType
  | object name => object (key name)
  | union members => union (byKeyAll members)
  | t => t
/-- The types with the key of each class in place of its name. -/
def ReceiverType.byKeyAll : List ReceiverType → List ReceiverType
  | [] => []
  | t :: ts => byKey t :: byKeyAll ts
end

/-- The site with the key of each class in place of its name, and with its method
in lower case. -/
def Site.byKey : Site → Site
  | methodCall nullsafe method receiver => methodCall nullsafe (Text.fold method) receiver.byKey
  | staticCall method className => staticCall (Text.fold method) (className.map key)
  | methodDeclaration method className => methodDeclaration (Text.fold method) (key className)
  | classDeclaration className traits => classDeclaration (key className) (traits.map key)

theorem ReceiverType.isUnknown_byKey (t : ReceiverType) : t.byKey.isUnknown = t.isUnknown := by
  cases t <;> simp [byKey, isUnknown]

mutual
theorem ReceiverType.classNames_byKey (t : ReceiverType) :
    t.byKey.classNames = t.classNames.map key := by
  cases t with
  | union members =>
    simp only [byKey, classNames]
    exact classNamesAll_byKeyAll members
  | _ => simp [byKey, classNames]
theorem ReceiverType.classNamesAll_byKeyAll (ts : List ReceiverType) :
    classNamesAll (byKeyAll ts) = (classNamesAll ts).map key := by
  cases ts with
  | nil => simp [byKeyAll, classNamesAll]
  | cons t ts =>
    simp only [byKeyAll, classNamesAll, List.map_append]
    rw [classNames_byKey t, classNamesAll_byKeyAll ts]
end

/-! ## Indexes -/

namespace ClassIndex

open Relation

/-- Indexes that find the same class under every key, up to spelling. -/
def SameByKey (ix iy : ClassIndex) : Prop :=
  ∀ k, (ix.classes.get? k).map ClassInfo.byKey = (iy.classes.get? k).map ClassInfo.byKey

variable {ix iy : ClassIndex}

theorem SameByKey.register (h : SameByKey ix iy) {c d : ClassInfo} (hcd : c.byKey = d.byKey) :
    SameByKey (ix.register c) (iy.register d) := by
  have hkey : key c.name = key d.name := by
    rw [← c.name_byKey, hcd, d.name_byKey]
  intro k
  simp only [ClassIndex.register, Table.get?_insert, hkey]
  split
  · exact congrArg some hcd
  · exact h k

/-- Registering the same classes, up to spelling, gives indexes that answer
alike. -/
theorem SameByKey.extend (h : SameByKey ix iy) {cs ds : List ClassInfo}
    (hcs : cs.map ClassInfo.byKey = ds.map ClassInfo.byKey) :
    SameByKey (ix.extend cs) (iy.extend ds) := by
  induction cs generalizing ix iy ds with
  | nil =>
    rw [List.map_nil, eq_comm, List.map_eq_nil_iff] at hcs
    rw [hcs]
    exact h
  | cons c rest ih =>
    cases ds with
    | nil => exact absurd hcs (by simp)
    | cons d ds =>
      obtain ⟨hcd, hrest⟩ := List.cons.inj hcs
      exact ih (h.register hcd) hrest

theorem SameByKey.exists_class (h : SameByKey ix iy) {k : String} {c : ClassInfo}
    (hc : ix.classes.get? k = some c) : ∃ d, iy.classes.get? k = some d ∧ d.byKey = c.byKey := by
  have hk := h k
  rw [hc, Option.map_some, eq_comm, Option.map_eq_some_iff] at hk
  exact hk

theorem SameByKey.links (h : SameByKey ix iy) {k l : String} (hkl : ix.Links k l) :
    iy.Links k l := by
  obtain ⟨c, hc, hl⟩ := hkl
  obtain ⟨d, hd, hdc⟩ := h.exists_class hc
  refine ⟨d, hd, ?_⟩
  rwa [← ClassInfo.links_byKey, hdc, ClassInfo.links_byKey]

/-- Parent links lead to a class that fits from every spelling of a name. -/
theorem SameByKey.exists_extends (h : SameByKey ix iy) {a b configured : String}
    (hab : key a = key b)
    (hpath : ∃ n, ReflTransGen ix.Extends a n ∧ fits n configured = true) :
    ∃ n, ReflTransGen iy.Extends b n ∧ fits n configured = true := by
  obtain ⟨n, hpath, hfits⟩ := hpath
  induction hpath using ReflTransGen.head_induction_on generalizing b with
  | refl => exact ⟨b, .refl, fits_of_key_eq hab hfits⟩
  | head hstep _ ih =>
    obtain ⟨c, hc, hparent⟩ := hstep
    rw [hab] at hc
    obtain ⟨d, hd, hdc⟩ := h.exists_class hc
    -- the parent may be written in another way in the other index
    have hkey : d.parent.map key = c.parent.map key := by
      rw [← d.parent_byKey, hdc, c.parent_byKey]
    rw [hparent, Option.map_some, Option.map_eq_some_iff] at hkey
    obtain ⟨parent, hdparent, hkey⟩ := hkey
    obtain ⟨m, hrest, hm⟩ := ih hkey.symm
    exact ⟨m, .head ⟨d, hd, hdparent⟩ hrest, hm⟩

theorem SameByKey.isSameOrSubclass_of (h : SameByKey ix iy) (hx : Keyed ix) (hy : Keyed iy)
    {a b configured : String} (hab : key a = key b)
    (hmatch : ix.hierarchy.isSameOrSubclass a configured = true) :
    iy.hierarchy.isSameOrSubclass b configured = true := by
  cases hq : isQualified (unrooted configured) with
  | true =>
    rw [hx.isSameOrSubclass_qualified_iff hq] at hmatch
    rw [hy.isSameOrSubclass_qualified_iff hq, ← hab]
    rcases hmatch with hfits | hpath
    · exact .inl (fits_of_key_eq hab hfits)
    · exact .inr (TransGen.mono (fun _ _ => h.links) _ _ hpath)
  | false =>
    rw [hx.isSameOrSubclass_short_iff hq] at hmatch
    rw [hy.isSameOrSubclass_short_iff hq]
    exact h.exists_extends hab hmatch

/-- The comparison with a configured name does not look at spelling. -/
theorem isSameOrSubclass_congr {cs ds : List ClassInfo}
    (h : cs.map ClassInfo.byKey = ds.map ClassInfo.byKey) {a b : String} (hab : key a = key b)
    (configured : String) :
    (empty.extend cs).hierarchy.isSameOrSubclass a configured =
      (empty.extend ds).hierarchy.isSameOrSubclass b configured := by
  have hempty : SameByKey empty empty := fun _ => rfl
  have hcs := keyed_extend cs
  have hds := keyed_extend ds
  rw [Bool.eq_iff_iff]
  exact ⟨(hempty.extend h).isSameOrSubclass_of hcs hds hab,
    (hempty.extend h.symm).isSameOrSubclass_of hds hcs hab.symm⟩

end ClassIndex

/-! ## Sites -/

theorem ClassName.fits_congr {a b : String} (hab : key a = key b) (configured : String) :
    fits a configured = fits b configured := by
  rw [Bool.eq_iff_iff]
  exact ⟨fits_of_key_eq hab, fits_of_key_eq hab.symm⟩

/-- A question about names that does not look at spelling has the same answer for
the same names. -/
theorem any_of_map_key_eq {names others : List String} (h : names.map key = others.map key)
    {f g : String → Bool} (hfg : ∀ a b, key a = key b → f a = g b) :
    names.any f = others.any g := by
  induction names generalizing others with
  | nil =>
    rw [List.map_nil, eq_comm, List.map_eq_nil_iff] at h
    rw [h]
    rfl
  | cons a rest ih =>
    cases others with
    | nil => exact absurd h (by simp)
    | cons b others =>
      obtain ⟨hab, hrest⟩ := List.cons.inj h
      rw [List.any_cons, List.any_cons, hfg a b hab, ih hrest]

theorem Change.concerns_congr (c : Change) {method other : String}
    (h : Text.fold method = Text.fold other) : c.concerns method = c.concerns other := by
  have hsame : Text.sameFold c.method method = Text.sameFold c.method other := by
    rw [Bool.eq_iff_iff, Text.sameFold_iff, Text.sameFold_iff, h]
  rw [concerns, concerns, hsame]

namespace Site

variable (site : Site)

theorem kind_byKey : site.byKey.kind = site.kind := by
  cases site with
  | methodCall nullsafe method receiver => cases nullsafe <;> simp only [byKey, kind]
  | _ => simp only [byKey, kind]

theorem method_byKey : site.byKey.method = Text.fold site.method := by
  cases site with
  | classDeclaration className traits => rfl
  | _ => simp only [byKey, method]

theorem receiverKind_byKey : site.byKey.receiverKind = site.receiverKind := by
  cases site <;> simp only [byKey, receiverKind]

theorem receiverKnown_byKey : site.byKey.receiverKnown = site.receiverKnown := by
  cases site with
  | methodCall nullsafe method receiver =>
    simp only [byKey, receiverKnown, receiver.isUnknown_byKey]
  | staticCall method className => simp only [byKey, receiverKnown, Option.isSome_map]
  | _ => simp only [byKey, receiverKnown]

theorem candidates_byKey : site.byKey.candidates = site.candidates.map key := by
  cases site with
  | methodCall nullsafe method receiver => exact receiver.classNames_byKey
  | staticCall method className => exact Option.toList_map
  | _ => rfl

end Site

namespace Change

open ClassIndex

/-- The decision about a call or a method declaration. -/
theorem appliesAt_of_kind {site : Site} (hkind : site.kind ≠ .classDeclaration) (h : Hierarchy)
    (c : Change) :
    c.appliesAt h site =
      (c.concerns site.method &&
        if site.receiverKnown then site.candidates.any (h.isSameOrSubclass · c.className)
        else site.receiverKind != .static && c.onUnknown) := by
  unfold appliesAt
  cases site with
  | classDeclaration className traits => exact absurd rfl hkind
  | _ => rfl

/-- The decision about a site does not look at spelling. -/
theorem appliesAt_congr {cs ds : List ClassInfo}
    (h : cs.map ClassInfo.byKey = ds.map ClassInfo.byKey) {site other : Site}
    (hs : site.byKey = other.byKey) (c : Change) :
    c.appliesAt (empty.extend cs).hierarchy site =
      c.appliesAt (empty.extend ds).hierarchy other := by
  have hcompare := fun a b (hab : key a = key b) => isSameOrSubclass_congr h hab c.className
  have hkinds : site.kind = other.kind := by
    rw [← site.kind_byKey, hs, other.kind_byKey]
  by_cases hkind : site.kind = .classDeclaration
  · cases site with
    | classDeclaration className traits =>
      cases other with
      | classDeclaration className' traits' =>
        obtain ⟨hclass, htraits⟩ := Site.classDeclaration.inj hs
        rw [appliesAt, appliesAt, hcompare _ _ hclass,
          any_of_map_key_eq htraits fun a b hab => fits_congr hab c.className]
      | _ => exact absurd hs nofun
    | methodCall nullsafe method receiver => cases nullsafe <;> exact absurd hkind nofun
    | _ => exact absurd hkind nofun
  · have hmethod : Text.fold site.method = Text.fold other.method := by
      rw [← site.method_byKey, hs, other.method_byKey]
    have hknown : site.receiverKnown = other.receiverKnown := by
      rw [← site.receiverKnown_byKey, hs, other.receiverKnown_byKey]
    have hreceiver : site.receiverKind = other.receiverKind := by
      rw [← site.receiverKind_byKey, hs, other.receiverKind_byKey]
    have hcandidates : site.candidates.map key = other.candidates.map key := by
      rw [← site.candidates_byKey, hs, other.candidates_byKey]
    rw [appliesAt_of_kind hkind, appliesAt_of_kind (hkinds ▸ hkind), c.concerns_congr hmethod,
      hknown, hreceiver, any_of_map_key_eq hcandidates hcompare]

end Change

open ClassIndex

/-- What a rule announces does not depend on spelling, neither in the index nor at
the site. -/
theorem announcements_of_respelled (r : Rule) {cs ds : List ClassInfo}
    (h : cs.map ClassInfo.byKey = ds.map ClassInfo.byKey) {site other : Site}
    (hs : site.byKey = other.byKey) :
    r.announcements (empty.extend cs).hierarchy site =
      r.announcements (empty.extend ds).hierarchy other := by
  have happlicable : site.applicable (empty.extend cs).hierarchy r.changes =
      other.applicable (empty.extend ds).hierarchy r.changes :=
    List.filter_congr fun c _ => c.appliesAt_congr h hs
  rw [r.announcements_eq, r.announcements_eq, happlicable]

/-- A rule about the tasks of a program. -/
def taskRule : Rule where
  name := "tasks"
  changes := [⟨"Dev\\BuildTask", "run", "x", none, none, none, false⟩]

/-- A task, declared in a file. -/
def taskClasses : List ClassInfo :=
  [{ name := "App\\Task", parent := some "Dev\\BuildTask" }]

/-- The same task, declared by someone who does not care about letter case. -/
def shoutedClasses : List ClassInfo :=
  [{ name := "\\APP\\TASK", parent := some "\\dev\\BUILDtask", traits := ["Logs"] }]

/-- A call on the task or on nothing. -/
def taskCall : Site :=
  .methodCall true "run" (.union [.object "App\\Task", .scalar "null"])

/-- The same call. -/
def shoutedCall : Site :=
  .methodCall true "RUN" (.union [.object "\\app\\task", .scalar "null"])

theorem announcements_of_respelled_sample :
    taskRule.announcements (empty.extend taskClasses).hierarchy taskCall =
        ["@TODO UPGRADE TASK - BuildTask::run: x"] ∧
      taskRule.announcements (empty.extend shoutedClasses).hierarchy shoutedCall =
        ["@TODO UPGRADE TASK - BuildTask::run: x"] := by
  have hmatch : (empty.extend taskClasses).hierarchy.isSameOrSubclass "App\\Task"
      "Dev\\BuildTask" = true :=
    ((keyed_extend taskClasses).isSameOrSubclass_qualified_iff (by decide +kernel)).mpr
      (.inr (.single ⟨taskClasses[0], rfl, by decide +kernel⟩))
  have happlies : taskCall.applicable (empty.extend taskClasses).hierarchy taskRule.changes =
      taskRule.changes := by
    refine List.filter_eq_self.mpr ?_
    intro c hc
    obtain rfl := List.mem_singleton.mp hc
    have hany : taskCall.candidates.any ((empty.extend taskClasses).hierarchy.isSameOrSubclass ·
        "Dev\\BuildTask") = true := by
      rw [List.any_eq_true]
      exact ⟨"App\\Task", by decide +kernel, hmatch⟩
    rw [Change.appliesAt_of_kind (by decide +kernel), Bool.and_eq_true]
    exact ⟨by decide +kernel, hany⟩
  have htask : taskRule.announcements (empty.extend taskClasses).hierarchy taskCall =
      ["@TODO UPGRADE TASK - BuildTask::run: x"] := by
    rw [taskRule.announcements_eq, happlies]
    decide +kernel
  have hname : key "App\\Task" = key "\\APP\\TASK" := by decide +kernel
  have hparent : key "Dev\\BuildTask" = key "\\dev\\BUILDtask" := by decide +kernel
  have hreceiver : key "App\\Task" = key "\\app\\task" := by decide +kernel
  have hmethod : Text.fold "run" = Text.fold "RUN" := by decide +kernel
  have hclasses : shoutedClasses.map ClassInfo.byKey = taskClasses.map ClassInfo.byKey := by
    simp [shoutedClasses, taskClasses, ClassInfo.byKey, hname, hparent]
  have hcall : shoutedCall.byKey = taskCall.byKey := by
    simp [shoutedCall, taskCall, Site.byKey, ReceiverType.byKey, ReceiverType.byKeyAll, hreceiver,
      hmethod]
  exact ⟨htask, (announcements_of_respelled taskRule hclasses hcall).trans htask⟩

end UpgradeNotes
