import UpgradeNotes.Proofs.ClassIndex.Comparison
import UpgradeNotes.Proofs.Spelling

/-!
# More classes

Classes that are registered in addition leave those alone that an index has. All links
stay, so what they lead to is reached as before, and a change that applies at a site
still applies (`appliesAt_of_more_classes`): to read more of a program never loses a
note. It is different with a class that is declared anew.
-/

namespace UpgradeNotes

namespace ClassIndex

open Relation ClassName

variable {ix iy : ClassIndex}

/-- Every class of the first index is in the second one, under the same key. -/
def Within (ix iy : ClassIndex) : Prop :=
  ∀ k c, ix.classes.get? k = some c → iy.classes.get? k = some c

/-- The classes added may replace each other, but none of those that were there. -/
theorem Within.extend (h : Within ix iy) {cs : List ClassInfo}
    (hnew : ∀ c ∈ cs, ix.hasClass c.name = false) : Within ix (iy.extend cs) := by
  intro k d hd
  have hnone : (cs.reverse.find? fun c => key c.name = k) = none := by
    rw [List.find?_eq_none]
    intro c hc hk
    have hfree := hnew c (List.mem_reverse.mp hc)
    rw [hasClass, get?, of_decide_eq_true hk, hd] at hfree
    exact absurd hfree (by simp)
  rw [get?_extend, hnone, Option.none_or]
  exact h k d hd

theorem Within.links (h : Within ix iy) {k l : String} (hkl : ix.Links k l) : iy.Links k l := by
  obtain ⟨c, hc, hl⟩ := hkl
  exact ⟨c, h k c hc, hl⟩

theorem Within.extends (h : Within ix iy) {a b : String} (hab : ix.Extends a b) :
    iy.Extends a b := by
  obtain ⟨c, hc, hb⟩ := hab
  exact ⟨c, h (key a) c hc, hb⟩

/-- The walks of the larger index may take other ways, but they reach all that those of
the smaller one reach. -/
theorem Within.isSameOrSubclass (h : Within ix iy) (hx : Keyed ix) (hy : Keyed iy)
    {actual configured : String}
    (hmatch : ix.hierarchy.isSameOrSubclass actual configured = true) :
    iy.hierarchy.isSameOrSubclass actual configured = true := by
  cases hq : isQualified (unrooted configured) with
  | true =>
    rw [hx.isSameOrSubclass_qualified_iff hq] at hmatch
    rw [hy.isSameOrSubclass_qualified_iff hq]
    rcases hmatch with hfits | hpath
    · exact .inl hfits
    · exact .inr (TransGen.mono (fun _ _ => h.links) _ _ hpath)
  | false =>
    rw [hx.isSameOrSubclass_short_iff hq] at hmatch
    rw [hy.isSameOrSubclass_short_iff hq]
    obtain ⟨n, hpath, hfits⟩ := hmatch
    exact ⟨n, ReflTransGen.mono (fun _ _ => h.extends) _ _ hpath, hfits⟩

end ClassIndex

namespace Change

open ClassIndex

/-- A hierarchy that compares more classes with the name of a change makes it apply at
more sites. -/
theorem appliesAt_mono {h h' : Hierarchy} {c : Change}
    (hmono : ∀ name, h.isSameOrSubclass name c.className = true →
      h'.isSameOrSubclass name c.className = true)
    {site : Site} (happlies : c.appliesAt h site = true) : c.appliesAt h' site = true := by
  by_cases hkind : site.kind = .classDeclaration
  · cases site with
    | classDeclaration name traits =>
      simp only [appliesAt, Bool.and_eq_true, Bool.or_eq_true] at happlies ⊢
      exact ⟨happlies.1, happlies.2.imp_left (hmono name)⟩
    | methodCall nullsafe method receiver => cases nullsafe <;> simp [Site.kind] at hkind
    | _ => simp [Site.kind] at hkind
  · rw [appliesAt_of_kind hkind, Bool.and_eq_true] at happlies ⊢
    obtain ⟨hmethod, happlies⟩ := happlies
    refine ⟨hmethod, ?_⟩
    -- whether the receiver is known is not asked of the hierarchy
    cases hknown : site.receiverKnown with
    | false => simpa [hknown] using happlies
    | true =>
      simp only [hknown, if_true, List.any_eq_true] at happlies ⊢
      obtain ⟨name, hname, hsame⟩ := happlies
      exact ⟨name, hname, hmono name hsame⟩

/-- Registering classes under keys that an index does not have takes no match away. -/
theorem appliesAt_of_more_classes {ix : ClassIndex} (hix : Assembled ix) {cs : List ClassInfo}
    (hnew : ∀ c ∈ cs, ix.hasClass c.name = false) {c : Change} {site : Site}
    (happlies : c.appliesAt ix.hierarchy site = true) :
    c.appliesAt (ix.extend cs).hierarchy site = true := by
  have hwithin : Within ix (ix.extend cs) := .extend (fun _ _ h => h) hnew
  refine appliesAt_mono (fun name hmatch => ?_) happlies
  exact hwithin.isSameOrSubclass hix.keyed (hix.keyed.extend cs) hmatch

/-- A task whose parent is not known yet. -/
def oneTask : ClassIndex :=
  empty.register { name := "App\\Task", parent := some "Vendor\\Dev\\Base" }

/-- The parent, which closes a circle and is declared twice. -/
def laterClasses : List ClassInfo :=
  [{ name := "vendor\\dev\\BASE" }, { name := "Vendor\\Dev\\Base", parent := some "app\\task" }]

/-- A change of a method of the parent. -/
def changeOfBase : Change where
  className := "Base"
  method := "run"
  note := "x"

/-- A call on the task. -/
def callOnTask : Site :=
  .methodCall false "run" (.object "App\\Task")

theorem appliesAt_of_more_classes_circle :
    Assembled oneTask ∧ (∀ c ∈ laterClasses, oneTask.hasClass c.name = false) ∧
      changeOfBase.appliesAt oneTask.hierarchy callOnTask = true ∧
      changeOfBase.appliesAt (oneTask.extend laterClasses).hierarchy callOnTask = true := by
  have hix : Assembled oneTask := .register _ .empty
  have hnew : ∀ c ∈ laterClasses, oneTask.hasClass c.name = false := by decide +kernel
  have hbefore : changeOfBase.appliesAt oneTask.hierarchy callOnTask = true := by
    decide +kernel
  exact ⟨hix, hnew, hbefore, appliesAt_of_more_classes hix hnew hbefore⟩

-- a later declaration of the task itself may take the match away
example :
    changeOfBase.appliesAt (oneTask.extend [{ name := "APP\\task" }]).hierarchy callOnTask =
      false := by
  decide +kernel

end Change

end UpgradeNotes
