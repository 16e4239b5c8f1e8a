import Mathlib.Data.List.Basic
import Mathlib.Data.List.Induction
import UpgradeNotes.Rule

/-!
# The index of a rule finds what applies

A rule looks at the changes that its index gives for a site and at no other.
These are the changes whose method, or whose want of one, suits the site
(`candidates_eq`), and no other change can apply there. So the announcements are
those of all changes that apply (`announcements_eq`), and a rule that is not
asked because it has no change for the site has nothing to say
(`announcements_of_not_asked`).
-/

namespace UpgradeNotes

/-- Whether the change is of the kind that a site can be concerned by: of a whole
class at a class declaration, else of the method of the site. -/
def Change.suits (c : Change) (site : Site) : Bool :=
  if site.kind = .classDeclaration then c.isTypeLevel else c.concerns site.method

theorem Change.suits_of_appliesAt {h : Hierarchy} {c : Change} {site : Site}
    (happ : c.appliesAt h site = true) : c.suits site = true := by
  cases site with
  | classDeclaration name traits => exact (Bool.and_eq_true_iff.mp happ).1
  | methodCall nullsafe method receiver =>
    cases nullsafe <;> exact (Bool.and_eq_true_iff.mp happ).1
  | staticCall method className => exact (Bool.and_eq_true_iff.mp happ).1
  | methodDeclaration method className => exact (Bool.and_eq_true_iff.mp happ).1

namespace ChangeIndex

/-- What one more change adds to the positions for a site. -/
theorem positions_add (ix : ChangeIndex) (i : Nat) (c : Change) (site : Site) :
    (ix.add i c).positions site = ix.positions site ++ if c.suits site = true then [i] else [] := by
  unfold add positions Change.suits
  by_cases hkind : site.kind = .classDeclaration
  · cases htype : c.isTypeLevel <;> simp [hkind]
  · cases htype : c.isTypeLevel
    · -- the key of the change is that of the site iff the methods are the same up to case
      by_cases hfold : Text.fold site.method = Text.fold c.method
      · have hsame : Text.sameFold c.method site.method = true := Text.sameFold_iff.mpr hfold.symm
        simp [hkind, htype, hfold, hsame, Change.concerns, Table.get?_insert]
      · have hsame : Text.sameFold c.method site.method = false := by
          rw [Bool.eq_false_iff, ne_eq, Text.sameFold_iff]
          exact Ne.symm hfold
        simp [hkind, htype, hfold, hsame, Change.concerns, Table.get?_insert]
    · simp [hkind, htype, Change.concerns]

theorem positions_addFrom (ix : ChangeIndex) (i : Nat) (changes : List Change) (site : Site) :
    (ix.addFrom i changes).positions site =
      ix.positions site ++ changes.findIdxs (·.suits site) i := by
  induction changes generalizing ix i with
  | nil => simp [addFrom]
  | cons c rest ih =>
    rw [addFrom, ih, positions_add, List.findIdxs_cons]
    split <;> simp

/-- The index has the positions of the changes that suit a site, in order. -/
theorem positions_ofChanges (changes : List Change) (site : Site) :
    (ofChanges changes).positions site = changes.findIdxs (·.suits site) := by
  rw [ofChanges, positions_addFrom]
  have hempty : positions {} site = [] := by
    unfold positions
    split <;> rfl
  rw [hempty, List.nil_append]

end ChangeIndex

/-- Reading a list at the positions of some elements gives these elements. -/
theorem filterMap_findIdxs {α : Type} (p : α → Bool) (front rest : List α) :
    (rest.findIdxs p front.length).filterMap ((front ++ rest)[·]?) = rest.filter p := by
  induction rest generalizing front with
  | nil => rfl
  | cons a rest ih =>
    have hrest := ih (front ++ [a])
    rw [List.append_assoc, List.length_append, List.singleton_append] at hrest
    rw [List.findIdxs_cons, List.filter_cons]
    split
    · rw [List.filterMap_cons, List.getElem?_append_right (Nat.le_refl _), Nat.sub_self]
      exact congrArg (a :: ·) hrest
    · exact hrest

namespace Rule

variable (r : Rule) (h : Hierarchy) (site : Site)

theorem positions_eq : r.index.positions site = r.changes.findIdxs (·.suits site) := by
  rw [r.index_eq, ChangeIndex.positions_ofChanges]

/-- A rule looks at the changes that suit the site, in catalog order. -/
theorem candidates_eq : r.candidates site = r.changes.filter (·.suits site) := by
  rw [candidates, positions_eq]
  exact filterMap_findIdxs _ [] r.changes

/-- The index points into the changes. -/
theorem lt_of_mem_positions {i : Nat} (hi : i ∈ r.index.positions site) : i < r.changes.length := by
  rw [positions_eq] at hi
  exact (List.mem_findIdxs_iff_exists_getElem_pos.mp hi).1

theorem applicable_candidates :
    site.applicable h (r.candidates site) = site.applicable h r.changes := by
  rw [candidates_eq, Site.applicable, Site.applicable, List.filter_filter]
  refine List.filter_congr fun c _ => ?_
  rw [Bool.eq_iff_iff, Bool.and_eq_true]
  exact ⟨And.left, fun happ => ⟨happ, Change.suits_of_appliesAt happ⟩⟩

/-- Adding lines one by one keeps the first of equal ones. -/
theorem foldl_addLine (lines : List String) : lines.foldl addLine [] = lines.eraseDups := by
  induction lines using List.reverseRecOn with
  | nil => rfl
  | append_singleton lines line ih =>
    rw [List.foldl_append, ih, List.eraseDups_append, List.foldl_cons, List.foldl_nil, addLine]
    by_cases hmem : line ∈ lines
    · simp [List.removeAll, hmem]
    · simp [List.removeAll, hmem, List.eraseDups_cons]

/-- The announcements are the lines of all changes that apply, in catalog order,
the first of equal lines each. -/
theorem announcements_eq :
    r.announcements h site =
      ((site.applicable h r.changes).map (·.todoLine r.style)).eraseDups := by
  rw [announcements, applicable_candidates, foldl_addLine]

/-! ## Rules that are not asked -/

/-- Whether a rule is asked about a site: it has changes for sites of this kind,
and for the method if the site has one. -/
def isAsked : Bool :=
  r.wants site.kind && (site.kind == .classDeclaration || r.hasMethod site.method)

theorem positions_of_not_asked (hnot : r.isAsked site = false) : r.index.positions site = [] := by
  unfold isAsked at hnot
  unfold ChangeIndex.positions
  by_cases hkind : site.kind = .classDeclaration
  · rw [if_pos hkind]
    simpa [hkind, wants] using hnot
  · rw [if_neg hkind]
    cases hget : r.index.byMethod.get? (Text.fold site.method) with
    | none => rfl
    | some positions =>
      -- with an entry for the method the rule wants the site and has the method
      have hmethod : r.hasMethod site.method = true := by
        rw [hasMethod, Table.contains, hget]
        rfl
      have hwants : r.wants site.kind = true := by
        have hne : r.index.byMethod.entries ≠ [] := by
          intro hnil
          rw [Table.get?, hnil] at hget
          exact absurd hget (by simp)
        cases hk : site.kind with
        | classDeclaration => exact absurd hk hkind
        | _ => simpa [wants] using hne
      rw [hwants, hmethod] at hnot
      exact absurd hnot (by simp)

theorem announcements_of_not_asked (hnot : r.isAsked site = false) :
    r.announcements h site = [] := by
  rw [announcements, candidates, r.positions_of_not_asked site hnot]
  rfl

/-- A rule that is not asked would leave every target as it is. -/
theorem annotate_of_not_asked (hnot : r.isAsked site = false) (target : Docblock.Target) :
    r.annotate h site target = (target, []) := by
  rw [annotate, r.announcements_of_not_asked h site hnot]
  rfl

end Rule

end UpgradeNotes
