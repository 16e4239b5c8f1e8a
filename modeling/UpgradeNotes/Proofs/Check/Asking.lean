import Mathlib.Data.List.Sort
import UpgradeNotes.Proofs.Check.Visits
import UpgradeNotes.Proofs.Php.Simulation
import UpgradeNotes.Proofs.Rule

/-!
# Asking every rule finds no more

A check asks a rule about a site only if the rule has some change for it, and
then the index of the rule gives the changes to compare. Neither loses anything:
a rule announces what a search through all of its changes finds, and a check
that asks every rule about every site has the same result
(`asking_every_rule_adds_nothing`).

The two checks do not go through the same states. Asking a rule opens the
documentation of the node, so that the one that asks all rules gathers
documentation that nothing is written on. `SameDocs` sees through that: each node
has the same documentation, opened or not.
-/

namespace UpgradeNotes

open Php

namespace Check

/-! ## Asking -/

/-- The documentation of the node at `n`, as gathered or as it is read. -/
def pendingAt (su : Setup) (targets : List Pending) (n : Nat) : Pending :=
  (find? n targets).getD (Pending.new su.trivia su.source n)

/-- Asks one rule about a site and has it annotate the node at `start`. -/
def ask (su : Setup) (site : Site) (start : Nat) (s : State) (rule : Rule) : State :=
  let (after, lines) := (pendingAt su s.targets start).announce rule su.index.hierarchy site
  { s with
    targets := update start (Pending.new su.trivia su.source start) (fun _ => after) s.targets
    annotations := s.annotations ++ lines.map fun text => ⟨rule.name, text, start⟩ }

theorem annotateWith_eq (su : Setup) (site : Site) (start : Nat) (s : State) (rule : Rule) :
    annotateWith su site start s rule =
      if rule.isAsked site = true then ask su site start s rule else s := rfl

/-- The state after a visit in which every rule is asked. -/
def State.visitAll (su : Setup) (s : State) (v : Visit) : State :=
  v.rules.foldl (ask su v.site v.start) s

/-- A rule that need not be asked leaves all documentation as it is. -/
theorem announce_of_not_asked {rule : Rule} {site : Site} (hnot : ¬rule.isAsked site = true)
    (p : Pending) (h : Hierarchy) : p.announce rule h site = (p, []) := by
  have hlines : (⟨rule, h, site⟩ : Call).lines = [] :=
    rule.announcements_of_not_asked h site (Bool.eq_false_iff.mpr hnot)
  refine Pending.announce_of_refused (c := ⟨rule, h, site⟩) ?_
  rw [hlines]
  intro line hline
  exact absurd hline List.not_mem_nil

/-! ## The documentation of a node -/

theorem start_pendingAt (su : Setup) (targets : List Pending) (n : Nat) :
    (pendingAt su targets n).start = n := by
  unfold pendingAt
  cases hfind : find? n targets with
  | none => rfl
  | some p => exact (mem_of_find? hfind).2

theorem find?_update {start : Nat} {fresh after : Pending} (hafter : after.start = start)
    (targets : List Pending) (n : Nat) :
    find? n (update start fresh (fun _ => after) targets) =
      if n = start then some after else find? n targets := by
  induction targets with
  | nil => grind [update, find?]
  | cons p rest ih => grind [update, find?]

theorem pendingAt_update {su : Setup} {start : Nat} {fresh after : Pending}
    (hafter : after.start = start) (targets : List Pending) (n : Nat) :
    pendingAt su (update start fresh (fun _ => after) targets) n =
      if n = start then after else pendingAt su targets n := by
  unfold pendingAt
  rw [find?_update hafter]
  split <;> rfl

/-- Documentation gathered in order that is the same for every node. -/
structure SameDocs (su : Setup) (ts us : List Pending) : Prop where
  left : ts.Pairwise fun p q => p.start < q.start
  right : us.Pairwise fun p q => p.start < q.start
  docs : ∀ n, pendingAt su us n = pendingAt su ts n

theorem SameDocs.write {su : Setup} {ts us : List Pending} (h : SameDocs su ts us) {start : Nat}
    {fresh after : Pending} (hafter : after.start = start) :
    SameDocs su (update start fresh (fun _ => after) ts)
      (update start fresh (fun _ => after) us) := by
  refine ⟨pairwise_update hafter h.left, pairwise_update hafter h.right, ?_⟩
  intro n
  rw [pendingAt_update hafter, pendingAt_update hafter, h.docs n]

/-- Documentation that is opened and put back as it was makes no difference. -/
theorem SameDocs.opened {su : Setup} {ts us : List Pending} (h : SameDocs su ts us) (start : Nat)
    (fresh : Pending) :
    SameDocs su ts (update start fresh (fun _ => pendingAt su us start) us) := by
  have hstart := start_pendingAt su us start
  refine ⟨h.left, pairwise_update hstart h.right, ?_⟩
  intro n
  rw [pendingAt_update hstart, ← h.docs n]
  split
  · rename_i hn
    rw [hn]
  · rfl

/-! ## The edits -/

theorem find?_of_mem {targets : List Pending} (h : targets.Pairwise fun p q => p.start < q.start)
    {p : Pending} (hp : p ∈ targets) : find? p.start targets = some p := by
  induction targets with
  | nil => exact absurd hp List.not_mem_nil
  | cons q rest ih =>
    rw [List.pairwise_cons] at h
    unfold find?
    rcases List.mem_cons.mp hp with rfl | hp
    · exact if_pos rfl
    · have hlt := h.1 p hp
      rw [if_neg (Nat.ne_of_lt hlt)]
      exact ih h.2 hp

/-- Documentation that something was written on is gathered on both sides. -/
theorem SameDocs.mem {su : Setup} {ts us : List Pending} (h : SameDocs su ts us) {p : Pending}
    (hp : p ∈ ts) (hadded : p.added ≠ []) : p ∈ us := by
  have hdoc : pendingAt su us p.start = p := by
    rw [h.docs, pendingAt, find?_of_mem h.left hp, Option.getD_some]
  cases hfind : find? p.start us with
  | none =>
    -- what is only read has nothing added
    rw [pendingAt, hfind, Option.getD_none] at hdoc
    exact absurd (congrArg Pending.added hdoc).symm hadded
  | some q =>
    rw [pendingAt, hfind, Option.getD_some] at hdoc
    rw [← hdoc]
    exact (mem_of_find? hfind).1

theorem SameDocs.symm {su : Setup} {ts us : List Pending} (h : SameDocs su ts us) :
    SameDocs su us ts :=
  ⟨h.right, h.left, fun n => (h.docs n).symm⟩

/-- Only documentation that something was written on has an edit. -/
theorem filterMap_edit?_written (targets : List Pending) :
    (targets.filter fun p => !p.added.isEmpty).filterMap Pending.edit? =
      targets.filterMap Pending.edit? := by
  rw [List.filterMap_filter]
  refine List.filterMap_congr ?_
  intro p _
  by_cases hadded : p.added = []
  · rw [Pending.edit?_of_added_nil hadded, ite_self]
  · simp [hadded]

/-- The same documentation has the same edits. -/
theorem SameDocs.edits {su : Setup} {ts us : List Pending} (h : SameDocs su ts us) :
    us.filterMap Pending.edit? = ts.filterMap Pending.edit? := by
  have : Std.Antisymm fun p q : Pending => p.start < q.start :=
    ⟨fun _ _ hpq hqp => absurd hqp (Nat.lt_asymm hpq)⟩
  have : Std.Irrefl fun p q : Pending => p.start < q.start := ⟨fun p => Nat.lt_irrefl p.start⟩
  have hwritten : (us.filter fun p => !p.added.isEmpty) = ts.filter fun p => !p.added.isEmpty := by
    refine (h.right.filter _).eq_of_mem_iff (h.left.filter _) ?_
    intro p
    simp only [List.mem_filter, Bool.not_eq_true', List.isEmpty_eq_false_iff]
    constructor
    · rintro ⟨hp, hadded⟩
      exact ⟨h.symm.mem hp hadded, hadded⟩
    · rintro ⟨hp, hadded⟩
      exact ⟨h.mem hp hadded, hadded⟩
  rw [← filterMap_edit?_written us, hwritten, filterMap_edit?_written]

/-! ## The two checks side by side -/

/-- States of the two checks at the same point of the walk. -/
structure SameFindings (su : Setup) (s t : State) : Prop where
  place : t = s.noted t
  annotations : t.annotations = s.annotations
  docs : SameDocs su s.targets t.targets

/-- One rule: it is asked on both sides, or it has nothing to say. -/
theorem SameFindings.annotateWith {su : Setup} {s t : State} (h : SameFindings su s t)
    (site : Site) (start : Nat) (rule : Rule) :
    SameFindings su (annotateWith su site start s rule) (ask su site start t rule) := by
  obtain ⟨hplace, hannotations, hdocs⟩ := h
  rw [annotateWith_eq]
  split
  · refine ⟨?_, ?_, ?_⟩
    · rw [hplace]
      rfl
    · simp only [ask, hdocs.docs, hannotations]
    · simp only [ask, hdocs.docs]
      exact hdocs.write (start_pendingAt su s.targets start)
  · rename_i hnot
    refine ⟨?_, ?_, ?_⟩
    · rw [hplace]
      rfl
    · simp only [ask, announce_of_not_asked hnot, List.map_nil, List.append_nil, hannotations]
    · simp only [ask, announce_of_not_asked hnot]
      exact hdocs.opened start _

theorem SameFindings.visit {su : Setup} {s t : State} (h : SameFindings su s t) (v : Visit) :
    SameFindings su (s.visit su v) (t.visitAll su v) := by
  unfold State.visit annotate State.visitAll
  show SameFindings su (v.rules.foldl (Check.annotateWith su v.site v.start) s) _
  induction v.rules generalizing s t with
  | nil => exact h
  | cons rule rest ih => exact ih (h.annotateWith v.site v.start rule)

theorem SameFindings.visits {su : Setup} {s t : State} (h : SameFindings su s t)
    (vs : List Visit) :
    SameFindings su (vs.foldl (State.visit su) s) (vs.foldl (State.visitAll su) t) := by
  induction vs generalizing s t with
  | nil => exact h
  | cons v rest ih => exact ih (h.visit v)

/-- A move that does not look at the notes keeps the findings the same. -/
theorem SameFindings.moved {su : Setup} {s t : State} (h : SameFindings su s t)
    (move : State → State) (hmove : ∀ c s : State, move (c.noted s) = (move c).noted s) :
    SameFindings su (move s) (move t) := by
  have hs : move s = (move s).noted s := hmove s s
  have ht : move t = (move s).noted t := by
    rw [← hmove, ← h.place]
  rw [ht, hs]
  exact ⟨rfl, h.annotations, h.docs⟩

/-- The check and the one that asks every rule keep in step. -/
theorem alike_visitAll (su : Setup) :
    Visitor.Alike (SameFindings su) (visitor su) (visitorBy (State.visitAll su) su) := by
  have hvisits : ∀ p s t, SameFindings su s t →
      SameFindings su ((visitsAt su s p).foldl (State.visit su) s)
        ((visitsAt su t p).foldl (State.visitAll su) t) := by
    intro p s t h
    have hsame : visitsAt su t p = visitsAt su s p := by
      rw [h.place]
      rfl
    rw [hsame]
    exact h.visits (visitsAt su s p)
  rw [visitor_eq]
  constructor
  · intro p s t h
    have hv := hvisits p s t h
    rw [enter_visitorBy, enter_visitorBy, hv.place, enter_silent_noted]
  · intro p s t h
    rw [enter_visitorBy, enter_visitorBy]
    exact (hvisits p s t h).moved (fun c => ((visitor su.silent).enter p c).2)
      fun c s => congrArg Prod.snd (enter_silent_noted su p c s)
  · intro p s t h
    rw [leave_visitorBy, leave_visitorBy]
    exact h.moved ((visitor su).leave p) (leave_noted su p)

end Check

/-- Runs rules over a program, asking every rule about every site. -/
def checkAll (p : Program) (source : String) (rules : List Rule) (index : ClassIndex) :
    CheckResult :=
  if rules.isEmpty then {}
  else
    let su : Check.Setup := { source := source.toList, trivia := p.trivia, rules, index }
    ((Check.visitorBy (Check.State.visitAll su) su).program p {}).result

theorem checkAll_eq (p : Program) (source : String) (rules : List Rule) (index : ClassIndex) :
    checkAll p source rules index = check p source rules index := by
  unfold checkAll check
  split
  · rfl
  · let su : Check.Setup := { source := source.toList, trivia := p.trivia, rules, index }
    have hstart : Check.SameFindings su {} {} :=
      ⟨rfl, rfl, ⟨List.Pairwise.nil, List.Pairwise.nil, fun _ => rfl⟩⟩
    obtain ⟨_, hannotations, hdocs⟩ := (Check.alike_visitAll su).program p hstart
    show Check.State.result _ = Check.State.result _
    rw [Check.State.result, Check.State.result, hdocs.edits, hannotations]

/-- Neither the index of a rule nor the question whether to ask it at all loses
anything. The announcements at a site are the lines of all changes that apply
there, in catalog order, the first of equal ones each; the index points into the
changes; a rule that is not asked would leave every target as it is. So a check in
which the question is left out, and nothing else, has the same edits and
annotations. -/
theorem asking_every_rule_adds_nothing :
    (∀ (r : Rule) (h : Hierarchy) (site : Site),
      r.announcements h site =
          ((r.changes.filter (·.appliesAt h site)).map (·.todoLine r.style)).eraseDups ∧
        (∀ i ∈ r.index.positions site, i < r.changes.length) ∧
        (r.isAsked site = false → ∀ target, r.annotate h site target = (target, []))) ∧
      (∀ (su : Check.Setup) (site : Site) (start : Nat) (s : Check.State) (rule : Rule),
        Check.annotateWith su site start s rule =
          if rule.isAsked site = true then Check.ask su site start s rule else s) ∧
      (∀ su : Check.Setup, Check.visitor su = Check.visitorBy (Check.State.visit su) su) ∧
      ∀ (p : Program) (source : String) (rules : List Rule) (index : ClassIndex),
        checkAll p source rules index = check p source rules index := by
  refine ⟨?_, Check.annotateWith_eq, Check.visitor_eq, checkAll_eq⟩
  intro r h site
  refine ⟨r.announcements_eq h site, ?_, r.annotate_of_not_asked h site⟩
  intro i hi
  exact r.lt_of_mem_positions site hi

theorem asking_every_rule_adds_nothing_sample :
    0 ∈ sampleRule.index.positions (.methodCall true "RUN" .unresolved) ∧
      0 < sampleRule.changes.length ∧
      sampleRule.isAsked (.methodCall true "walk" .unresolved) = false ∧
      sampleRule.annotate .unknown (.methodCall true "walk" .unresolved) {} = ({}, []) := by
  have hrun : 0 ∈ sampleRule.index.positions (.methodCall true "RUN" .unresolved) := by decide
  have hwalk : sampleRule.isAsked (.methodCall true "walk" .unresolved) = false := by decide
  obtain ⟨hrule, -, -, -⟩ := asking_every_rule_adds_nothing
  refine ⟨hrun, ?_, hwalk, ?_⟩
  · exact (hrule sampleRule .unknown _).2.1 0 hrun
  · exact (hrule sampleRule .unknown _).2.2 hwalk {}

end UpgradeNotes
