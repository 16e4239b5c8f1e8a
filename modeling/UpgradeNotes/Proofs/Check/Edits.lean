import Mathlib.Data.List.Forall2
import UpgradeNotes.Proofs.Check.Asking
import UpgradeNotes.Proofs.Check.Stacks

/-!
# Edits and annotations tell the same story

A check keeps two records of what its rules write: the documentation of each
node, from which the edits are made, and the list of annotations. They are
written apart from each other and in the order in which nodes are visited, but
for each node they say the same. The documentation of a node is what the visits
to this node alone make of it, and the lines added to it are the texts of the
annotations at the node (`Accounted`). So each node with an annotation has one
edit, which adds the texts of its annotations, and no other node has one
(`edits_tell_annotations`).

A check makes its visits while it moves through the tree, each hook those of its
node (`walkVisits`). What is noted in the end is what these visits note one after
the other (`check_eq_walkVisits`).
-/

namespace UpgradeNotes

/-- Calls may be made one part after the other. -/
theorem Pending.after_append (p : Pending) (first rest : List Call) :
    p.after (first ++ rest) = (p.after first).after rest :=
  List.foldl_append

/-- Documentation that calls have added something to has an edit, and the edit
announces what was added. -/
theorem Pending.exists_edit?_of_added {p : Pending} (hp : p.added = []) {calls : List Call}
    (hadded : (p.after calls).added ≠ []) :
    ∃ e, (p.after calls).edit? = some e ∧
      e.message = String.intercalate "\n" (p.after calls).added := by
  rcases after_cases p calls with ⟨_, hnone⟩ | ⟨d, hdoc, _, _⟩
  · exact absurd (hnone.trans hp) hadded
  · cases hspan : (p.after calls).span with
    | none => exact ⟨_, edit?_of_no_span hdoc hadded hspan, rfl⟩
    | some span => exact ⟨_, edit?_of_span hdoc hadded hspan, rfl⟩

namespace Check

open Php

/-! ## One node at a time -/

/-- The calls that a visit makes. -/
def Visit.calls (su : Setup) (v : Visit) : List Call :=
  v.rules.map fun rule => ⟨rule, su.index.hierarchy, v.site⟩

/-- The calls that visits make at a node, in order. -/
def callsAt (su : Setup) (vs : List Visit) (n : Nat) : List Call :=
  (vs.filter (·.start = n)).flatMap (Visit.calls su)

/-- The documentation that the visits to a node make of it, without any visit to
another node. -/
def docAlone (su : Setup) (vs : List Visit) (n : Nat) : Pending :=
  (Pending.new su.trivia su.source n).after (callsAt su vs n)

/-- The texts of the annotations at a node, in order. -/
def textsAt (annotations : List Annotation) (n : Nat) : List String :=
  (annotations.filter (·.offset = n)).map (·.text)

theorem callsAt_cons (su : Setup) (v : Visit) (vs : List Visit) (n : Nat) :
    callsAt su (v :: vs) n = (if v.start = n then v.calls su else []) ++ callsAt su vs n := by
  unfold callsAt
  by_cases h : v.start = n <;> simp [h]

theorem textsAt_append (annotations : List Annotation) (rule : String) (lines : List String)
    (start n : Nat) :
    textsAt (annotations ++ lines.map fun text => ⟨rule, text, start⟩) n =
      textsAt annotations n ++ if start = n then lines else [] := by
  unfold textsAt
  by_cases h : start = n <;> simp [h, List.filter_map, Function.comp_def]

/-! ## Both records along a run -/

/-- Both records of a state, where `docs` is the documentation of every node. -/
structure Accounted (su : Setup) (docs : Nat → Pending) (s : State) : Prop where
  ascending : s.targets.Pairwise fun p q => p.start < q.start
  doc : ∀ n, pendingAt su s.targets n = docs n
  texts : ∀ n, textsAt s.annotations n = (docs n).added

/-- One rule writes both records, at its node and at no other. -/
theorem Accounted.annotateWith {su : Setup} {docs : Nat → Pending} {s : State}
    (h : Accounted su docs s) (site : Site) (start : Nat) (rule : Rule) :
    Accounted su
      (fun n => (docs n).after (if start = n then [⟨rule, su.index.hierarchy, site⟩] else []))
      (annotateWith su site start s rule) := by
  rw [annotateWith_eq]
  split
  · have hcall : (pendingAt su s.targets start).announce rule su.index.hierarchy site =
        (docs start).announce rule su.index.hierarchy site := by rw [h.doc]
    have hstart : ((docs start).announce rule su.index.hierarchy site).1.start = start := by
      rw [← hcall]
      exact start_pendingAt su s.targets start
    simp only [ask, hcall]
    refine ⟨pairwise_update hstart h.ascending, ?_, ?_⟩
    · intro n
      rw [pendingAt_update hstart, h.doc]
      by_cases hn : start = n
      · rw [if_pos hn.symm, if_pos hn, ← hn]
        rfl
      · rw [if_neg (Ne.symm hn), if_neg hn]
        rfl
    · intro n
      rw [textsAt_append, h.texts]
      by_cases hn : start = n
      · rw [if_pos hn, if_pos hn, ← hn]
        rfl
      · rw [if_neg hn, if_neg hn, List.append_nil]
        rfl
  · -- a rule that is not asked would not have added anything
    rename_i hnot
    have hsame : ∀ n, (docs n).after
        (if start = n then [⟨rule, su.index.hierarchy, site⟩] else []) = docs n := by
      intro n
      split
      · exact congrArg Prod.fst (announce_of_not_asked hnot (docs n) su.index.hierarchy)
      · rfl
    simp only [hsame]
    exact h

theorem Accounted.visit {su : Setup} {docs : Nat → Pending} {s : State}
    (h : Accounted su docs s) (v : Visit) :
    Accounted su (fun n => (docs n).after (if v.start = n then v.calls su else []))
      (s.visit su v) := by
  unfold State.visit annotate Visit.calls
  show Accounted su _ (v.rules.foldl (Check.annotateWith su v.site v.start) s)
  induction v.rules generalizing docs s with
  | nil =>
    simp only [List.map_nil, ite_self]
    exact h
  | cons rule rest ih =>
    have hrest := ih (h.annotateWith v.site v.start rule)
    have hcalls : ∀ n, (docs n).after
        (if v.start = n then
          (rule :: rest).map fun rule => (⟨rule, su.index.hierarchy, v.site⟩ : Call)
        else []) =
        ((docs n).after (if v.start = n then [⟨rule, su.index.hierarchy, v.site⟩] else [])).after
          (if v.start = n then
            rest.map fun rule => (⟨rule, su.index.hierarchy, v.site⟩ : Call)
          else []) := by
      intro n
      split <;> rfl
    simp only [hcalls]
    exact hrest

theorem Accounted.visits {su : Setup} {docs : Nat → Pending} {s : State}
    (h : Accounted su docs s) (vs : List Visit) :
    Accounted su (fun n => (docs n).after (callsAt su vs n)) (s.visits su vs) := by
  induction vs generalizing docs s with
  | nil => exact h
  | cons v rest ih =>
    simp only [callsAt_cons, Pending.after_append]
    exact ih (h.visit v)

/-- Visits to a state without notes account for what each node is alone. -/
theorem accounted_visits (su : Setup) (vs : List Visit) {s : State} (htargets : s.targets = [])
    (hannotations : s.annotations = []) : Accounted su (docAlone su vs) (s.visits su vs) := by
  have hstart : Accounted su (Pending.new su.trivia su.source) s := by
    refine ⟨?_, ?_, ?_⟩
    · rw [htargets]
      exact List.Pairwise.nil
    · intro n
      rw [htargets]
      rfl
    · intro n
      rw [hannotations]
      rfl
  exact hstart.visits vs

/-! ## The nodes with annotations -/

/-- The nodes that something was written on, in the order of the source. -/
def writtenNodes (targets : List Pending) : List Nat :=
  (targets.filter fun p => !p.added.isEmpty).map (·.start)

variable {su : Setup} {vs : List Visit} {s : State}

theorem Accounted.doc_eq {docs : Nat → Pending} (h : Accounted su docs s) {p : Pending}
    (hp : p ∈ s.targets) : docs p.start = p := by
  rw [← h.doc, pendingAt, find?_of_mem h.ascending hp, Option.getD_some]

/-- A node is written on iff its documentation has something added. -/
theorem Accounted.mem_writtenNodes_iff (h : Accounted su (docAlone su vs) s) {n : Nat} :
    n ∈ writtenNodes s.targets ↔ (docAlone su vs n).added ≠ [] := by
  simp only [writtenNodes, List.mem_map, List.mem_filter, Bool.not_eq_true',
    List.isEmpty_eq_false_iff]
  constructor
  · rintro ⟨p, ⟨hp, hadded⟩, rfl⟩
    rwa [h.doc_eq hp]
  · intro hadded
    rw [← h.doc, pendingAt] at hadded
    cases hfind : find? n s.targets with
    | none =>
      -- what is only read has nothing added
      rw [hfind] at hadded
      exact absurd rfl hadded
    | some p =>
      rw [hfind, Option.getD_some] at hadded
      obtain ⟨hp, hstart⟩ := mem_of_find? hfind
      exact ⟨p, ⟨hp, hadded⟩, hstart⟩

/-- Visits to a node alone give an edit iff they add something. -/
theorem isSome_edit?_docAlone_iff {n : Nat} :
    (docAlone su vs n).edit?.isSome = true ↔ (docAlone su vs n).added ≠ [] := by
  constructor
  · intro hedit hadded
    rw [Pending.edit?_of_added_nil hadded] at hedit
    exact absurd hedit Bool.false_ne_true
  · intro hadded
    obtain ⟨e, hedit, _⟩ :=
      Pending.exists_edit?_of_added (p := Pending.new su.trivia su.source n) rfl hadded
    exact Option.isSome_of_eq_some hedit

/-- A node has an annotation iff its documentation has something added. -/
theorem Accounted.annotated_iff (h : Accounted su (docAlone su vs) s) {n : Nat} :
    (∃ a ∈ s.annotations, a.offset = n) ↔ (docAlone su vs n).added ≠ [] := by
  rw [← h.texts, textsAt, ne_eq, List.map_eq_nil_iff, List.filter_eq_nil_iff]
  simp

theorem forall₂_filterMap {α β γ : Type} {r : β → γ → Prop} {f : α → β} {g : α → Option γ}
    {l : List α} (h : ∀ a ∈ l, ∃ c, g a = some c ∧ r (f a) c) :
    List.Forall₂ r (l.map f) (l.filterMap g) := by
  induction l with
  | nil => exact .nil
  | cons a rest ih =>
    obtain ⟨c, hc, hr⟩ := h a List.mem_cons_self
    rw [List.map_cons, List.filterMap_cons_some hc]
    exact .cons hr (ih fun b hb => h b (List.mem_cons_of_mem _ hb))

/-- Each node that was written on has its edit, in the order of the nodes. -/
theorem Accounted.edits (h : Accounted su (docAlone su vs) s) :
    List.Forall₂
      (fun n e => (docAlone su vs n).edit? = some e ∧
        e.message = String.intercalate "\n" (textsAt s.annotations n))
      (writtenNodes s.targets) s.result.edits := by
  show List.Forall₂ _ _ (s.targets.filterMap Pending.edit?)
  rw [← filterMap_edit?_written]
  refine forall₂_filterMap ?_
  intro p hp
  obtain ⟨hmem, hadded⟩ := List.mem_filter.mp hp
  have hdoc := h.doc_eq hmem
  rw [Bool.not_eq_true', List.isEmpty_eq_false_iff, ← hdoc] at hadded
  obtain ⟨e, hedit, hmessage⟩ :=
    Pending.exists_edit?_of_added (p := Pending.new su.trivia su.source p.start) rfl hadded
  refine ⟨e, ?_, hedit, ?_⟩
  · rw [← hdoc]
    exact hedit
  · rw [h.texts]
    exact hmessage

/-- The edits and the annotations of a result tell the same story, if `vs` are
the visits that were made: `nodes` are the nodes that visits to them alone give an
edit, and these are the nodes with an annotation, in the order of the source. Each
has one edit in the result, which is the edit of the visits to this node alone and
announces the texts of its annotations. -/
structure SameStory (su : Setup) (vs : List Visit) (nodes : List Nat) (r : CheckResult) : Prop where
  ascending : nodes.Pairwise (· < ·)
  written : ∀ n, n ∈ nodes ↔ (docAlone su vs n).edit?.isSome = true
  annotated : ∀ n, n ∈ nodes ↔ ∃ a ∈ r.annotations, a.offset = n
  edits : List.Forall₂
    (fun n e => (docAlone su vs n).edit? = some e ∧
      e.message = String.intercalate "\n" (textsAt r.annotations n))
    nodes r.edits
  isEmpty : r.isEmpty = true ↔ r.edits = []

theorem Accounted.sameStory (h : Accounted su (docAlone su vs) s) :
    SameStory su vs (writtenNodes s.targets) s.result := by
  have hwritten : ∀ n, n ∈ writtenNodes s.targets ↔ (docAlone su vs n).edit?.isSome = true :=
    fun n => h.mem_writtenNodes_iff.trans isSome_edit?_docAlone_iff.symm
  have hannotated : ∀ n, n ∈ writtenNodes s.targets ↔ ∃ a ∈ s.annotations, a.offset = n :=
    fun n => h.mem_writtenNodes_iff.trans h.annotated_iff.symm
  refine ⟨List.pairwise_map.mpr (h.ascending.filter _), hwritten, hannotated, h.edits, ?_⟩
  -- there are as many edits as nodes
  have hedits : s.result.edits = [] ↔ writtenNodes s.targets = [] := by
    rw [← List.length_eq_zero_iff, ← h.edits.length_eq, List.length_eq_zero_iff]
  rw [hedits, CheckResult.isEmpty, List.isEmpty_iff, List.eq_nil_iff_forall_not_mem,
    List.eq_nil_iff_forall_not_mem]
  constructor
  · intro hnone n hn
    obtain ⟨a, ha, _⟩ := (hannotated n).mp hn
    exact hnone a ha
  · intro hnone a ha
    exact hnone a.offset ((hannotated a.offset).mpr ⟨a, ha, rfl⟩)

/-! ## The visits of a check -/

/-- The visits that a hook makes when it is called. On the way out there are none. -/
def visitsOf (su : Setup) (call : Visitor.HookCall State) : List Visit :=
  if call.entering then visitsAt su call.state call.node else []

/-- The visits that the hooks make on a walk through a program, in order. -/
def walkVisits (su : Setup) (p : Program) : List Visit :=
  ((visitor su).watched.program p ({}, [])).2.flatMap (visitsOf su)

/-- The hooks on the way into a part make its visits. -/
theorem visitsOf_entering (su : Setup) (p : Part) (s : State) :
    (Visitor.hookCalls true p s).flatMap (visitsOf su) = visitsAt su s p := by
  cases p with
  | stmt node => exact List.append_nil _
  | expr node => exact List.append_nil _
  | anonymous c start => exact List.append_nil _
  | member node =>
    cases node with
    | method m => exact List.append_nil _
    | _ => rfl
  | _ => rfl

theorem visitsOf_leaving (su : Setup) (p : Part) (s : State) :
    (Visitor.hookCalls false p s).flatMap (visitsOf su) = [] := by
  unfold Visitor.hookCalls
  split <;> rfl

/-- A state of a check beside the watched one: it has the notes of the visits so far. -/
structure Retold (su : Setup) (s : State) (r : State × List (Visitor.HookCall State)) : Prop where
  state : r.1 = s
  notes : s = s.noted (({} : State).visits su (r.2.flatMap (visitsOf su)))

/-- Each hook notes what its visits note, and nothing else. -/
theorem alike_retold (su : Setup) :
    Visitor.Alike (Retold su) (visitor su) (visitor su).watched := by
  constructor
  · rintro p s r ⟨rfl, -⟩
    rw [Visitor.enter_watched]
  · rintro p s r ⟨rfl, hnotes⟩
    rw [Visitor.enter_watched]
    refine ⟨rfl, ?_⟩
    rw [List.flatMap_append, visitsOf_entering, State.visits, List.foldl_append]
    -- the visits see the notes of those before, and the rest of the state is of no matter
    have hvisits : r.1.visits su (visitsAt su r.1 p) =
        r.1.noted ((({} : State).visits su (r.2.flatMap (visitsOf su))).visits su
          (visitsAt su r.1 p)) := by
      rw [← visits_noted, ← hnotes]
    rw [enter_eq_noted, hvisits]
    rfl
  · rintro p s r ⟨rfl, hnotes⟩
    rw [Visitor.leave_watched]
    refine ⟨rfl, ?_⟩
    rw [List.flatMap_append, visitsOf_leaving, List.append_nil, ← leave_noted, ← hnotes]

/-- A walk without rules notes nothing. -/
theorem result_of_no_rules (su : Setup) (p : Program) :
    ((visitor su.silent).program p {}).result = {} := by
  have halike : Visitor.Alike (fun s t : State => s = t ∧ s = s.noted {}) (visitor su.silent)
      (visitor su.silent) := by
    constructor
    · rintro p s _ ⟨rfl, -⟩
      rfl
    · rintro p s _ ⟨rfl, hnotes⟩
      refine ⟨rfl, ?_⟩
      have henter := congrArg Prod.snd (enter_silent_noted su p s {})
      rw [← hnotes] at henter
      exact henter
    · rintro p s _ ⟨rfl, hnotes⟩
      refine ⟨rfl, ?_⟩
      rw [← leave_noted, ← hnotes]
  rw [(halike.program p ⟨rfl, rfl⟩).2]
  rfl

end Check

open Check Php

/-- What does not change while rules run over a program. -/
def Check.Setup.ofProgram (p : Program) (source : String) (rules : List Rule)
    (index : ClassIndex) : Setup :=
  { source := source.toList, trivia := p.trivia, rules, index }

/-- A check is a walk, also if it has no rules. -/
theorem check_eq (p : Program) (source : String) (rules : List Rule) (index : ClassIndex) :
    check p source rules index =
      ((visitor (.ofProgram p source rules index)).program p {}).result := by
  cases rules with
  | nil => exact (result_of_no_rules (.ofProgram p source [] index) p).symm
  | cons rule rest => rfl

/-- The result of a check is that of the visits on its walk, made one after the
other on a state without notes. -/
theorem check_eq_walkVisits (p : Program) (source : String) (rules : List Rule)
    (index : ClassIndex) :
    check p source rules index =
      (({} : State).visits (.ofProgram p source rules index)
        (walkVisits (.ofProgram p source rules index) p)).result := by
  have hstart : Retold (.ofProgram p source rules index) {} ({}, []) := ⟨rfl, rfl⟩
  rw [check_eq, ((alike_retold _).program p hstart).notes]
  rfl

/-- Edits and annotations tell the same story after any visits, whatever rules and
nodes they mix. The visits on the walk of a check have the same result as the check,
and so its edits and annotations tell the story of these visits. -/
theorem edits_tell_annotations :
    (∀ (su : Setup) (vs : List Visit) (s : State), s.targets = [] → s.annotations = [] →
      ∃ nodes, SameStory su vs nodes (s.visits su vs).result) ∧
      ∀ (p : Program) (source : String) (rules : List Rule) (index : ClassIndex),
        check p source rules index =
            (({} : State).visits (.ofProgram p source rules index)
              (walkVisits (.ofProgram p source rules index) p)).result ∧
          ∃ nodes, SameStory (.ofProgram p source rules index)
            (walkVisits (.ofProgram p source rules index) p) nodes
            (check p source rules index) := by
  have hvisits : ∀ (su : Setup) (vs : List Visit) (s : State), s.targets = [] →
      s.annotations = [] → ∃ nodes, SameStory su vs nodes (s.visits su vs).result :=
    fun su vs s htargets hannotations =>
      ⟨_, (accounted_visits su vs htargets hannotations).sameStory⟩
  refine ⟨hvisits, ?_⟩
  intro p source rules index
  have hcheck := check_eq_walkVisits p source rules index
  refine ⟨hcheck, ?_⟩
  rw [hcheck]
  exact hvisits _ _ {} rfl rfl

/-- A second rule that announces a change wherever `run` may be called. -/
def otherRule : Rule where
  name := "other"
  changes := [⟨"A", "run", "y", none, none, none, true⟩]

/-- Two rules at two nodes, in turns. -/
def crossedVisits : List Visit :=
  [([sampleRule], 14), ([sampleRule, otherRule], 9), ([otherRule, sampleRule], 14)].map
    fun (rules, start) => ⟨rules, .methodCall false "run" .unresolved, start⟩

/-- A call of `run` at each of two nodes, the first one inside of another call. -/
def nestedCalls : Program where
  statements :=
    [.expression 9 (.methodCall false
        (.methodCall false (.var 9 "$f") (.name "run") []) (.name "walk") []),
      .expression 14 (.methodCall false (.var 14 "$g") (.name "run") [])]
  trivia := sampleSetup.trivia
  complete := true

theorem edits_tell_annotations_crossed :
    (({} : State).visits sampleSetup crossedVisits).result.annotations.map
        (fun a => (a.rule, a.offset)) = [("r", 14), ("r", 9), ("other", 9), ("other", 14)] ∧
      (({} : State).visits sampleSetup crossedVisits).result.edits.map
        (fun e => (e.start, e.stop, e.message)) =
          [(0, 8, "@TODO UPGRADE TASK - A::run: x\n@TODO UPGRADE TASK - A::run: y"),
            (14, 14, "@TODO UPGRADE TASK - A::run: x\n@TODO UPGRADE TASK - A::run: y")] ∧
      (∃ nodes, SameStory sampleSetup crossedVisits nodes
        (({} : State).visits sampleSetup crossedVisits).result) ∧
      (walkVisits (.ofProgram nestedCalls "/** a */\nf();\ng();" [sampleRule] {}) nestedCalls).map
        (fun v => (v.site.method, v.start)) = [("walk", 9), ("run", 9), ("run", 14)] ∧
      (check nestedCalls "/** a */\nf();\ng();" [sampleRule] {}).edits.map (·.start) = [0, 14] := by
  obtain ⟨hvisits, -⟩ := edits_tell_annotations
  exact ⟨by decide +kernel, by decide +kernel, hvisits sampleSetup crossedVisits {} rfl rfl,
    by decide +kernel, by decide +kernel⟩

end UpgradeNotes
