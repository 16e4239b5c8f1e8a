import UpgradeNotes.Proofs.Edit.Apart
import UpgradeNotes.Proofs.Pending

/-!
# The edits of a check always apply

A check keeps the documentation of the nodes it annotates in source order
(`Gathered`). An edit replaces a docblock that stands in front of its node, or
inserts one there, and a docblock found backwards from a node stands behind
every earlier node: the run of trivia in front of a node never reaches across a
byte that is neither blank nor in a comment. So the edits of a check stand
apart, and applying them cannot fail for their order or their bounds
(`edits_apart`).
-/

namespace UpgradeNotes.Check

open Php Text

/-- A node: a byte other than a blank that is outside of all trivia. -/
structure IsNode (su : Setup) (n : Nat) : Prop where
  ink : NonblankAt su.source n
  outside : Outside su.trivia n

/-- Trivia that start before they end and end within the source. Nothing else is
needed of them, not even their order. -/
structure Bounded (su : Setup) : Prop where
  forward : ∀ t ∈ su.trivia, t.start ≤ t.stop
  inside : ∀ t ∈ su.trivia, t.stop ≤ byteLen su.source

/-- What holds of the documentation that a check has gathered: it is ordered by
the nodes, and each docblock stands where it was found. -/
structure Gathered (su : Setup) (targets : List Pending) : Prop where
  ascending : targets.Pairwise fun p q => p.start < q.start
  nodes : ∀ p ∈ targets, IsNode su p.start
  spans : ∀ p ∈ targets, p.span = (Pending.new su.trivia su.source p.start).span

/-! ## One call -/

theorem mem_of_find? {start : Nat} {targets : List Pending} {p : Pending}
    (h : find? start targets = some p) : p ∈ targets ∧ p.start = start := by
  induction targets with
  | nil => exact absurd h (by simp [find?])
  | cons q rest ih =>
    simp only [find?] at h
    split at h
    · rename_i hq
      obtain rfl := Option.some.inj h
      exact ⟨List.mem_cons_self, hq⟩
    · exact ⟨List.mem_cons_of_mem _ (ih h).1, (ih h).2⟩

/-- An update brings in what was written and nothing else. -/
theorem mem_update {start : Nat} {fresh after p : Pending} {targets : List Pending}
    (h : p ∈ update start fresh (fun _ => after) targets) : p = after ∨ p ∈ targets := by
  induction targets with
  | nil => exact .inl (List.mem_singleton.mp h)
  | cons q rest ih =>
    simp only [update] at h
    split at h
    · rcases List.mem_cons.mp h with rfl | h
      · exact .inl rfl
      · exact .inr (List.mem_cons_of_mem _ h)
    · split at h
      · rcases List.mem_cons.mp h with rfl | h
        · exact .inl rfl
        · exact .inr h
      · rcases List.mem_cons.mp h with rfl | h
        · exact .inr List.mem_cons_self
        · exact (ih h).imp_right (List.mem_cons_of_mem _)

/-- An update keeps the order. -/
theorem pairwise_update {start : Nat} {fresh after : Pending} {targets : List Pending}
    (hafter : after.start = start) (h : targets.Pairwise fun p q => p.start < q.start) :
    (update start fresh (fun _ => after) targets).Pairwise fun p q => p.start < q.start := by
  induction targets with
  | nil => exact List.pairwise_singleton _ _
  | cons p rest ih =>
    rw [List.pairwise_cons] at h
    simp only [update]
    split
    · rename_i hp
      rw [List.pairwise_cons]
      refine ⟨?_, h.2⟩
      intro q hq
      have hlt := h.1 q hq
      omega
    · split
      · rename_i hlt
        rw [List.pairwise_cons]
        refine ⟨?_, List.pairwise_cons.mpr h⟩
        intro q hq
        rcases List.mem_cons.mp hq with rfl | hq
        · omega
        · have hlt' := h.1 q hq
          omega
      · rename_i hne hnlt
        rw [List.pairwise_cons]
        refine ⟨?_, ih h.2⟩
        intro q hq
        rcases mem_update hq with rfl | hq
        · omega
        · exact h.1 q hq

/-- Putting back the documentation of a node, wherever it was read, keeps all in
order. -/
theorem Gathered.update {su : Setup} {targets : List Pending} (h : Gathered su targets)
    {start : Nat} {fresh after : Pending} (hafter : after.start = start) (hnode : IsNode su start)
    (hspan : after.span = (Pending.new su.trivia su.source start).span) :
    Gathered su (update start fresh (fun _ => after) targets) := by
  subst hafter
  refine ⟨pairwise_update rfl h.ascending, ?_, ?_⟩
  · intro p hp
    rcases mem_update hp with rfl | hp
    · exact hnode
    · exact h.nodes p hp
  · intro p hp
    rcases mem_update hp with rfl | hp
    · exact hspan
    · exact h.spans p hp

/-- The documentation that a rule writes on is that of its node. -/
theorem Gathered.found {su : Setup} {targets : List Pending} (h : Gathered su targets)
    (start : Nat) :
    ((find? start targets).getD (Pending.new su.trivia su.source start)).start = start ∧
      ((find? start targets).getD (Pending.new su.trivia su.source start)).span =
        (Pending.new su.trivia su.source start).span := by
  cases hf : find? start targets with
  | none => exact ⟨rfl, rfl⟩
  | some p =>
    obtain ⟨hmem, rfl⟩ := mem_of_find? hf
    exact ⟨rfl, h.spans p hmem⟩

/-- What one rule does to the gathered documentation: nothing, or it writes on
the documentation of the node. -/
theorem targets_annotateWith (su : Setup) (site : Site) (start : Nat) (s : State) (rule : Rule) :
    (annotateWith su site start s rule).targets = s.targets ∨
      (annotateWith su site start s rule).targets =
        update start (Pending.new su.trivia su.source start)
          (fun _ => (((find? start s.targets).getD (Pending.new su.trivia su.source start)).announce
            rule su.index.hierarchy site).1) s.targets := by
  unfold annotateWith
  split
  · exact .inr rfl
  · exact .inl rfl

/-- A rule at a node leaves the gathered documentation in order. -/
theorem Gathered.annotateWith {su : Setup} {s : State} (h : Gathered su s.targets) {start : Nat}
    (hnode : IsNode su start) (site : Site) (rule : Rule) :
    Gathered su (annotateWith su site start s rule).targets := by
  rcases targets_annotateWith su site start s rule with heq | heq
  · rw [heq]
    exact h
  · rw [heq]
    -- a rule writes on the documentation and leaves it in its place
    obtain ⟨hstart, hspan⟩ := h.found start
    exact h.update hstart hnode hspan

/-! ## Runs of calls -/

/-- Some rules at work on a node, for a site. -/
structure Visit where
  rules : List Rule
  site : Site
  start : Nat

/-- The state after a visit. -/
def State.visit (su : Setup) (s : State) (v : Visit) : State :=
  annotate { su with rules := v.rules } v.site v.start s

/-- The state after some visits. -/
def State.visits (su : Setup) (s : State) (vs : List Visit) : State :=
  vs.foldl (State.visit su) s

theorem Gathered.annotate {su : Setup} {start : Nat} (hnode : IsNode su start) (site : Site)
    {rules : List Rule} {s : State} (h : Gathered su s.targets) :
    Gathered su (annotate { su with rules } site start s).targets := by
  unfold Check.annotate
  induction rules generalizing s with
  | nil => exact h
  | cons rule rest ih => exact ih (h.annotateWith hnode site rule)

theorem Gathered.visits {su : Setup} {vs : List Visit} (hvs : ∀ v ∈ vs, IsNode su v.start)
    {s : State} (h : Gathered su s.targets) : Gathered su (s.visits su vs).targets := by
  induction vs generalizing s with
  | nil => exact h
  | cons v rest ih =>
    exact ih (fun w hw => hvs w (List.mem_cons_of_mem _ hw))
      (h.annotate (hvs v List.mem_cons_self) v.site)

/-! ## Where the edits stand -/

/-- The docblock of a node stands between every earlier node and the node. -/
theorem doc_between {su : Setup} (hb : Bounded su) {n : Nat} (hn : IsNode su n) {t : Trivia}
    (ht : t ∈ runAt su.trivia su.source n) :
    t.stop ≤ n ∧ ∀ m, IsNode su m → m < n → m < t.start := by
  obtain ⟨hmem, hlt⟩ := mem_of_mem_runAt ht
  constructor
  · rcases hn.outside t hmem with h | h <;> omega
  · intro m hm hmn
    rcases hm.outside t hmem with hstop | hstart
    · -- the run would reach across the earlier node
      have hsize := hn.ink.lt
      have hstarts : ∀ u ∈ inFront su.trivia n, u.start ≤ byteLen su.source := by
        intro u hu
        have hu := (mem_inFront.mp hu).1
        exact Nat.le_trans (hb.forward u hu) (hb.inside u hu)
      obtain ⟨u, hu, hustart, hustop⟩ :=
        exists_around_of_mem_glued ht (Nat.le_of_lt hsize) hstarts hstop hmn hm.ink
      rcases hm.outside u (mem_inFront.mp hu).1 with h | h <;> omega
    · exact hstart

/-- An edit replaces the docblock that was read, or inserts one at the node. -/
theorem edit?_place {p : Pending} {e : Edit} (h : p.edit? = some e) :
    (p.span = none ∧ e.start = p.start ∧ e.stop = p.start) ∨ p.span = some (e.start, e.stop) := by
  cases hdoc : p.target.doc with
  | none => exact absurd h (by simp [Pending.edit?, hdoc])
  | some doc =>
    by_cases hadded : p.added = []
    · rw [Pending.edit?_of_added_nil hadded] at h
      exact absurd h (by simp)
    · cases hspan : p.span with
      | none =>
        rw [Pending.edit?_of_no_span hdoc hadded hspan] at h
        obtain rfl := Option.some.inj h
        exact .inl ⟨rfl, rfl, rfl⟩
      | some span =>
        rw [Pending.edit?_of_span hdoc hadded hspan] at h
        obtain rfl := Option.some.inj h
        exact .inr rfl

/-- The edit of a node stands in front of the node and behind every earlier
one. -/
theorem Gathered.edit_between {su : Setup} (hb : Bounded su) {targets : List Pending}
    (h : Gathered su targets) {p : Pending} (hp : p ∈ targets) {e : Edit}
    (he : p.edit? = some e) :
    e.start ≤ e.stop ∧ e.stop ≤ p.start ∧ ∀ m, IsNode su m → m < p.start → m < e.start := by
  rcases edit?_place he with ⟨_, hstart, hstop⟩ | hspan
  · refine ⟨by omega, by omega, ?_⟩
    intro m _ hm
    omega
  · rw [h.spans p hp, Pending.new_span, Option.map_eq_some_iff] at hspan
    obtain ⟨t, ht, heq⟩ := hspan
    obtain ⟨hstart, hstop⟩ := Prod.mk.inj heq
    have hrun := List.mem_of_find?_eq_some ht
    obtain ⟨hle, hearlier⟩ := doc_between hb (h.nodes p hp) hrun
    have hforward := hb.forward t (mem_of_mem_runAt hrun).1
    rw [← hstart, ← hstop]
    exact ⟨hforward, hle, hearlier⟩

/-- Edits of gathered documentation are in order, in bounds and apart. -/
theorem Gathered.edits {su : Setup} (hb : Bounded su) {targets : List Pending}
    (h : Gathered su targets) :
    Edit.Apart (targets.filterMap Pending.edit?) (byteLen su.source) ∧
      (targets.filterMap Pending.edit?).Pairwise fun a b => a.start < b.start := by
  -- an edit ends at its node, and the next one starts behind that node
  have hpair : targets.Pairwise fun p q => ∀ a, p.edit? = some a → ∀ b, q.edit? = some b →
      a.stop ≤ b.start ∧ a.start < b.start := by
    refine h.ascending.imp_of_mem ?_
    intro p q hp hq hlt a ha b hb'
    obtain ⟨hforward, hfront, _⟩ := h.edit_between hb hp ha
    obtain ⟨_, _, hbehind⟩ := h.edit_between hb hq hb'
    have hpb := hbehind p.start (h.nodes p hp) hlt
    omega
  have hmem : ∀ e ∈ targets.filterMap Pending.edit?,
      e.start ≤ e.stop ∧ e.stop ≤ byteLen su.source := by
    intro e he
    obtain ⟨p, hp, hpe⟩ := List.mem_filterMap.mp he
    obtain ⟨hforward, hfront, _⟩ := h.edit_between hb hp hpe
    have hlt := (h.nodes p hp).ink.lt
    omega
  rw [List.pairwise_filterMap]
  refine ⟨⟨fun e he => (hmem e he).1, fun e he => (hmem e he).2, ?_⟩, ?_⟩
  · rw [List.pairwise_filterMap]
    exact hpair.imp fun hpq a ha b hb' => (hpq a ha b hb').1
  · exact hpair.imp fun hpq a ha b hb' => (hpq a ha b hb').2

/-- The edits of a check, after any visits to nodes, are in bounds, in ascending
order and apart. So applying them never fails for an overlap or for an edit out
of bounds, only where an offset is inside a character. -/
theorem edits_apart {su : Setup} (hb : Bounded su) {vs : List Visit}
    (hvs : ∀ v ∈ vs, IsNode su v.start) {s : State} (hs : s.targets = []) :
    Edit.Apart (s.visits su vs).result.edits (byteLen su.source) ∧
      ((s.visits su vs).result.edits.Pairwise fun a b => a.start < b.start) ∧
      ∀ source fault, source.toList = su.source →
        Edit.applyAll source (s.visits su vs).result.edits = .error fault →
          fault = .insideCharacter := by
  have hstart : Gathered su s.targets := by
    rw [hs]
    exact ⟨List.Pairwise.nil, by simp, by simp⟩
  obtain ⟨hapart, hascending⟩ := (hstart.visits hvs).edits hb
  refine ⟨hapart, hascending, ?_⟩
  intro source fault hsource hfault
  rw [← hsource] at hapart
  exact hapart.eq_insideCharacter hfault

/-- A node with a docblock at offset 9 and one without at offset 14. -/
def sampleSetup : Setup where
  source := "/** a */\nf();\ng();".toList
  trivia := [⟨.doc, 0, 8, "/** a */"⟩, ⟨.blanks, 8, 9, "\n"⟩, ⟨.blanks, 13, 14, "\n"⟩]
  rules := []
  index := {}

/-- The later node is visited first. -/
def sampleVisits : List Visit :=
  [14, 9, 14].map fun start => ⟨[sampleRule], .methodCall false "run" .unresolved, start⟩

theorem edits_apart_sample :
    (({} : State).visits sampleSetup sampleVisits).result.edits.map (fun e => (e.start, e.stop)) =
        [(0, 8), (14, 14)] ∧
      Edit.Apart (({} : State).visits sampleSetup sampleVisits).result.edits 18 := by
  have hb : Bounded sampleSetup := ⟨by decide, by decide⟩
  have h9 : IsNode sampleSetup 9 :=
    ⟨⟨"/** a */\n".toList, 'f', "();\ng();".toList, by decide⟩, by decide⟩
  have h14 : IsNode sampleSetup 14 :=
    ⟨⟨"/** a */\nf();\n".toList, 'g', "();".toList, by decide⟩, by decide⟩
  have hvs : ∀ v ∈ sampleVisits, IsNode sampleSetup v.start := by
    simpa [sampleVisits] using ⟨h14, h9, h14⟩
  exact ⟨by decide +kernel, (edits_apart hb hvs rfl).1⟩

end UpgradeNotes.Check
