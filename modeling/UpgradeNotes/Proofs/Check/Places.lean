import UpgradeNotes.Proofs.Check.Stacks

/-!
# Where annotations stand

An annotation says at which offset it stands. A visit annotates at its own place only
(`mem_annotations_visits`), and every place that a check visits is where some node starts
that its walk has come to: the node that it is entering, the first statement of it, or a
statement around it (`startsAt_of_mem_visitsAt`). So it is with every annotation of a check
(`startsAt_of_mem_annotations`).
-/

namespace UpgradeNotes.Check

open Php

/-- Where a part starts, if it is a node that can be annotated. -/
def start? : Part → Option Nat
  | .stmt node => some node.start
  | .expr node => some node.start
  | .member (.method m) => some m.start
  | .anonymous _ start => some start
  | _ => none

/-- Some node that a walk through `tops` comes to starts at `n`. -/
def StartsAt (tops : List Part) (n : Nat) : Prop :=
  ∃ p path, Reached tops p path ∧ start? p = some n

/-! ## The annotations of visits -/

theorem mem_annotations_annotateWith {su : Setup} {site : Site} {start : Nat} {s : State}
    {rule : Rule} {a : Annotation} (h : a ∈ (annotateWith su site start s rule).annotations) :
    a ∈ s.annotations ∨ a.offset = start := by
  unfold annotateWith at h
  split at h
  · rcases List.mem_append.mp h with h | h
    · exact .inl h
    · obtain ⟨text, -, rfl⟩ := List.mem_map.mp h
      exact .inr rfl
  · exact .inl h

theorem mem_annotations_annotate {su : Setup} {rules : List Rule} {site : Site} {start : Nat}
    {s : State} {a : Annotation}
    (h : a ∈ (annotate { su with rules } site start s).annotations) :
    a ∈ s.annotations ∨ a.offset = start := by
  unfold annotate at h
  induction rules generalizing s with
  | nil => exact .inl h
  | cons rule rest ih =>
    rcases ih h with h | h
    · exact mem_annotations_annotateWith h
    · exact .inr h

/-- Visits annotate where they are. -/
theorem mem_annotations_visits {su : Setup} {vs : List Visit} {s : State} {a : Annotation}
    (h : a ∈ (s.visits su vs).annotations) :
    a ∈ s.annotations ∨ ∃ v ∈ vs, a.offset = v.start := by
  induction vs generalizing s with
  | nil => exact .inl h
  | cons v rest ih =>
    rcases ih h with h | ⟨w, hw, hstart⟩
    · exact (mem_annotations_annotate h).imp_right fun hstart => ⟨v, List.mem_cons_self, hstart⟩
    · exact .inr ⟨w, List.mem_cons_of_mem _ hw, hstart⟩

/-! ## The places of visits -/

variable {tops : List Part} {path : Path} {p : Part} {su : Setup} {s : State}

/-- The statements around a reached part are reached. -/
theorem startsAt_of_mem_statements (h : Reached tops p path) {node : Stmt}
    (hnode : node ∈ path.statements) : StartsAt tops node.start := by
  induction path generalizing p with
  | nil => exact absurd hnode List.not_mem_nil
  | cons q rest ih =>
    obtain ⟨q, names⟩ := q
    rw [Path.statements_cons, List.mem_append] at hnode
    rcases hnode with hnode | hnode
    · cases q with
      | stmt other =>
        obtain rfl := List.mem_singleton.mp hnode
        exact ⟨_, rest, h.2, rfl⟩
      | _ => exact absurd hnode List.not_mem_nil
    · exact ih h.2 hnode

/-- What is annotated at the innermost statement around it stands where a node starts. -/
theorem startsAt_head?_getD (h : Reached tops p path)
    (hs : s.statements = path.statements.map Stmt.start) {n : Nat} (hn : StartsAt tops n) :
    StartsAt tops (s.statements.head?.getD n) := by
  rw [hs]
  cases hpath : path.statements with
  | nil => exact hn
  | cons node rest =>
    exact startsAt_of_mem_statements h (by rw [hpath]; exact List.mem_cons_self)

theorem startsAt_of_mem_classVisits {c : ClassLike} {name : String} {n : Nat} {v : Visit}
    (hn : StartsAt tops n) (hv : v ∈ classVisits su s c name n) : StartsAt tops v.start := by
  unfold classVisits at hv
  split at hv
  · rw [List.mem_singleton.mp hv]
    exact hn
  · exact absurd hv List.not_mem_nil

theorem startsAt_of_mem_exprVisits {node : Expr} (h : Reached tops (.expr node) path)
    (hs : s.statements = path.statements.map Stmt.start) {v : Visit}
    (hv : v ∈ exprVisits su s node) : StartsAt tops v.start := by
  have hcall : ∀ site, StartsAt tops (callVisit su s site node).start :=
    fun _ => startsAt_head?_getD h hs ⟨_, path, h, rfl⟩
  unfold exprVisits at hv
  split at hv
  · rw [List.mem_singleton.mp hv]
    exact hcall _
  · split at hv
    · rw [List.mem_singleton.mp hv]
      exact hcall _
    · exact absurd hv List.not_mem_nil
  · exact absurd hv List.not_mem_nil

theorem startsAt_of_mem_methodVisits {m : Method} (h : Reached tops (.member (.method m)) path)
    {v : Visit} (hv : v ∈ methodVisits su s m) : StartsAt tops v.start := by
  have hmethod : StartsAt tops m.start := ⟨_, path, h, rfl⟩
  unfold methodVisits at hv
  split at hv
  · exact absurd hv List.not_mem_nil
  · obtain ⟨rule, -, rfl⟩ := List.mem_map.mp hv
    dsimp only
    split
    · exact hmethod
    · -- the first statement of the body, if there is one
      cases hfirst : m.body.bind (·.head?) with
      | none => exact hmethod
      | some first =>
        obtain ⟨body, hbody, hhead⟩ := Option.bind_eq_some_iff.mp hfirst
        have hmem : .stmt first ∈ Part.walked (.member (.method m)) := by
          show Part.stmt first ∈ ofStmts (m.body.getD [])
          rw [hbody]
          exact List.mem_map_of_mem (List.mem_of_mem_head? hhead)
        exact ⟨.stmt first, (.member (.method m), {}) :: path, ⟨hmem, h⟩, rfl⟩

/-- Every place visited on the way into a part is where some node starts. -/
theorem startsAt_of_mem_visitsAt (h : Reached tops p path)
    (hs : s.statements = path.statements.map Stmt.start) {v : Visit}
    (hv : v ∈ visitsAt su s p) : StartsAt tops v.start := by
  cases p with
  | stmt node =>
    cases node with
    | classLike start c =>
      cases hk : c.kind with
      | ordinary =>
        simp only [visitsAt, hk] at hv
        exact startsAt_of_mem_classVisits ⟨_, path, h, rfl⟩ hv
      | _ =>
        simp only [visitsAt, hk] at hv
        exact absurd hv List.not_mem_nil
    | _ => exact absurd hv List.not_mem_nil
  | expr node => exact startsAt_of_mem_exprVisits h hs hv
  | member node =>
    cases node with
    | method m => exact startsAt_of_mem_methodVisits h hv
    | _ => exact absurd hv List.not_mem_nil
  | anonymous c start =>
    exact startsAt_of_mem_classVisits (startsAt_head?_getD h hs ⟨_, path, h, rfl⟩) hv
  | _ => exact absurd hv List.not_mem_nil

/-! ## The annotations of a check -/

/-- A state at the end of a path, with annotations where nodes start. -/
structure Placed (tops : List Part) (path : Path) (s : State) : Prop where
  context : ∃ names, s.context = path.context names
  places : ∀ a ∈ s.annotations, StartsAt tops a.offset

theorem Placed.statements (h : Placed tops path s) :
    s.statements = path.statements.map Stmt.start := by
  obtain ⟨names, hcontext⟩ := h.context
  exact congrArg Context.statements hcontext

theorem Placed.scopes_pos (h : Placed tops path s) : 0 < s.context.scopes := by
  obtain ⟨names, hcontext⟩ := h.context
  rw [hcontext]
  exact Nat.add_pos_left Nat.one_pos _

theorem Placed.enter (su : Setup) (h : Placed tops path s) (hp : Reached tops p path) :
    Placed tops ((p, s.names) :: path) ((visitor su).enter p s).2 := by
  obtain ⟨names, hcontext⟩ := h.context
  have hnames : s.names = names := congrArg Context.names hcontext
  constructor
  · refine ⟨namesInside s.names p, ?_⟩
    rw [context_enter su p h.scopes_pos, context_cons, hcontext, hnames]
  · intro a ha
    rw [enter_eq_noted] at ha
    rcases mem_annotations_visits ha with ha | ⟨v, hv, hstart⟩
    · exact h.places a ha
    · rw [hstart]
      exact startsAt_of_mem_visitsAt hp h.statements hv

theorem Placed.leave (su : Setup) {entered : NameContext}
    (h : Placed tops ((p, entered) :: path) s) : Placed tops path ((visitor su).leave p s) := by
  obtain ⟨names, hcontext⟩ := h.context
  constructor
  · refine ⟨namesBehind names p, ?_⟩
    rw [context_leave su p h.scopes_pos, hcontext, pop_context_cons]
  · intro a ha
    rw [← s.noted_self, leave_noted] at ha
    exact h.places a ha

theorem Placed.parts {ps : List Part}
    (hps : ∀ p ∈ ps, ∀ s, Placed tops path s → Placed tops path ((visitor su).part p s))
    (h : Placed tops path s) : Placed tops path ((visitor su).parts ps s) := by
  induction ps generalizing s with
  | nil => exact h
  | cons p rest ih =>
    rw [Visitor.parts_cons]
    exact ih (fun q hq => hps q (List.mem_cons_of_mem _ hq)) (hps p List.mem_cons_self s h)

theorem Placed.part (su : Setup) (h : Placed tops path s) (hp : Reached tops p path) :
    Placed tops path ((visitor su).part p s) := by
  induction p using Part.inner_induction generalizing path s with
  | h p ih =>
    rw [(descends_visitor su).part_eq]
    refine Placed.leave su (Placed.parts ?_ (h.enter su hp))
    intro q hq s' h'
    exact ih q (List.mem_append_left _ hq) h' ⟨hq, hp⟩

end UpgradeNotes.Check

namespace UpgradeNotes

open Check Php

/-- Every annotation of a check stands where some node of the program starts. -/
theorem startsAt_of_mem_annotations {p : Program} {source : String} {rules : List Rule}
    {index : ClassIndex} {a : Annotation} (h : a ∈ (check p source rules index).annotations) :
    StartsAt (ofStmts p.statements) a.offset := by
  unfold check at h
  split at h
  · exact absurd h List.not_mem_nil
  · have hstart : Placed (ofStmts p.statements) [] ({} : State) := ⟨⟨{}, rfl⟩, by simp⟩
    dsimp only at h
    rw [Visitor.program_eq] at h
    exact (hstart.parts fun q hq s hs => hs.part _ hq).places a h

end UpgradeNotes
