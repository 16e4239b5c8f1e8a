import UpgradeNotes.Proofs.Php.Trace

/-!
# Which calls a walk meets

The method calls and static calls of a tree are those that a walk meets and
those that it misses. A visitor that always goes inside is shown every call that
is met, once for each time that it stands in the tree, and no other
(`calls_entered_once_iff`). A call is missed if it stands anywhere inside an
unwalked part; so all calls are shown exactly once iff the unwalked parts of the
tree hold no calls.
-/

namespace UpgradeNotes.Php

/-- A call of a method, nullsafe or not, or of a static method. -/
def Expr.isCall : Expr → Bool
  | .methodCall .. | .staticCall .. => true
  | _ => false

namespace Part

/-- The part itself, if it is a call. -/
def ownCall : Part → List Expr
  | expr node => if node.isCall then [node] else []
  | _ => []

/-- All calls in a part, as often as they stand there. -/
def calls (p : Part) : List Expr :=
  p.ownCall ++ p.inner.attach.flatMap fun q => calls q.1
termination_by sizeOf p
decreasing_by exact below_inner p q.1 q.2

/-- The calls that a walk through a part meets, in its order. -/
def met (p : Part) : List Expr :=
  p.ownCall ++ p.walked.attach.flatMap fun q => met q.1
termination_by sizeOf p
decreasing_by exact below_inner p q.1 (List.mem_append_left _ q.2)

/-- The calls that a walk through a part misses: all calls in the unwalked parts
of what it walks through. -/
def missed (p : Part) : List Expr :=
  (p.walked.attach.flatMap fun q => missed q.1) ++ p.unwalked.flatMap calls
termination_by sizeOf p
decreasing_by exact below_inner p q.1 (List.mem_append_left _ q.2)

theorem calls_eq (p : Part) : p.calls = p.ownCall ++ p.inner.flatMap calls := by
  rw [calls, List.flatMap_subtype fun _ _ => rfl, List.unattach_attach]

theorem met_eq (p : Part) : p.met = p.ownCall ++ p.walked.flatMap met := by
  rw [met, List.flatMap_subtype fun _ _ => rfl, List.unattach_attach]

theorem missed_eq (p : Part) :
    p.missed = p.walked.flatMap missed ++ p.unwalked.flatMap calls := by
  rw [missed, List.flatMap_subtype fun _ _ => rfl, List.unattach_attach]

/-- If the calls of some parts are met or missed, so are those of all of them
together. -/
theorem perm_flatMap_calls {ps : List Part} (h : ∀ p ∈ ps, (p.met ++ p.missed).Perm p.calls) :
    (ps.flatMap met ++ ps.flatMap missed).Perm (ps.flatMap calls) := by
  induction ps with
  | nil => exact List.Perm.refl _
  | cons p rest ih =>
    have hp := h p List.mem_cons_self
    have hrest := ih fun q hq => h q (List.mem_cons_of_mem _ hq)
    simp only [List.flatMap_cons]
    have hswap : (p.met ++ rest.flatMap met ++ (p.missed ++ rest.flatMap missed)).Perm
        (p.met ++ p.missed ++ (rest.flatMap met ++ rest.flatMap missed)) := by
      simp only [List.append_assoc]
      exact (List.perm_append_comm_assoc _ _ _).append_left _
    exact hswap.trans (hp.append hrest)

/-- Every call of a part is met or missed, and never both. -/
theorem met_append_missed (p : Part) : (p.met ++ p.missed).Perm p.calls := by
  induction p using inner_induction with
  | h p ih =>
    have hwalked := perm_flatMap_calls fun q hq => ih q (List.mem_append_left _ hq)
    rw [met_eq, missed_eq, calls_eq, inner, List.flatMap_append]
    -- the own call is met, all in unwalked parts is missed; what is left is walked
    simp only [List.append_assoc]
    refine List.Perm.append_left _ ?_
    rw [← List.append_assoc]
    exact hwalked.append_right _

end Part

namespace Visitor

variable {σ : Type} {v : Visitor σ}

/-- All hooks for the way in say to go on inside. -/
structure Descends (v : Visitor σ) : Prop where
  stmt : ∀ node s, (v.enterStmt node s).1 = true
  expr : ∀ node s, (v.enterExpr node s).1 = true
  method : ∀ m s, (v.enterMethod m s).1 = true
  anonymous : ∀ c start s, (v.enterAnonymous c start s).1 = true

theorem Descends.enter (h : Descends v) (p : Part) (s : σ) : (v.enter p s).1 = true := by
  cases p with
  | stmt node => exact h.stmt node s
  | expr node => exact h.expr node s
  | member node =>
    cases node with
    | method m => exact h.method m s
    | _ => rfl
  | anonymous c start => exact h.anonymous c start s
  | parameter node => rfl
  | hook node => rfl

/-- What a walk that always goes inside does at a part. -/
theorem Descends.part_eq (h : Descends v) (p : Part) (s : σ) :
    v.part p s = v.leave p (v.parts p.walked (v.enter p s).2) := by
  rw [Visitor.part_eq, if_pos (h.enter p s)]

end Visitor

/-- The call that a hook is shown on the way in. -/
def Event.call? : Event → Option Expr
  | .enter (.expr node) _ => if node.isCall then some node else none
  | _ => none

/-- The calls that hooks were shown on the way in. -/
def enteredCalls (log : List Event) : List Expr :=
  log.filterMap Event.call?

theorem enteredCalls_append (log more : List Event) :
    enteredCalls (log ++ more) = enteredCalls log ++ enteredCalls more :=
  List.filterMap_append

theorem enteredCalls_entering (p : Part) (inside : Bool) :
    enteredCalls (p.entering inside) = p.ownCall := by
  cases p with
  | expr node =>
    cases h : node.isCall <;>
      simp [enteredCalls, Part.entering, Part.hooked, Part.ownCall, Event.call?, h]
  | member node => cases node <;> rfl
  | _ => rfl

theorem enteredCalls_leaving (p : Part) : enteredCalls p.leaving = [] := by
  cases p with
  | member node => cases node <;> rfl
  | _ => rfl

namespace Visitor

variable {σ : Type} {v : Visitor σ}

/-- If a walk through some parts logs what is met in them, so does the walk
through all of them. -/
theorem enteredCalls_parts {ps : List Part}
    (h : ∀ p ∈ ps, ∀ s, enteredCalls (v.traced.part p s).2 = enteredCalls s.2 ++ p.met)
    (s : σ × List Event) :
    enteredCalls (v.traced.parts ps s).2 = enteredCalls s.2 ++ ps.flatMap Part.met := by
  induction ps generalizing s with
  | nil => exact (List.append_nil _).symm
  | cons p rest ih =>
    rw [parts_cons, ih fun q hq => h q (List.mem_cons_of_mem _ hq), h p List.mem_cons_self,
      List.flatMap_cons, List.append_assoc]

/-- A visitor that always goes inside is shown the calls that are met, in their
order. -/
theorem enteredCalls_part (hv : Descends v) (p : Part) (s : σ × List Event) :
    enteredCalls (v.traced.part p s).2 = enteredCalls s.2 ++ p.met := by
  induction p using Part.inner_induction generalizing s with
  | h p ih =>
    have hwalked := enteredCalls_parts fun q hq => ih q (List.mem_append_left _ hq)
    rw [part_eq, enter_traced, leave_traced]
    simp only [hv.enter, if_true]
    rw [enteredCalls_append, enteredCalls_leaving, List.append_nil, hwalked, enteredCalls_append,
      enteredCalls_entering, Part.met_eq, List.append_assoc]

end Visitor

/-- All calls of a program outside of `<?= ... ?>`. -/
def Program.calls (p : Program) : List Expr :=
  (ofStmts p.statements).flatMap Part.calls

/-- The calls of a program in unwalked parts. -/
def Program.missed (p : Program) : List Expr :=
  (ofStmts p.statements).flatMap Part.missed

/-- A visitor that always goes inside is shown, with what is missed, all calls of
a program, each as often as it stands there. So it is shown every call exactly
once iff no call stands in an unwalked part. -/
theorem calls_entered_once_iff {σ : Type} {v : Visitor σ} (hv : v.Descends) (p : Program) (s : σ) :
    (v.traced.program p (s, [])).1 = v.program p s ∧
      (enteredCalls (v.traced.program p (s, [])).2 ++ p.missed).Perm p.calls ∧
      ((enteredCalls (v.traced.program p (s, [])).2).Perm p.calls ↔ p.missed = []) := by
  have hmet : enteredCalls (v.traced.program p (s, [])).2 =
      (ofStmts p.statements).flatMap Part.met := by
    rw [Visitor.program_eq, Visitor.enteredCalls_parts fun q _ => Visitor.enteredCalls_part hv q]
    rfl
  have hall : (enteredCalls (v.traced.program p (s, [])).2 ++ p.missed).Perm p.calls := by
    rw [hmet]
    exact Part.perm_flatMap_calls fun q _ => q.met_append_missed
  refine ⟨v.fst_traced_program p (s, []), hall, ?_⟩
  constructor
  · -- nothing is left over for the missed calls
    intro honce
    have hlen := hall.length_eq
    rw [List.length_append, honce.length_eq] at hlen
    exact List.length_eq_zero_iff.mp (by omega)
  · intro hnone
    rwa [hnone, List.append_nil] at hall

/-- The call `$t->run(A::b())` as the element of an array of some form. -/
def sampleProgram (form : ArrayForm) : Program where
  statements :=
    [.expression 6 (.array 6 form
      [⟨[], .methodCall false (.var 12 "$t") (.name "run")
        [.staticCall (.name 20 "A") (.name "b") []]⟩])]
  trivia := []
  complete := true

theorem length_calls_sampleProgram (form : ArrayForm) : (sampleProgram form).calls.length = 2 := by
  cases form <;>
    simp [Program.calls, sampleProgram, ofStmts, ofExprs, ofEntries, ofSelector, Part.calls_eq,
      Part.inner, Part.walked, Part.unwalked, Stmt.walked, Stmt.unwalked, Expr.walked,
      Expr.unwalked, Part.ownCall, Expr.isCall]

theorem calls_entered_once_sample :
    (sampleProgram .short).calls.length = 2 ∧
      (enteredCalls (({} : Visitor Unit).traced.program (sampleProgram .short) ((), [])).2).Perm
        (sampleProgram .short).calls := by
  have hv : Visitor.Descends ({} : Visitor Unit) :=
    ⟨fun _ _ => rfl, fun _ _ => rfl, fun _ _ => rfl, fun _ _ _ => rfl⟩
  refine ⟨length_calls_sampleProgram .short,
    (calls_entered_once_iff hv (sampleProgram .short) ()).2.2.mpr ?_⟩
  simp [Program.missed, sampleProgram, ofStmts, ofExprs, ofEntries, ofSelector, Part.missed_eq,
    Part.walked, Part.unwalked, Stmt.walked, Stmt.unwalked, Expr.walked, Expr.unwalked]

/-- In `array(...)` both calls are missed. -/
theorem not_calls_entered_once :
    ¬ (enteredCalls (({} : Visitor Unit).traced.program (sampleProgram .long) ((), [])).2).Perm
      (sampleProgram .long).calls := by
  intro h
  have hentered : enteredCalls
      (({} : Visitor Unit).traced.program (sampleProgram .long) ((), [])).2 = [] := by
    decide +kernel
  have hlen := h.length_eq
  rw [hentered, length_calls_sampleProgram] at hlen
  exact absurd hlen (by decide)

end UpgradeNotes.Php
