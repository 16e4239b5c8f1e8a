import Mathlib.Data.List.Forall2
import UpgradeNotes.Proofs.Check.Visits
import UpgradeNotes.Proofs.Php.Calls

/-!
# The stacks of a check are the path to the node

A check keeps the statements, classes and functions around a point on stacks that
its hooks push and pop. Here a point is given by its path, the parts of the tree
around it, and each stack is read off the path (`Path.context`). One hook moves
both in step (`context_enter`, `context_leave`); so along a whole walk each hook
is called with the stacks of the path to its node (`hooks_called_on_path`).
-/

namespace UpgradeNotes.Check

open Php

/-! ## Paths -/

/-- The parts around a point, innermost first, each with the names that were in
force in front of it. -/
abbrev Path := List (Part × NameContext)

/-- Whether a part stands right inside the innermost part of a path, this one
right inside the next, and so on up to one of `tops`. -/
def Reached (tops : List Part) (p : Part) : Path → Prop
  | [] => p ∈ tops
  | (q, _) :: rest => p ∈ q.walked ∧ Reached tops q rest

/-- The statement that a part is. -/
@[simp] def statement? : Part → Option Stmt
  | .stmt node => some node
  | _ => none

/-- The class that the members right inside a part are of. An anonymous class
stands in for its parent, and only a class proper has one. -/
@[simp] def class? : Part × NameContext → Option ClassContext
  | (.stmt (.classLike _ c), names) =>
    some ⟨names.declare c.name,
      match c.kind with
      | .ordinary => c.parents.head?.map names.resolve
      | _ => none⟩
  | (.anonymous c _, names) =>
    let parent := c.parents.head?.map names.resolve
    some ⟨parent.getD Surroundings.anonymousName, parent⟩
  | _ => none

/-- Whether a part is a function, method, closure or arrow function. -/
@[simp] def isFunction : Part → Bool
  | .stmt (.function _ _) | .member (.method _) => true
  | .expr (.closure _ _ _) | .expr (.arrowFunction _ _ _ _) => true
  | _ => false

/-- What a check keeps on its stacks, less what the variables are bound to. -/
structure Context where
  names : NameContext
  statements : List Nat
  pinned : Nat
  classes : List ClassContext
  scopes : Nat

def State.context (s : State) : Context where
  names := s.names
  statements := s.statements
  pinned := s.pinned.length
  classes := s.classes
  scopes := s.scopes.length

namespace Path

/-- The statements around a point, innermost first. -/
def statements (path : Path) : List Stmt :=
  path.filterMap fun q => statement? q.1

/-- The classes whose members are around a point, innermost first. -/
def classes (path : Path) : List ClassContext :=
  path.filterMap class?

/-- How many functions are around a point. -/
def functions (path : Path) : Nat :=
  path.countP fun q => isFunction q.1

theorem statements_cons (p : Part) (names : NameContext) (path : Path) :
    statements ((p, names) :: path) = (statement? p).toList ++ path.statements := by
  unfold statements
  rw [List.filterMap_cons]
  cases statement? p <;> rfl

theorem classes_cons (q : Part × NameContext) (path : Path) :
    classes (q :: path) = (class? q).toList ++ path.classes := by
  unfold classes
  rw [List.filterMap_cons]
  cases class? q <;> rfl

theorem functions_cons (p : Part) (names : NameContext) (path : Path) :
    functions ((p, names) :: path) = path.functions + (isFunction p).toNat := by
  unfold functions
  rw [List.countP_cons]
  cases isFunction p <;> rfl

/-- What a check should keep on its stacks at the end of a path. -/
def context (path : Path) (names : NameContext) : Context where
  names
  statements := path.statements.map Stmt.start
  pinned := path.statements.length
  classes := path.classes
  scopes := 1 + path.functions

end Path

/-- The names in force inside a part. -/
def namesInside (names : NameContext) : Part → NameContext
  | .stmt (.namespaceBlock _ name _ _) => .enter name
  | .stmt (.importNames _ group items) => names.addUses group items
  | _ => names

/-- The names in force behind a part, from those at its end. -/
@[simp] def namesBehind (names : NameContext) : Part → NameContext
  | .stmt (.namespaceBlock _ _ true _) => .enter none
  | _ => names

/-! ## One hook -/

/-- The context with what a part adds to it. -/
def Context.push (c : Context) (p : Part) : Context where
  names := namesInside c.names p
  statements := ((statement? p).map Stmt.start).toList ++ c.statements
  pinned := c.pinned + (statement? p).toList.length
  classes := (class? (p, c.names)).toList ++ c.classes
  scopes := c.scopes + (isFunction p).toNat

/-- The context without what a part added to it. -/
def Context.pop (c : Context) (p : Part) : Context where
  names := namesBehind c.names p
  statements := c.statements.drop (statement? p).toList.length
  pinned := c.pinned - (statement? p).toList.length
  classes := c.classes.drop (class? (p, c.names)).toList.length
  scopes := c.scopes - (isFunction p).toNat

theorem context_cons (p : Part) (path : Path) (names : NameContext) :
    Path.context ((p, names) :: path) (namesInside names p) = (path.context names).push p := by
  unfold Path.context Context.push
  rw [Path.statements_cons, Path.classes_cons, Path.functions_cons]
  cases p <;> simp [statement?, Nat.add_assoc]

theorem length_class? (p : Part) (names other : NameContext) :
    (class? (p, names)).toList.length = (class? (p, other)).toList.length := by
  cases p with
  | stmt node => cases node <;> rfl
  | _ => rfl

theorem pop_context_cons (p : Part) (path : Path) (entered names : NameContext) :
    (Path.context ((p, entered) :: path) names).pop p = path.context (namesBehind names p) := by
  unfold Path.context Context.pop
  rw [Path.statements_cons, Path.classes_cons, Path.functions_cons, Context.mk.injEq]
  refine ⟨rfl, ?_, ?_, ?_, ?_⟩
  · rw [List.map_append, List.drop_left' (List.length_map _)]
  · rw [List.length_append, Nat.add_sub_cancel_left]
  · exact List.drop_left' (length_class? p entered names)
  · rw [← Nat.add_assoc, Nat.add_sub_cancel]

theorem context_noted (c s : State) : (c.noted s).context = c.context := rfl

theorem context_bind {s : State} (h : 0 < s.context.scopes) (name : String) (type : ReceiverType) :
    (s.bind name type).context = s.context := by
  cases hs : s.scopes with
  | nil => simp [State.context, hs] at h
  | cons scope rest => simp [State.context, State.bind, hs]

/-- Variables typed in front of a statement are bound in a scope that is there. -/
theorem context_pinVarTags (su : Setup) (start : Nat) {s : State} (h : 0 < s.context.scopes) :
    (pinVarTags su start s).1.context = s.context := by
  unfold pinVarTags
  split
  · rfl
  · rename_i doc _
    show ((varTags doc.text).foldl (pinTag su) (s, [])).1.context = s.context
    generalize ([] : List String) = pinned
    induction varTags doc.text generalizing s pinned with
    | nil => rfl
    | cons tag rest ih =>
      have hbind := context_bind h tag.2 ((s.surroundings su).docType tag.1)
      rw [List.foldl_cons, ih (by rw [pinTag, hbind]; exact h)]
      exact hbind

theorem context_enter_silent (su : Setup) (p : Part) {s : State} (h : 0 < s.context.scopes) :
    ((visitor su.silent).enter p s).2.context = s.context.push p := by
  cases p with
  | stmt node =>
    cases node with
    | expression start e =>
      have hpin := context_pinVarTags su.silent start h
      show Context.push (pinVarTags su.silent start s).1.context (.stmt (.expression start e)) = _
      rw [hpin]
    | classLike start c =>
      simp only [Visitor.enter, visitor, enterStmt, enterClass, State.context, Context.push, class?]
      cases c.kind <;> rfl
    | _ => rfl
  | expr node =>
    cases node with
    | methodCall nullsafe object method arguments => cases method <;> rfl
    | staticCall owner method arguments =>
      simp only [Visitor.enter, visitor, enterExpr_silent_staticCall]
      rfl
    | _ => rfl
  | member node =>
    cases node with
    | method m =>
      simp only [Visitor.enter, visitor, enterMethod_silent]
      rfl
    | _ => rfl
  | _ => rfl

/-- A hook on the way in pushes what the part adds to the path. -/
theorem context_enter (su : Setup) (p : Part) {s : State} (h : 0 < s.context.scopes) :
    ((visitor su).enter p s).2.context = s.context.push p := by
  -- the visits leave everything but the notes
  have hvisits : (s.visits su (visitsAt su s p)).context = s.context := by
    rw [← s.noted_self, visits_noted, context_noted, State.noted_self]
  rw [visitor_eq, enter_visitorBy]
  exact (context_enter_silent su p (hvisits ▸ h)).trans (congrArg (Context.push · p) hvisits)

theorem context_leaveExpr (su : Setup) (node : Expr) {s : State} (h : 0 < s.context.scopes) :
    (leaveExpr su node s).context = s.context.pop (.expr node) := by
  cases node with
  | closure start captured f => simp [leaveExpr, State.context, Context.pop]
  | arrowFunction start attributes parameters body =>
    simp [leaveExpr, State.context, Context.pop]
  | assignment plain target value =>
    cases plain with
    | false => rfl
    | true =>
      cases target with
      | var start name =>
        show (if s.isPinned name then s else s.bind name _).context = s.context
        split
        · rfl
        · exact context_bind h name _
      | _ => rfl
  | _ => rfl

/-- A hook on the way out pops it. -/
theorem context_leave (su : Setup) (p : Part) {s : State} (h : 0 < s.context.scopes) :
    ((visitor su).leave p s).context = s.context.pop p := by
  cases p with
  | stmt node =>
    cases node with
    | namespaceBlock start name braced body =>
      cases braced <;> simp [Visitor.leave, visitor, leaveStmt, State.context, Context.pop]
    | _ => simp [Visitor.leave, visitor, leaveStmt, State.context, Context.pop]
  | expr node => exact context_leaveExpr su node h
  | member node => cases node <;> simp [Visitor.leave, visitor, State.context, Context.pop]
  | anonymous c start => simp [Visitor.leave, visitor, State.context, Context.pop]
  | _ => rfl

/-! ## The hook calls of a walk -/

/-- A call of a hook, as the tree has it. -/
structure Stop where
  entering : Bool
  node : Part
  /-- The parts around the node. -/
  outer : Path
  /-- The names in force in front of the node. -/
  entered : NameContext
  /-- The names in force at the call. -/
  names : NameContext

/-- The parts around the call. On the way out the node is one of them. -/
def Stop.path (stop : Stop) : Path :=
  if stop.entering then stop.outer else (stop.node, stop.entered) :: stop.outer

/-- The hook calls on a way through a tree and the names in force at its end. -/
structure Tour where
  stops : List Stop := []
  names : NameContext := {}

/-- The stop if there is a hook for its node. -/
def Stop.hooked (stop : Stop) : List Stop :=
  if stop.node.hooked then [stop] else []

/-- The tour goes on into a part. -/
def Tour.into (t : Tour) (path : Path) (p : Part) : Tour :=
  ⟨t.stops ++ Stop.hooked ⟨true, p, path, t.names, t.names⟩, namesInside t.names p⟩

/-- The tour goes on out of a part with the names in force in front of it. -/
def Tour.outOf (t : Tour) (path : Path) (p : Part) (entered : NameContext) : Tour :=
  ⟨t.stops ++ Stop.hooked ⟨false, p, path, entered, t.names⟩, namesBehind t.names p⟩

/-- The tour goes on through a part at the end of a path. -/
def Tour.through (path : Path) (t : Tour) (p : Part) : Tour :=
  (p.walked.attach.foldl (fun u q => Tour.through ((p, t.names) :: path) u q.1)
    (t.into path p)).outOf path p t.names
termination_by sizeOf p
decreasing_by exact Part.below_inner p q.1 (List.mem_append_left _ q.2)

theorem Tour.through_eq (path : Path) (t : Tour) (p : Part) :
    t.through path p =
      (p.walked.foldl (Tour.through ((p, t.names) :: path)) (t.into path p)).outOf path p
        t.names := by
  rw [Tour.through, List.foldl_subtype fun _ _ _ => rfl, List.unattach_attach]

/-- The hook calls of a walk through a program. -/
def stops (p : Program) : List Stop :=
  ((ofStmts p.statements).foldl (Tour.through []) {}).stops

/-- A hook is called at a stop, with the stacks of the path to it. -/
structure OnPath (tops : List Part) (call : Visitor.HookCall State) (stop : Stop) : Prop where
  entering : call.entering = stop.entering
  node : call.node = stop.node
  reached : Reached tops stop.node stop.outer
  context : call.state.context = stop.path.context stop.names

/-- The walk and the tour at the end of a path. -/
structure InStep (tops : List Part) (path : Path) (r : State × List (Visitor.HookCall State))
    (t : Tour) : Prop where
  context : r.1.context = path.context t.names
  calls : List.Forall₂ (OnPath tops) r.2 t.stops

variable {tops : List Part} {path : Path} {r : State × List (Visitor.HookCall State)} {t : Tour}

theorem InStep.scopes_pos (h : InStep tops path r t) : 0 < r.1.context.scopes := by
  rw [h.context]
  exact Nat.add_pos_left Nat.one_pos _

theorem descends_visitor (su : Setup) : (visitor su).Descends :=
  ⟨fun _ _ => rfl, fun _ _ => rfl, fun _ _ => rfl, fun _ _ _ => rfl⟩

theorem forall₂_hooked {entering : Bool} {s : State} (stop : Stop)
    (h : OnPath tops ⟨entering, stop.node, s⟩ stop) :
    List.Forall₂ (OnPath tops) (Visitor.hookCalls entering stop.node s) stop.hooked := by
  unfold Visitor.hookCalls Stop.hooked
  split
  · exact .cons h .nil
  · exact .nil

theorem InStep.enter (su : Setup) (h : InStep tops path r t) {p : Part}
    (hp : Reached tops p path) :
    InStep tops ((p, t.names) :: path) ((visitor su).watched.enter p r).2 (t.into path p) := by
  rw [Visitor.enter_watched]
  constructor
  · show ((visitor su).enter p r.1).2.context = _
    rw [context_enter su p h.scopes_pos, h.context]
    exact (context_cons p path t.names).symm
  · exact List.rel_append h.calls
      (forall₂_hooked ⟨true, p, path, t.names, t.names⟩ ⟨rfl, rfl, hp, h.context⟩)

theorem InStep.leave (su : Setup) {p : Part} {entered : NameContext}
    (h : InStep tops ((p, entered) :: path) r t) (hp : Reached tops p path) :
    InStep tops path ((visitor su).watched.leave p r) (t.outOf path p entered) := by
  rw [Visitor.leave_watched]
  constructor
  · show ((visitor su).leave p r.1).context = _
    rw [context_leave su p h.scopes_pos, h.context]
    exact pop_context_cons p path entered t.names
  · exact List.rel_append h.calls
      (forall₂_hooked ⟨false, p, path, entered, t.names⟩ ⟨rfl, rfl, hp, h.context⟩)

theorem InStep.parts {su : Setup} {ps : List Part}
    (hps : ∀ p ∈ ps, ∀ r t, InStep tops path r t →
      InStep tops path ((visitor su).watched.part p r) (t.through path p))
    (h : InStep tops path r t) :
    InStep tops path ((visitor su).watched.parts ps r) (ps.foldl (Tour.through path) t) := by
  induction ps generalizing r t with
  | nil => exact h
  | cons p rest ih =>
    rw [Visitor.parts_cons, List.foldl_cons]
    exact ih (fun q hq => hps q (List.mem_cons_of_mem _ hq)) (hps p List.mem_cons_self r t h)

/-- A walk through a part comes back to the path that it started from. -/
theorem InStep.part (su : Setup) (h : InStep tops path r t) {p : Part}
    (hp : Reached tops p path) :
    InStep tops path ((visitor su).watched.part p r) (t.through path p) := by
  induction p using Part.inner_induction generalizing path r t with
  | h p ih =>
    have hinside : ((visitor su).watched.enter p r).1 = true := by
      rw [Visitor.enter_watched]
      exact (descends_visitor su).enter p r.1
    rw [Visitor.part_eq, hinside, if_pos rfl, Tour.through_eq]
    refine InStep.leave su (InStep.parts ?_ (h.enter su hp)) hp
    -- what is walked right inside the part is reached through it
    intro q hq r' t' h'
    exact ih q (List.mem_append_left _ hq) h' ⟨hq, hp⟩

/-- An expression in a program is inside of some statement. -/
theorem statements_ne_nil {body : List Stmt} {path : Path} {p : Part}
    (h : Reached (ofStmts body) p path) : (∃ node, p = .stmt node) ∨ path.statements ≠ [] := by
  induction path generalizing p with
  | nil =>
    obtain ⟨node, _, rfl⟩ := List.mem_map.mp h
    exact .inl ⟨node, rfl⟩
  | cons q rest ih =>
    obtain ⟨q, names⟩ := q
    rw [Path.statements_cons]
    rcases ih h.2 with ⟨node, rfl⟩ | hrest
    · exact .inr (List.cons_ne_nil _ _)
    · exact .inr (by simp [hrest])

/-- A call is annotated at the innermost statement of the path to it. -/
theorem OnPath.annotateCall {body : List Stmt} {call : Visitor.HookCall State} {stop : Stop}
    (h : OnPath (ofStmts body) call stop) (su : Setup) {node : Expr}
    (hentering : call.entering = true) (hnode : call.node = .expr node) :
    ∃ stmt, stop.path.statements.head? = some stmt ∧
      ∀ site, annotateCall su site node call.state = annotate su site stmt.start call.state := by
  have houter : stop.path = stop.outer := by
    rw [Stop.path, if_pos (h.entering ▸ hentering)]
  have hsome : stop.path.statements ≠ [] := by
    rw [houter]
    rcases statements_ne_nil h.reached with ⟨stmt, hstmt⟩ | hne
    · rw [← h.node, hnode] at hstmt
      exact absurd hstmt nofun
    · exact hne
  obtain ⟨stmt, rest, hcons⟩ := List.exists_cons_of_ne_nil hsome
  have hstack : call.state.statements = stop.path.statements.map Stmt.start :=
    congrArg Context.statements h.context
  refine ⟨stmt, by rw [hcons]; rfl, ?_⟩
  intro site
  rw [Check.annotateCall, hstack, hcons]
  rfl

/-- Each hook of a check is called at its stop, in the order of the tree, and
finds on the stacks what the path to the stop has: the statements around it, as
many entries of pinned variables, the classes whose members are around it, and
one scope more than there are functions. So every call is annotated at the
innermost statement around it. Behind the program all stacks are empty but for
the outermost scope. -/
theorem hooks_called_on_path (su : Setup) (p : Program) :
    ((visitor su).watched.program p ({}, [])).1 = (visitor su).program p {} ∧
      List.Forall₂
        (fun call stop =>
          OnPath (ofStmts p.statements) call stop ∧
            ∀ node, call.entering = true → call.node = .expr node →
              ∃ stmt, stop.path.statements.head? = some stmt ∧
                ∀ site, annotateCall su site node call.state =
                  annotate su site stmt.start call.state)
        ((visitor su).watched.program p ({}, [])).2 (stops p) ∧
      ((visitor su).program p {}).statements = [] ∧
      ((visitor su).program p {}).pinned = [] ∧
      ((visitor su).program p {}).classes = [] ∧
      ((visitor su).program p {}).scopes.length = 1 := by
  have hwatched := (visitor su).fst_watched_program p ({}, [])
  have hstart : InStep (ofStmts p.statements) [] (({} : State), []) {} := ⟨rfl, .nil⟩
  obtain ⟨hcontext, hcalls⟩ : InStep (ofStmts p.statements) []
      ((visitor su).watched.program p ({}, []))
      ((ofStmts p.statements).foldl (Tour.through []) {}) := by
    rw [Visitor.program_eq]
    exact hstart.parts fun q hq r t h => h.part su hq
  rw [hwatched] at hcontext
  refine ⟨hwatched, hcalls.imp ?_, ?_, ?_, ?_, ?_⟩
  · intro call stop h
    exact ⟨h, fun node hentering hnode => h.annotateCall su hentering hnode⟩
  · exact congrArg Context.statements hcontext
  · exact List.length_eq_zero_iff.mp (congrArg Context.pinned hcontext)
  · exact congrArg Context.classes hcontext
  · exact congrArg Context.scopes hcontext

/-- A class with a method that makes an object of an anonymous class: there is a
call in the arguments of the anonymous class and one in a method of it. -/
def nestedProgram : Program where
  statements :=
    [.classLike 6 ⟨.ordinary, [], "C", [], [],
      [.method ⟨16, [], "f", [],
        some [.expression 33 (.anonymousClass 33
          [.methodCall false (.var 43 "$this") (.name "run") []]
          ⟨.ordinary, [], "", ["D"], [],
            [.method ⟨69, [], "g", [],
              some [.expression 86 (.staticCall (.name 86 "B") (.name "b") [])]⟩]⟩)]⟩]⟩]
  trivia := []
  complete := true

theorem hooks_called_on_path_nested :
    ((((visitor sampleSetup).watched.program nestedProgram ({}, [])).2.filter fun call =>
        call.entering && !call.node.ownCall.isEmpty).map fun call =>
          (call.state.statements, call.state.classes.map (·.name), call.state.scopes.length)) =
        [([33, 6], ["C"], 2), ([86, 33, 6], ["D", "C"], 3)] ∧
      ((visitor sampleSetup).program nestedProgram {}).classes = [] := by
  obtain ⟨-, -, -, -, hclasses, -⟩ := hooks_called_on_path sampleSetup nestedProgram
  exact ⟨by decide +kernel, hclasses⟩

end UpgradeNotes.Check
