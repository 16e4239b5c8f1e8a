import UpgradeNotes.Collect
import UpgradeNotes.Proofs.Check.Stacks

/-!
# The classes that are collected

A check and the collection of classes walk through a program with names in force
that each keeps for itself. The check goes everywhere and enters every class that
is declared; the collection stays out of methods and expressions. So it has the
classes that are in sight, declared in statements within statements, and these
under the same names and with the same parents, as long as all namespaces and
imports are in sight too. Every class that is entered is collected iff those out
of sight repeat some in sight (`collected_iff`).
-/

namespace UpgradeNotes

open Php

/-- The name and the parent of a collected class, as a check has them. -/
def ClassInfo.header (c : ClassInfo) : ClassContext :=
  ⟨c.name, c.parent⟩

/-! ## Entries -/

namespace Collect

theorem header_addProperty (c : ClassInfo) (name : String) (type : ReceiverType) :
    (addProperty c name type).header = c.header := by
  unfold addProperty
  split <;> rfl

theorem header_foldl {α : Type} {f : ClassInfo → α → ClassInfo}
    (hf : ∀ c a, (f c a).header = c.header) (l : List α) (c : ClassInfo) :
    (l.foldl f c).header = c.header := by
  induction l generalizing c with
  | nil => rfl
  | cons a rest ih => exact (ih (f c a)).trans (hf c a)

theorem header_addMember (around : Surroundings) (c : ClassInfo) (node : Member) :
    (addMember around c node).header = c.header := by
  cases node with
  | method m =>
    simp only [addMember]
    split
    · refine header_foldl ?_ m.parameters c
      intro c p
      split
      · exact header_addProperty c p.name _
      · rfl
    · rfl
  | properties attributes hint items =>
    cases hint with
    | none => simp only [addMember]
    | some hint =>
      simp only [addMember]
      refine header_foldl ?_ items c
      intro c item
      exact header_addProperty c item.name _
  | traitUse names =>
    simp only [addMember]
    rfl
  | _ => simp only [addMember]

/-- A declaration is collected under the name that a check enters it with. -/
theorem header_info (names : NameContext) (start : Nat) (c : ClassLike) :
    some (info names c).header = Check.class? (.stmt (.classLike start c), names) := by
  unfold info
  rw [header_foldl (header_addMember _)]
  cases hk : c.kind <;> simp [ClassInfo.header, hk, List.head?_map]

end Collect

namespace Check

/-! ## Declarations along a tour -/

/-- Whether there are only statements around a point. -/
def Path.inSight (path : Path) : Bool :=
  path.all fun q => (statement? q.1).isSome

/-- Whether a part is a statement that changes what names stand for. -/
def setsNames : Part → Bool
  | .stmt (.namespaceBlock _ _ _ _) | .stmt (.importNames _ _ _) => true
  | _ => false

/-- The class that is entered at a stop, if it is the way into a declaration. -/
def Stop.declared? (stop : Stop) : Option ClassContext :=
  match stop.entering, stop.node with
  | true, .stmt (.classLike start c) => class? (.stmt (.classLike start c), stop.names)
  | _, _ => none

/-- The classes declared in sight at some stops. -/
def declaredInSight (stops : List Stop) : List ClassContext :=
  (stops.filter fun stop => stop.outer.inSight).filterMap Stop.declared?

/-- All namespaces and imports among some stops are in sight. -/
def NamesInSight (stops : List Stop) : Prop :=
  ∀ stop ∈ stops, setsNames stop.node = true → stop.outer.inSight = true

theorem inSight_nil : Path.inSight [] = true := rfl

theorem inSight_cons (p : Part) (names : NameContext) (path : Path) :
    Path.inSight ((p, names) :: path) = ((statement? p).isSome && path.inSight) := rfl

theorem declaredInSight_append (stops more : List Stop) :
    declaredInSight (stops ++ more) = declaredInSight stops ++ declaredInSight more := by
  unfold declaredInSight
  rw [List.filter_append, List.filterMap_append]

theorem NamesInSight.of_prefix {stops more : List Stop} (h : NamesInSight more)
    (hp : stops <+: more) : NamesInSight stops :=
  fun stop hstop => h stop (hp.subset hstop)

theorem namesInside_of_not_setsNames {p : Part} (hp : setsNames p = false) (names : NameContext) :
    namesInside names p = names := by
  cases p with
  | stmt node => cases node with
    | namespaceBlock start name braced body => exact absurd hp (by simp [setsNames])
    | importNames start group items => exact absurd hp (by simp [setsNames])
    | _ => rfl
  | _ => rfl

theorem namesBehind_of_not_setsNames {p : Part} (hp : setsNames p = false) (names : NameContext) :
    namesBehind names p = names := by
  cases p with
  | stmt node => cases node with
    | namespaceBlock start name braced body => exact absurd hp (by simp [setsNames])
    | _ => rfl
  | _ => rfl

theorem stops_foldl_of_through {path : Path} {ps : List Part}
    (h : ∀ p ∈ ps, ∀ t : Tour, t.stops <+: (t.through path p).stops) (t : Tour) :
    t.stops <+: (ps.foldl (Tour.through path) t).stops := by
  induction ps generalizing t with
  | nil => exact List.prefix_rfl
  | cons p rest ih =>
    exact (h p List.mem_cons_self t).trans (ih (fun q hq => h q (List.mem_cons_of_mem _ hq)) _)

/-- A tour only adds stops. -/
theorem stops_through (path : Path) (p : Part) (t : Tour) :
    t.stops <+: (t.through path p).stops := by
  induction p using Part.inner_induction generalizing path t with
  | h p ih =>
    have hinside := stops_foldl_of_through
      (fun q hq u => ih q (List.mem_append_left _ hq) ((p, t.names) :: path) u) (t.into path p)
    rw [Tour.through_eq]
    exact (List.prefix_append _ _).trans (hinside.trans (List.prefix_append _ _))

theorem stops_foldl_through (path : Path) (ps : List Part) (t : Tour) :
    t.stops <+: (ps.foldl (Tour.through path) t).stops :=
  stops_foldl_of_through (fun p _ => stops_through path p) t

/-- A stop out of sight, or at something else than a statement, declares nothing in
sight. -/
theorem declaredInSight_hooked_of_hidden {stop : Stop}
    (h : ((statement? stop.node).isSome && stop.outer.inSight) = false) :
    declaredInSight stop.hooked = [] := by
  obtain ⟨entering, node, outer, entered, names⟩ := stop
  unfold Stop.hooked
  split
  · rcases (Bool.and_eq_false_iff).mp h with hnode | houter
    · cases node with
      | stmt node => exact absurd hnode (by simp)
      | _ => cases hs : Path.inSight outer <;> simp [declaredInSight, hs, Stop.declared?]
    · simp [declaredInSight, houter]
  · rfl

/-- On the way out nothing is declared. -/
theorem declaredInSight_outOf (t : Tour) (path : Path) (p : Part) (entered : NameContext) :
    declaredInSight (t.outOf path p entered).stops = declaredInSight t.stops := by
  rw [Tour.outOf, declaredInSight_append, Stop.hooked]
  split
  · cases hs : path.inSight <;> simp [declaredInSight, hs, Stop.declared?]
  · exact List.append_nil _

/-! ## The collection and the tour -/

/-- The collection has the names in force on the tour and the classes declared in
sight along it. -/
structure Collected (s : Collect.State) (t : Tour) : Prop where
  names : s.names = t.names
  classes : s.classes.map ClassInfo.header = declaredInSight t.stops

variable {s : Collect.State} {t : Tour} {path : Path}

theorem Collected.foldl {f : Collect.State → Part → Collect.State} {ps : List Part}
    (hps : ∀ p ∈ ps, ∀ s t, Collected s t → NamesInSight (t.through path p).stops →
      Collected (f s p) (t.through path p))
    (h : Collected s t) (hnames : NamesInSight (ps.foldl (Tour.through path) t).stops) :
    Collected (ps.foldl f s) (ps.foldl (Tour.through path) t) := by
  induction ps generalizing s t with
  | nil => exact h
  | cons p rest ih =>
    have hfirst : NamesInSight (t.through path p).stops :=
      hnames.of_prefix (stops_foldl_through path rest (t.through path p))
    exact ih (fun q hq => hps q (List.mem_cons_of_mem _ hq))
      (hps p List.mem_cons_self s t h hfirst) hnames

/-- A namespace or import out of sight would be among the stops. -/
theorem NamesInSight.setsNames_eq_false {q : Part} (h : NamesInSight (t.into path q).stops)
    (hq : ((statement? q).isSome && path.inSight) = false) : setsNames q = false := by
  rw [Bool.eq_false_iff]
  intro hset
  cases q with
  | stmt node =>
    have hsight := h ⟨true, .stmt node, path, t.names, t.names⟩
      (List.mem_append_right _ List.mem_cons_self) hset
    rw [hsight] at hq
    exact absurd hq (by simp)
  | _ => exact absurd hset (by simp [setsNames])

/-- What is out of sight changes nothing for the collection. -/
theorem Collected.hidden {q : Part} (hq : ((statement? q).isSome && path.inSight) = false)
    (h : Collected s t) (hnames : NamesInSight (t.through path q).stops) :
    Collected s (t.through path q) := by
  induction q using Part.inner_induction generalizing path s t with
  | h q ih =>
    rw [Tour.through_eq] at hnames ⊢
    have hinside : NamesInSight
        (q.walked.foldl (Tour.through ((q, t.names) :: path)) (t.into path q)).stops :=
      hnames.of_prefix (List.prefix_append _ _)
    have hsets : setsNames q = false :=
      (hinside.of_prefix (stops_foldl_through _ q.walked _)).setsNames_eq_false hq
    have hinto : Collected s (t.into path q) := by
      refine ⟨h.names.trans (namesInside_of_not_setsNames hsets _).symm, ?_⟩
      rw [h.classes, Tour.into, declaredInSight_append, declaredInSight_hooked_of_hidden hq,
        List.append_nil]
    -- all that is inside is out of sight as well, and the collection does not move
    have hfold := hinto.foldl (f := fun s _ => s) (fun p hp s t h hn =>
      ih p (List.mem_append_left _ hp) (by rw [inSight_cons, hq, Bool.and_false]) h hn) hinside
    rw [List.foldl_fixed] at hfold
    refine ⟨hfold.names.trans (namesBehind_of_not_setsNames hsets _).symm, ?_⟩
    rw [declaredInSight_outOf]
    exact hfold.classes

/-! ## The walk of the collection -/

theorem collect_member (node : Member) (s : Collect.State) :
    Collect.visitor.part (.member node) s = s := by
  rw [Visitor.part_eq]
  cases node <;> rfl

theorem collect_members (members : List Member) (s : Collect.State) :
    Collect.visitor.parts (ofMembers members) s = s := by
  induction members with
  | nil => rfl
  | cons node rest ih => exact (congrArg _ (collect_member node s)).trans ih

theorem collect_of_not_statement {p : Part} (hp : (statement? p).isSome = false)
    (s : Collect.State) : Collect.visitor.part p s = s := by
  cases p with
  | stmt node => exact absurd hp (by simp)
  | member node => exact collect_member node s
  | anonymous c start =>
    rw [Visitor.part_eq]
    exact collect_members c.members s
  | _ =>
    rw [Visitor.part_eq]
    rfl

theorem collect_stmt (node : Stmt) (s : Collect.State) :
    Collect.visitor.part (.stmt node) s =
      Collect.visitor.leave (.stmt node)
        (Collect.visitor.parts node.walked (Collect.visitor.enter (.stmt node) s).2) := by
  rw [Visitor.part_eq]
  cases node <;> rfl

theorem declaredInSight_hooked_stmt {node : Stmt} {names : NameContext}
    (hsight : path.inSight = true) :
    declaredInSight (Stop.hooked ⟨true, .stmt node, path, names, names⟩) =
      (Stop.declared? ⟨true, .stmt node, path, names, names⟩).toList := by
  simp only [Stop.hooked, Part.hooked, if_true, declaredInSight, List.filter_cons, hsight,
    List.filter_nil, List.filterMap_cons, List.filterMap_nil]
  split <;> simp [*]

theorem Collected.enter (h : Collected s t) (hsight : path.inSight = true) (node : Stmt) :
    Collected (Collect.visitor.enter (.stmt node) s).2 (t.into path (.stmt node)) := by
  have hstops : declaredInSight (t.into path (.stmt node)).stops =
      s.classes.map ClassInfo.header ++
        (Stop.declared? ⟨true, .stmt node, path, t.names, t.names⟩).toList := by
    rw [Tour.into, declaredInSight_append, declaredInSight_hooked_stmt hsight, h.classes]
  cases node with
  | classLike start c =>
    refine ⟨h.names, ?_⟩
    rw [hstops]
    show _ = _ ++ (class? (.stmt (.classLike start c), t.names)).toList
    rw [← h.names, ← Collect.header_info]
    exact List.map_append
  | namespaceBlock start name braced body =>
    exact ⟨rfl, (List.append_nil _).symm.trans hstops.symm⟩
  | importNames start group items =>
    exact ⟨congrArg (·.addUses group items) h.names, (List.append_nil _).symm.trans hstops.symm⟩
  | _ => exact ⟨h.names, (List.append_nil _).symm.trans hstops.symm⟩

theorem Collected.leave (h : Collected s t) (node : Stmt) (entered : NameContext) :
    Collected (Collect.visitor.leave (.stmt node) s) (t.outOf path (.stmt node) entered) := by
  have hclasses : s.classes.map ClassInfo.header =
      declaredInSight (t.outOf path (.stmt node) entered).stops := by
    rw [declaredInSight_outOf]
    exact h.classes
  cases node with
  | namespaceBlock start name braced body =>
    cases braced with
    | true => exact ⟨rfl, hclasses⟩
    | false => exact ⟨h.names, hclasses⟩
  | _ => exact ⟨h.names, hclasses⟩

/-- In sight the collection is in step with the tour. -/
theorem Collected.part {p : Part} (h : Collected s t) (hsight : path.inSight = true)
    (hnames : NamesInSight (t.through path p).stops) :
    Collected (Collect.visitor.part p s) (t.through path p) := by
  induction p using Part.inner_induction generalizing path s t with
  | h p ih =>
    cases hp : (statement? p).isSome with
    | false =>
      -- the collection skips the part
      rw [collect_of_not_statement hp]
      exact h.hidden (by rw [hp, Bool.false_and]) hnames
    | true =>
      cases p with
      | stmt node =>
        rw [collect_stmt]
        rw [Tour.through_eq] at hnames ⊢
        refine Collected.leave (Collected.foldl ?_ (h.enter hsight node)
          (hnames.of_prefix (List.prefix_append _ _))) node t.names
        intro q hq s t h hn
        exact ih q (List.mem_append_left _ hq) h hsight hn
      | _ => exact absurd hp (by simp)

/-! ## The classes that a check enters -/

/-- The class that a check enters with a call of a hook, if it is the way into a
declaration. -/
def enteredClass? (su : Setup) (call : Visitor.HookCall State) : Option ClassContext :=
  match call.entering, call.node with
  | true, .stmt (.classLike start c) =>
    ((visitor su).enter (.stmt (.classLike start c)) call.state).2.classes.head?
  | _, _ => none

/-- The classes that a check of a program enters, in order. -/
def enteredClasses (su : Setup) (p : Program) : List ClassContext :=
  ((visitor su).watched.program p ({}, [])).2.filterMap (enteredClass? su)

theorem OnPath.enteredClass? {tops : List Part} {call : Visitor.HookCall State} {stop : Stop}
    (h : OnPath tops call stop) (su : Setup) : enteredClass? su call = stop.declared? := by
  have hnames : call.state.names = stop.names := congrArg Context.names h.context
  unfold Check.enteredClass? Stop.declared?
  rw [h.entering, h.node]
  split
  · rename_i start c _ _
    rw [enter_eq_noted, ← hnames]
    simp only [Visitor.enter, visitor, enterStmt, enterClass_silent]
    rfl
  · rfl

theorem filterMap_of_forall₂ {α β γ : Type} {f : α → Option γ} {g : β → Option γ} {l : List α}
    {m : List β} (h : List.Forall₂ (fun a b => f a = g b) l m) : l.filterMap f = m.filterMap g := by
  induction h with
  | nil => rfl
  | cons hab _ ih => rw [List.filterMap_cons, List.filterMap_cons, hab, ih]

/-- A check enters the classes declared along its tour. -/
theorem enteredClasses_eq (su : Setup) (p : Program) :
    enteredClasses su p = (stops p).filterMap Stop.declared? := by
  have hstart : InStep (ofStmts p.statements) [] (({} : State), []) {} := ⟨rfl, .nil⟩
  have hcalls := (hstart.parts fun q hq r t h => h.part su hq).calls
  rw [enteredClasses, Visitor.program_eq]
  exact filterMap_of_forall₂ (hcalls.imp fun call stop h => h.enteredClass? su)

theorem collectClasses_eq {p : Program} (hp : NamesInSight (stops p)) :
    (collectClasses p).map ClassInfo.header = declaredInSight (stops p) := by
  have hstart : Collected {} {} := ⟨rfl, rfl⟩
  rw [collectClasses, Visitor.program_eq]
  exact (hstart.foldl (fun q _ s t h hn => h.part rfl hn) hp).classes

end Check

open Check

/-- A check enters every class declared in a program, in order. If all namespaces
and imports are in sight, the collection has the classes in sight, in order, with
the same names and parents; so it has all classes that are entered iff it has
those out of sight, and these it can only have by a repetition. -/
theorem collected_iff (su : Setup) {p : Program} (hp : NamesInSight (stops p)) :
    enteredClasses su p = (stops p).filterMap Stop.declared? ∧
      (collectClasses p).map ClassInfo.header = declaredInSight (stops p) ∧
      ((∀ c ∈ enteredClasses su p, ∃ d ∈ collectClasses p, d.header = c) ↔
        ∀ stop ∈ stops p, stop.outer.inSight = false → ∀ c ∈ stop.declared?,
          c ∈ declaredInSight (stops p)) := by
  have hentered := enteredClasses_eq su p
  have hcollected := collectClasses_eq hp
  have hmem : ∀ c, (∃ d ∈ collectClasses p, d.header = c) ↔ c ∈ declaredInSight (stops p) := by
    intro c
    rw [← hcollected, List.mem_map]
  refine ⟨hentered, hcollected, ?_⟩
  simp only [hmem, hentered, List.mem_filterMap]
  constructor
  · intro h stop hstop _ c hc
    exact h c ⟨stop, hstop, hc⟩
  · rintro h c ⟨stop, hstop, hc⟩
    cases hsight : stop.outer.inSight with
    | false => exact h stop hstop hsight c hc
    | true => exact List.mem_filterMap.mpr ⟨stop, List.mem_filter.mpr ⟨hstop, hsight⟩, hc⟩

/-- A namespace with an import, a class in a condition and an interface in a
function. -/
def sightProgram : Program where
  statements :=
    [.namespaceBlock 6 (some "N") false
      [.importNames 19 none [⟨.classLike, "X\\B", none⟩],
        .conditional 28 (.literal 32 .boolean)
          [.classLike 40 ⟨.ordinary, [], "A", ["B"], [], []⟩] [] [],
        .function 62 ⟨[], [], [.classLike 77 ⟨.interface, [], "I", ["A"], [], []⟩]⟩]]
  trivia := []
  complete := true

theorem collected_iff_sample :
    NamesInSight (stops sightProgram) ∧
      (enteredClasses sampleSetup sightProgram).map (fun c => (c.name, c.parent)) =
        [("N\\A", some "X\\B"), ("N\\I", none)] ∧
      ∀ c ∈ enteredClasses sampleSetup sightProgram,
        ∃ d ∈ collectClasses sightProgram, d.header = c := by
  have hsight : ∀ stop ∈ stops sightProgram, stop.outer.inSight = true := by
    simp [stops, sightProgram, ofStmts, ofClauses, ofMembers, Part.walked, Stmt.walked, Expr.walked,
      Tour.through_eq, Tour.into, Tour.outOf, Stop.hooked, Part.hooked, inSight_nil, inSight_cons]
  have hnames : NamesInSight (stops sightProgram) := fun stop hstop _ => hsight stop hstop
  refine ⟨hnames, by decide +kernel, (collected_iff sampleSetup hnames).2.2.mpr ?_⟩
  intro stop hstop hhidden
  rw [hsight stop hstop] at hhidden
  exact absurd hhidden (by simp)

/-- A class in a method. -/
def hiddenProgram : Program where
  statements :=
    [.classLike 6 ⟨.ordinary, [], "A", [], [],
      [.method ⟨16, [], "f", [], some [.classLike 31 ⟨.ordinary, [], "B", ["C"], [], []⟩]⟩]⟩]
  trivia := []
  complete := true

theorem not_collected :
    ¬ ∀ c ∈ enteredClasses sampleSetup hiddenProgram,
      ∃ d ∈ collectClasses hiddenProgram, d.header = c := by
  intro h
  have hentered : (enteredClasses sampleSetup hiddenProgram).map (fun c => (c.name, c.parent)) =
      [("A", none), ("B", some "C")] := by
    decide +kernel
  have hcollected : (collectClasses hiddenProgram).map (·.name) = ["A"] := by
    decide +kernel
  have hB : ("B", some "C") ∈
      (enteredClasses sampleSetup hiddenProgram).map (fun c => (c.name, c.parent)) := by
    rw [hentered]
    simp
  obtain ⟨c, hc, hname⟩ := List.mem_map.mp hB
  obtain ⟨d, hd, rfl⟩ := h c hc
  have hmem := List.mem_map_of_mem (f := (·.name)) hd
  rw [hcollected, List.mem_singleton] at hmem
  exact absurd (hmem.symm.trans (congrArg Prod.fst hname)) (by decide)

end UpgradeNotes
