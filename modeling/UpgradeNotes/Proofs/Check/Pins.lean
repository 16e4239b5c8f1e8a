import UpgradeNotes.Proofs.Check.Isolation

/-!
# Pinned variables

The `@var` tags of a docblock type variables for the statement behind it. Their
types are bound in front of the statement, the last tag of a variable winning
(`binding?_foldl_pinTag`), and the names are pinned: no assignment of the statement
binds them again. Assignments count where they are left, at any depth, but what is
nested deeper than expressions has a scope of its own. So no expression changes what
a pinned variable is bound to (`binding?_part_of_isPinned`), and the types of the
tags hold behind the statement (`pinned_type_survives`).
-/

namespace UpgradeNotes.Check

open Php

/-! ## Through an expression -/

theorem isPinned_congr {s t : State} (hpinned : t.pinned = s.pinned) {name other : String}
    (h : Text.dropLeading '$' name = Text.dropLeading '$' other) :
    t.isPinned name = s.isPinned other := by
  unfold State.isPinned
  rw [hpinned, h]

theorem binding?_of_scopes {s t : State} (h : t.scopes = s.scopes) (name : String) :
    t.binding? name = s.binding? name := by
  unfold State.binding?
  rw [h]

/-- Whether a part is an expression or the inside of an anonymous class. -/
def isInline : Part → Bool
  | .expr _ | .anonymous _ _ => true
  | _ => false

theorem all_isInline_ofExprs (nodes : List Expr) : (ofExprs nodes).all isInline = true := by
  rw [List.all_eq_true]
  intro q hq
  obtain ⟨e, -, rfl⟩ := List.mem_map.mp hq
  rfl

theorem all_isInline_ofEntries (entries : List Entry) :
    (ofEntries entries).all isInline = true := by
  induction entries with
  | nil => rfl
  | cons entry rest ih =>
    rw [ofEntries_cons, List.all_append, List.all_append, all_isInline_ofExprs, ih]
    rfl

/-- Statements stand right inside an expression only if it is a function. -/
theorem all_isInline_walked {node : Expr} (h : isFunction (.expr node) = false) :
    node.walked.all isInline = true := by
  cases node with
  | closure start captured f => exact absurd h (by simp)
  | arrowFunction start attributes parameters body => exact absurd h (by simp)
  | array start form elements =>
    cases form with
    | short => exact all_isInline_ofEntries elements
    | _ => rfl
  | _ =>
    simp only [Expr.walked, ofOption, List.all_append, List.all_cons, List.all_nil,
      all_isInline_ofExprs, all_isInline_ofEntries, isInline, Bool.and_true]

theorem scopes_enter_expr (su : Setup) {node : Expr} (h : isFunction (.expr node) = false)
    (s : State) : ((visitor su).enter (.expr node) s).2.scopes = s.scopes := by
  rw [enter_eq_noted]
  show ((visitor su.silent).enter (.expr node) s).2.scopes = s.scopes
  cases node with
  | closure start captured f => exact absurd h (by simp)
  | arrowFunction start attributes parameters body => exact absurd h (by simp)
  | methodCall nullsafe object method arguments => cases method <;> rfl
  | staticCall owner method arguments =>
    simp only [Visitor.enter, visitor, enterExpr_silent_staticCall]
  | _ => rfl

/-- Leaving an expression binds no variable that is pinned. -/
theorem binding?_leaveExpr (su : Setup) {node : Expr} (h : isFunction (.expr node) = false)
    {s : State} {x : String} (hx : s.isPinned x = true) :
    (leaveExpr su node s).binding? x = s.binding? x := by
  cases node with
  | closure start captured f => exact absurd h (by simp)
  | arrowFunction start attributes parameters body => exact absurd h (by simp)
  | assignment plain target value =>
    cases plain with
    | false => rfl
    | true =>
      cases target with
      | var start name =>
        show (if s.isPinned name then s else s.bind name _).binding? x = s.binding? x
        split
        · rfl
        · rename_i hname
          rw [binding?_bind, if_neg]
          -- a variable that is not pinned is another one
          intro heq
          rw [isPinned_congr rfl heq] at hx
          exact hname hx
      | _ => rfl
  | _ => rfl

theorem binding?_parts_of_isPinned {su : Setup} {ps : List Part} {x : String}
    (h : ∀ p ∈ ps, ∀ s : State, s.isPinned x = true →
      ((visitor su).part p s).binding? x = s.binding? x)
    {s : State} (hx : s.isPinned x = true) :
    ((visitor su).parts ps s).binding? x = s.binding? x := by
  induction ps generalizing s with
  | nil => rfl
  | cons p rest ih =>
    obtain ⟨hp, hrest⟩ := List.forall_mem_cons.mp h
    have hpinned := isPinned_congr (part_kept su p s).pinned (rfl : Text.dropLeading '$' x = _)
    rw [Visitor.parts_cons, ih hrest (hpinned.trans hx)]
    exact hp s hx

/-- No expression changes what a pinned variable is bound to. -/
theorem binding?_part_of_isPinned (su : Setup) {p : Part} (hp : isInline p = true) {s : State}
    {x : String} (hx : s.isPinned x = true) :
    ((visitor su).part p s).binding? x = s.binding? x := by
  induction p using Part.inner_induction generalizing s with
  | h p ih =>
    cases p with
    | anonymous c start => exact binding?_of_scopes (scopes_part_of_isClass su rfl s) x
    | expr node =>
      cases hf : isFunction (.expr node) with
      | true => exact binding?_of_scopes (scopes_part_of_isFunction su hf s) x
      | false =>
        let t := ((visitor su).enter (.expr node) s).2
        let u := (visitor su).parts node.walked t
        have ht : t.isPinned x = true :=
          (isPinned_congr (entered_enter su (.expr node) s).pinned rfl).trans hx
        have hu : u.isPinned x = true :=
          (isPinned_congr (entered_parts su (.expr node) s).pinned rfl).trans hx
        have hwalked := List.all_eq_true.mp (all_isInline_walked hf)
        rw [(descends_visitor su).part_eq]
        calc (leaveExpr su node u).binding? x
            = u.binding? x := binding?_leaveExpr su hf hu
          _ = t.binding? x := binding?_parts_of_isPinned
            (fun q hq _ => ih q (List.mem_append_left _ hq) (hwalked q hq)) ht
          _ = s.binding? x := binding?_of_scopes (scopes_enter_expr su hf s) x
    | _ => exact absurd hp (by simp [isInline])

/-! ## Tags -/

/-- Tags are read without looking at variables, so an earlier tag changes nothing
about a later one. -/
theorem place_foldl_pinTag (su : Setup) (tags : List (String × String)) (s : State)
    (pinned : List String) :
    (tags.foldl (pinTag su) (s, pinned)).1.names = s.names ∧
      (tags.foldl (pinTag su) (s, pinned)).1.classes = s.classes := by
  induction tags generalizing s pinned with
  | nil => exact ⟨rfl, rfl⟩
  | cons tag rest ih =>
    rw [List.foldl_cons, pinTag, State.bind_eq]
    exact ih _ _

theorem pinned_foldl_pinTag (su : Setup) (tags : List (String × String)) (s : State)
    (pinned : List String) :
    (tags.foldl (pinTag su) (s, pinned)).2 = pinned ++ tags.map (·.2) := by
  induction tags generalizing s pinned with
  | nil => exact (List.append_nil pinned).symm
  | cons tag rest ih => simp [pinTag, ih]

theorem binding?_foldl_pinTag_of_ne (su : Setup) {tags : List (String × String)} {x : String}
    (h : ∀ tag ∈ tags, Text.dropLeading '$' x ≠ Text.dropLeading '$' tag.2) (s : State)
    (pinned : List String) :
    (tags.foldl (pinTag su) (s, pinned)).1.binding? x = s.binding? x := by
  induction tags generalizing s pinned with
  | nil => rfl
  | cons tag rest ih =>
    obtain ⟨htag, hrest⟩ := List.forall_mem_cons.mp h
    rw [List.foldl_cons, pinTag, ih hrest, binding?_bind, if_neg htag]

/-- The last tag of a variable binds it. -/
theorem binding?_foldl_pinTag (su : Setup) {earlier later : List (String × String)}
    {written x : String}
    (h : ∀ tag ∈ later, Text.dropLeading '$' x ≠ Text.dropLeading '$' tag.2) (s : State)
    (pinned : List String) :
    ((earlier ++ (written, x) :: later).foldl (pinTag su) (s, pinned)).1.binding? x =
      some ((s.surroundings su).docType written) := by
  obtain ⟨hnames, hclasses⟩ := place_foldl_pinTag su earlier s pinned
  rw [List.foldl_append, List.foldl_cons, pinTag, binding?_foldl_pinTag_of_ne su h, binding?_bind,
    if_pos rfl]
  exact congrArg some (Surroundings.docType_congr hnames (congrArg List.head? hclasses) written)

/-- Behind an expression statement its tags bind their variables as in front of it. -/
theorem binding?_expression (su : Setup) (s : State) (start : Nat) (e : Expr) {doc : Trivia}
    (hdoc : (attachedComments su.trivia su.source start).doc = some doc) {x : String}
    (hx : Text.dropLeading '$' x ∈ (varTags doc.text).map (·.2)) :
    ((visitor su).stmt (.expression start e) s).binding? x =
      ((varTags doc.text).foldl (pinTag su) (s, [])).1.binding? x := by
  let r := (varTags doc.text).foldl (pinTag su) (s, [])
  let t : State :=
    { r.1 with statements := start :: r.1.statements, pinned := r.2 :: r.1.pinned }
  have henter : ((visitor su).enter (.stmt (.expression start e)) s).2 = t := by
    simp only [Visitor.enter, visitor, enterStmt, pinVarTags, hdoc]
    rfl
  have hpinned : t.isPinned x = true := by
    show r.2.contains (Text.dropLeading '$' x) = true
    rw [List.contains_iff_mem, pinned_foldl_pinTag]
    exact hx
  have hpart := (descends_visitor su).part_eq (.stmt (.expression start e)) s
  rw [henter] at hpart
  calc ((visitor su).stmt (.expression start e) s).binding? x
      = (leaveStmt (.expression start e) ((visitor su).part (.expr e) t)).binding? x :=
        congrArg (State.binding? · x) hpart
    _ = ((visitor su).part (.expr e) t).binding? x := rfl
    _ = t.binding? x := binding?_part_of_isPinned su rfl hpinned
    _ = r.1.binding? x := rfl

/-- The types of `@var` tags hold behind their statement, whatever the statement does.
The scope that was the innermost one then binds a variable to the type of its last
tag, read where the statement starts; the scopes around it are as they were. -/
theorem pinned_type_survives (su : Setup) (s : State) (start : Nat) (e : Expr) {doc : Trivia}
    (hdoc : (attachedComments su.trivia su.source start).doc = some doc)
    (hnames : ∀ tag ∈ varTags doc.text, tag.2.toList.head? ≠ some '$')
    {earlier later : List (String × String)} {written x : String}
    (htags : varTags doc.text = earlier ++ (written, x) :: later)
    (hlast : ∀ tag ∈ later, tag.2 ≠ x) :
    ∃ scope, ((visitor su).stmt (.expression start e) s).scopes = scope :: s.scopes.tail ∧
      scope.get? x = some ((s.surroundings su).docType written) := by
  have hplain : ∀ tag ∈ varTags doc.text, Text.dropLeading '$' tag.2 = tag.2 :=
    fun tag htag => Text.dropLeading_of_head? (hnames tag htag)
  have hx : Text.dropLeading '$' x = x := hplain (written, x) (by simp [htags])
  have hlater : ∀ tag ∈ later, Text.dropLeading '$' x ≠ Text.dropLeading '$' tag.2 := by
    intro tag htag
    rw [hx, hplain tag (by simp [htags, htag])]
    exact (hlast tag htag).symm
  have hbinding := binding?_expression su s start e hdoc (x := x) (by simp [hx, htags])
  rw [htags, binding?_foldl_pinTag su hlater] at hbinding
  obtain ⟨scope, hhead, hget⟩ := Option.bind_eq_some_iff.mp hbinding
  obtain ⟨outer, hscopes⟩ := List.head?_eq_some_iff.mp hhead
  have hkept := (part_kept su (.stmt (.expression start e)) s).scopes
  refine ⟨scope, ?_, hget⟩
  rw [hscopes, ← hkept]
  exact congrArg (scope :: List.tail ·) hscopes.symm

/-- A statement with a docblock that types `$x` twice and `$y` once. -/
def taggedSetup : Setup where
  source := "/** @var B $x @var\n * @var A|null $x\n * @var C $y */ $x = 1;".toList
  trivia := [⟨.doc, 0, 52, "/** @var B $x @var\n * @var A|null $x\n * @var C $y */"⟩]
  rules := []
  index := {}

/-- Binds `$x` in a chain, in an arrow function and in a closure. -/
def restless : Expr :=
  .assignment true (.var 53 "$x") (.assignment true (.var 53 "$x")
    (.call (.name 53 "f")
      [.arrowFunction 53 [] [] (.assignment true (.var 53 "$x") (.literal 53 .integer)),
        .closure 53 ["$x"] ⟨[], [], [.expression 60
          (.assignment true (.var 60 "$x") (.literal 60 .null))]⟩]))

theorem pinned_type_survives_restless :
    ∃ scope, ((visitor taggedSetup).stmt (.expression 53 restless) {}).scopes = [scope] ∧
      scope.get? "x" = some (.union [.object "A", .scalar "null"]) := by
  have hdoc : (attachedComments taggedSetup.trivia taggedSetup.source 53).doc =
      some ⟨.doc, 0, 52, "/** @var B $x @var\n * @var A|null $x\n * @var C $y */"⟩ := by
    decide +kernel
  have htags : varTags "/** @var B $x @var\n * @var A|null $x\n * @var C $y */" =
      [("B", "x")] ++ ("A|null", "x") :: [("C", "y")] := by
    decide +kernel
  exact pinned_type_survives taggedSetup {} 53 restless hdoc (by decide +kernel) htags
    (by decide +kernel)

end UpgradeNotes.Check
