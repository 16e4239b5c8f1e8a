import UpgradeNotes.Proofs.Php.Trace

/-!
# Walks are well bracketed

Equal nodes can stand in a tree more than once, so the hook calls of a walk are
told apart by the places of their nodes. `Logged` says which calls a way through
some parts can make, whatever the hooks answer; every trace is of this form
(`Visitor.exists_logged_parts`), and all else is read off it by induction.

Main result: `trace_well_bracketed`. Whatever the hooks answer and whatever state
they carry along, the calls of a walk are properly nested.
-/

namespace UpgradeNotes.Php

/-! ## Places -/

/-- The place of a part: which of the parts at the top leads to it, which of the
walked parts right inside that one, and so on down to the part itself. What is
inside of a part has the place of the part in front of its own. -/
abbrev Address := List Nat

/-- The part at a place, seen from some parts at the top. -/
def partAt? : List Part → Address → Option Part
  | _, [] => none
  | ps, [i] => ps[i]?
  | ps, i :: j :: rest => ps[i]?.bind fun p => partAt? p.walked (j :: rest)

theorem partAt?_inside (p : Part) (ps : List Part) (j : Nat) (b : Address) :
    partAt? (p :: ps) (0 :: j :: b) = partAt? p.walked (j :: b) := rfl

theorem partAt?_succ (p : Part) (ps : List Part) (j : Nat) (b : Address) :
    partAt? (p :: ps) ((j + 1) :: b) = partAt? ps (j :: b) := by
  cases b <;> rfl

theorem partAt?_concat {x : Address} (hx : x ≠ []) (ps : List Part) (k : Nat) :
    partAt? ps (x ++ [k]) = (partAt? ps x).bind fun p => p.walked[k]? := by
  induction x generalizing ps with
  | nil => exact absurd rfl hx
  | cons i b ih =>
    cases b with
    | nil => rfl
    | cons j b =>
      show (ps[i]?.bind fun p => partAt? p.walked (j :: b ++ [k])) = _
      simp only [ih (List.cons_ne_nil j b), partAt?, Option.bind_assoc]

/-- Whether a place stands in front of another one and does not enclose it: where
the two part, it takes the earlier branch. -/
def LeftOf : Address → Address → Prop
  | i :: a, j :: b => i < j ∨ i = j ∧ LeftOf a b
  | _, _ => False

theorem leftOf_append (a b c : Address) : LeftOf (a ++ b) (a ++ c) ↔ LeftOf b c := by
  induction a with
  | nil => exact Iff.rfl
  | cons i a ih => simp [LeftOf, ih]

theorem not_leftOf_inside (a b : Address) : ¬ LeftOf (a ++ b) a := by
  induction a with
  | nil => cases b <;> exact id
  | cons i a ih => simp [LeftOf, ih]

theorem not_leftOf_outside (a b : Address) : ¬ LeftOf a (a ++ b) := by
  induction a with
  | nil => exact id
  | cons i a ih => simp [LeftOf, ih]

theorem leftOf_of_lt {a b c : Address} {i j : Nat} (h : i < j) :
    LeftOf (a ++ [i] ++ b) (a ++ j :: c) := by
  rw [List.append_assoc, leftOf_append]
  exact .inl h

theorem not_leftOf_of_lt {a b c : Address} {i j : Nat} (h : i < j) :
    ¬ LeftOf (a ++ j :: c) (a ++ [i] ++ b) := by
  rw [List.append_assoc, leftOf_append]
  rintro (hlt | ⟨heq, -⟩) <;> omega

theorem not_prefix_of_ne {a b c : Address} {i j : Nat} (h : i ≠ j) :
    ¬ a ++ [i] ++ b <+: a ++ j :: c := by
  rw [List.append_assoc, List.prefix_append_right_inj, List.singleton_append,
    List.cons_prefix_cons]
  exact fun hpre => h hpre.1

/-! ## The calls of a way through some parts -/

/-- The part that a hook is called for. -/
def Event.node : Event → Part
  | .enter node _ | .leave node => node

/-- A call of a hook with the place of its node. -/
structure Located where
  address : Address
  event : Event

/-- What is walked inside of a part, hence nothing if the inside is skipped. -/
def Part.walkedIf (p : Part) (inside : Bool) : List Part :=
  if inside then p.walked else []

/-- The call on the way out of a part at `a`, if there is one: a statement or an
expression whose inside is skipped is not left. -/
def Part.closing (p : Part) (a : Address) (inside : Bool) : List Located :=
  if inside || p.alwaysLeft then [⟨a, .leave p⟩] else []

/-- The calls that a way through some parts can make, where the first of the
parts is number `i` inside the part at `a`. -/
inductive Logged : Address → Nat → List Part → List Located → Prop
  | done {a : Address} {i : Nat} : Logged a i [] []
  /-- There are no hooks for the part. -/
  | silent {a : Address} {i : Nat} {p : Part} {rest : List Part} {log : List Located} :
      p.hooked = false → Logged a (i + 1) rest log → Logged a i (p :: rest) log
  /-- The hook for the way in has said whether to go inside. -/
  | visited {a : Address} {i : Nat} {p : Part} {rest : List Part} {body log : List Located}
      (inside : Bool) :
      p.hooked = true → Logged (a ++ [i]) 0 (p.walkedIf inside) body → Logged a (i + 1) rest log →
      Logged a i (p :: rest)
        (⟨a ++ [i], .enter p inside⟩ :: (body ++ (p.closing (a ++ [i]) inside ++ log)))

theorem walked_of_not_hooked {p : Part} (h : p.hooked = false) : p.walked = [] := by
  cases p with
  | stmt node => cases h
  | expr node => cases h
  | member node =>
    cases node with
    | method m => cases h
    | _ => rfl
  | anonymous c start => cases h
  | parameter node => rfl
  | hook node => rfl

theorem mem_closing {p : Part} {a : Address} {inside : Bool} {e : Located} :
    e ∈ p.closing a inside ↔ (inside = true ∨ p.alwaysLeft = true) ∧ e = ⟨a, .leave p⟩ := by
  unfold Part.closing
  cases inside <;> cases p.alwaysLeft <;> simp

namespace Visitor

variable {σ : Type} (v : Visitor σ)

/-- What a walk through a part logs: `own` and nothing else, in front of whatever
is logged behind the part. -/
def Logs (p : Part) : Prop :=
  ∀ a i s, ∃ own : List Located,
    (v.traced.part p s).2 = s.2 ++ own.map (·.event) ∧
      ∀ rest log, Logged a (i + 1) rest log → Logged a i (p :: rest) (own ++ log)

theorem exists_logged_of_logs {ps : List Part} (h : ∀ p ∈ ps, v.Logs p) (a : Address) (i : Nat)
    (s : σ × List Event) :
    ∃ log, Logged a i ps log ∧ (v.traced.parts ps s).2 = s.2 ++ log.map (·.event) := by
  induction ps generalizing i s with
  | nil => exact ⟨[], .done, (List.append_nil _).symm⟩
  | cons p rest ih =>
    obtain ⟨own, hown, hlogged⟩ := h p List.mem_cons_self a i s
    obtain ⟨log, hlog, htrace⟩ :=
      ih (fun q hq => h q (List.mem_cons_of_mem _ hq)) (i + 1) (v.traced.part p s)
    refine ⟨own ++ log, hlogged rest log hlog, ?_⟩
    rw [parts_cons, htrace, hown, List.map_append, List.append_assoc]

theorem traced_part_of_hooked {p : Part} (h : p.hooked = true) (a : Address)
    (s : σ × List Event) :
    (v.traced.part p s).2 =
      (v.traced.parts (p.walkedIf (v.enter p s.1).1) (v.traced.enter p s).2).2 ++
        (p.closing a (v.enter p s.1).1).map (·.event) := by
  rw [part_eq, enter_traced]
  cases (v.enter p s.1).1 with
  | true => simp [Part.walkedIf, Part.closing, leave_traced, Part.leaving, h]
  | false =>
    cases hleft : p.alwaysLeft <;>
      simp [Part.walkedIf, Part.closing, leave_traced, Part.leaving, h, hleft]

theorem logs_part (p : Part) : v.Logs p := by
  induction p using Part.inner_induction with
  | h p ih =>
    intro a i s
    by_cases hhooked : p.hooked = true
    · have hwalked : ∀ q ∈ p.walkedIf (v.enter p s.1).1, v.Logs q := by
        intro q hq
        unfold Part.walkedIf at hq
        split at hq
        · exact ih q (List.mem_append_left _ hq)
        · exact absurd hq List.not_mem_nil
      obtain ⟨body, hbody, htrace⟩ :=
        v.exists_logged_of_logs hwalked (a ++ [i]) 0 (v.traced.enter p s).2
      refine ⟨⟨a ++ [i], .enter p (v.enter p s.1).1⟩ ::
        (body ++ p.closing (a ++ [i]) (v.enter p s.1).1), ?_, ?_⟩
      · rw [v.traced_part_of_hooked hhooked (a ++ [i]), htrace, enter_traced, Part.entering,
          if_pos hhooked]
        simp
      · intro rest log hrest
        simpa using Logged.visited _ hhooked hbody hrest
    · -- nothing is walked inside a part without hooks
      rw [Bool.not_eq_true] at hhooked
      refine ⟨[], ?_, fun rest log hrest => Logged.silent hhooked hrest⟩
      rw [part_eq, enter_traced]
      simp only [walked_of_not_hooked hhooked, parts_nil, leave_traced, Part.entering,
        Part.leaving, hhooked]
      split
      · simp
      · split <;> simp

/-- The trace of a walk is one of the logs that a way through the parts can
make. -/
theorem exists_logged_parts (ps : List Part) (a : Address) (i : Nat) (s : σ × List Event) :
    ∃ log, Logged a i ps log ∧ (v.traced.parts ps s).2 = s.2 ++ log.map (·.event) :=
  v.exists_logged_of_logs (fun p _ => v.logs_part p) a i s

end Visitor

/-! ## What the logs have in common -/

section Logged

variable {a : Address} {i : Nat} {ps : List Part} {log : List Located}

theorem Logged.eq_nil (h : Logged a i [] log) : log = [] := by
  cases h
  rfl

/-- The node of a call stands at the place of the call. -/
theorem Logged.placed (h : Logged a i ps log) {e : Located} (he : e ∈ log) :
    ∃ j b, e.address = a ++ (i + j) :: b ∧ partAt? ps (j :: b) = some e.event.node := by
  induction h with
  | done => exact absurd he List.not_mem_nil
  | silent hhooked _ ih =>
    obtain ⟨j, b, haddress, hpart⟩ := ih he
    refine ⟨j + 1, b, ?_, by rw [partAt?_succ, hpart]⟩
    rw [haddress, Nat.add_right_comm, Nat.add_assoc]
  | visited inside hhooked hbody _ ihbody ih =>
    simp only [List.mem_cons, List.mem_append, mem_closing] at he
    rcases he with rfl | he | ⟨-, rfl⟩ | he
    · exact ⟨0, [], rfl, rfl⟩
    · cases inside with
      | true =>
        obtain ⟨j, b, haddress, hpart⟩ := ihbody he
        refine ⟨0, j :: b, ?_, by rw [partAt?_inside]; exact hpart⟩
        rw [haddress]
        simp
      | false =>
        rw [hbody.eq_nil] at he
        exact absurd he List.not_mem_nil
    · exact ⟨0, [], rfl, rfl⟩
    · obtain ⟨j, b, haddress, hpart⟩ := ih he
      refine ⟨j + 1, b, ?_, by rw [partAt?_succ, hpart]⟩
      rw [haddress, Nat.add_right_comm, Nat.add_assoc]

theorem Logged.exists_number (h : Logged a i ps log) {e : Located} (he : e ∈ log) :
    ∃ j b, i ≤ j ∧ e.address = a ++ j :: b := by
  obtain ⟨j, b, haddress, -⟩ := h.placed he
  exact ⟨i + j, b, Nat.le_add_right i j, haddress⟩

/-- Calls for later parts are not at or inside the place of an earlier one, and
not in front of it either. -/
theorem Logged.behind (h : Logged a (i + 1) ps log) {e : Located} (he : e ∈ log) (b : Address) :
    ¬ a ++ [i] ++ b <+: e.address ∧ ¬ LeftOf e.address (a ++ [i] ++ b) := by
  obtain ⟨j, c, hj, haddress⟩ := h.exists_number he
  rw [haddress]
  exact ⟨not_prefix_of_ne (by omega), not_leftOf_of_lt (by omega)⟩

/-- The calls of a way through parts come in the order of the places. -/
theorem Logged.ordered (h : Logged a i ps log) :
    log.Pairwise fun e f => ¬ LeftOf f.address e.address := by
  induction h with
  | done => exact List.Pairwise.nil
  | silent hhooked _ ih => exact ih
  | @visited a i p rest body log inside hhooked hbody hlog ihbody ih =>
    have hself : ¬ LeftOf (a ++ [i]) (a ++ [i]) := by
      simpa using not_leftOf_inside (a ++ [i]) []
    have hlast : ∀ f ∈ log, ¬ LeftOf f.address (a ++ [i]) := by
      intro f hf
      simpa using (hlog.behind hf []).2
    have hclosing : (p.closing (a ++ [i]) inside ++ log).Pairwise
        fun e f => ¬ LeftOf f.address e.address := by
      refine List.pairwise_append.mpr ⟨?_, ih, ?_⟩
      · unfold Part.closing
        split <;> simp
      · intro e he f hf
        obtain ⟨-, rfl⟩ := mem_closing.mp he
        exact hlast f hf
    refine List.pairwise_cons.mpr ⟨?_, List.pairwise_append.mpr ⟨ihbody, hclosing, ?_⟩⟩
    · -- the call on the way in: all others are for parts inside or for parts behind
      intro f hf
      simp only [List.mem_append, mem_closing] at hf
      rcases hf with hf | ⟨-, rfl⟩ | hf
      · obtain ⟨j, b, -, haddress⟩ := hbody.exists_number hf
        rw [haddress]
        exact not_leftOf_inside _ _
      · exact hself
      · exact hlast f hf
    · intro e he f hf
      obtain ⟨j, b, -, haddress⟩ := hbody.exists_number he
      rw [haddress]
      rcases List.mem_append.mp hf with hf | hf
      · obtain ⟨-, rfl⟩ := mem_closing.mp hf
        exact not_leftOf_outside _ _
      · exact (hlog.behind hf _).2

/-- Calls in and out match like brackets: what is left was entered last among
all that is not left yet. -/
inductive Nested : List Located → Prop
  | nil : Nested []
  | unmatched {a : Address} {p : Part} {log : List Located} :
      p.alwaysLeft = false → Nested log → Nested (⟨a, .enter p false⟩ :: log)
  | matched {a : Address} {p : Part} {inside : Bool} {body log : List Located} :
      inside = true ∨ p.alwaysLeft = true → Nested body → Nested log →
      Nested (⟨a, .enter p inside⟩ :: (body ++ ⟨a, .leave p⟩ :: log))

theorem Logged.nested (h : Logged a i ps log) : Nested log := by
  induction h with
  | done => exact .nil
  | silent hhooked _ ih => exact ih
  | @visited a i p rest body log inside hhooked hbody hlog ihbody ih =>
    unfold Part.closing
    cases inside with
    | true => exact .matched (.inl rfl) ihbody ih
    | false =>
      cases hbody.eq_nil
      cases hleft : p.alwaysLeft with
      | true => exact .matched (.inr hleft) .nil ih
      | false => exact .unmatched hleft ih

/-- `own` stands in a log in one piece, and holds all calls at or inside a
place. -/
def Encloses (a : Address) (own log : List Located) : Prop :=
  ∃ before after, log = before ++ own ++ after ∧ ∀ e ∈ before ++ after, ¬ a <+: e.address

theorem Encloses.extend {own : List Located} (h : Encloses a own log) {front back : List Located}
    (hfront : ∀ e ∈ front, ¬ a <+: e.address) (hback : ∀ e ∈ back, ¬ a <+: e.address) :
    Encloses a own (front ++ log ++ back) := by
  obtain ⟨before, after, rfl, hout⟩ := h
  refine ⟨front ++ before, after ++ back, by simp, ?_⟩
  intro e he
  simp only [List.mem_append] at he hout
  rcases he with (he | he) | he | he
  · exact hfront e he
  · exact hout e (.inl he)
  · exact hout e (.inr he)
  · exact hback e he

/-- What is called between the way into a part and the way out of it is called
for parts inside, and nothing else is. -/
theorem Logged.encloses (h : Logged a i ps log) {x : Address} {p : Part} {inside : Bool}
    (he : (⟨x, .enter p inside⟩ : Located) ∈ log) :
    ∃ body, (inside = false → body = []) ∧
      (∀ e ∈ body, x <+: e.address ∧ e.address ≠ x) ∧
      Encloses x (⟨x, .enter p inside⟩ :: (body ++ p.closing x inside)) log := by
  induction h with
  | done => exact absurd he List.not_mem_nil
  | silent hhooked _ ih => exact ih he
  | @visited a i q rest body log answer hhooked hbody hlog ihbody ih =>
    simp only [List.mem_cons, List.mem_append, mem_closing] at he
    rcases he with heq | he | ⟨-, heq⟩ | he
    · -- the call is that for the first part
      simp only [Located.mk.injEq, Event.enter.injEq] at heq
      obtain ⟨rfl, rfl, rfl⟩ := heq
      refine ⟨body, ?_, ?_, [], log, by simp, ?_⟩
      · rintro rfl
        exact hbody.eq_nil
      · intro e he
        obtain ⟨j, b, -, haddress⟩ := hbody.exists_number he
        rw [haddress]
        exact ⟨List.prefix_append _ _, by simp⟩
      · intro e he
        simpa using (hlog.behind he []).1
    · -- it is for a part inside the first one
      obtain ⟨own, hown, hunder, hencloses⟩ := ihbody he
      obtain ⟨j, b, -, hx : x = a ++ [i] ++ j :: b⟩ := hbody.exists_number he
      have hnot : ¬ x <+: a ++ [i] := by
        rw [hx]
        intro hpre
        have hlen := hpre.length_le
        simp at hlen
      refine ⟨own, hown, hunder, ?_⟩
      have hfront : ∀ e ∈ [(⟨a ++ [i], .enter q answer⟩ : Located)], ¬ x <+: e.address := by
        simpa using hnot
      have hback : ∀ e ∈ q.closing (a ++ [i]) answer ++ log, ¬ x <+: e.address := by
        intro e he
        rcases List.mem_append.mp he with he | he
        · obtain ⟨-, rfl⟩ := mem_closing.mp he
          exact hnot
        · rw [hx]
          exact (hlog.behind he _).1
      simpa using hencloses.extend hfront hback
    · exact absurd heq (by simp)
    · -- it is for one of the parts behind
      obtain ⟨own, hown, hunder, hencloses⟩ := ih he
      obtain ⟨j, b, hj, hx : x = a ++ j :: b⟩ := hlog.exists_number he
      have hnot : ∀ c, ¬ x <+: a ++ [i] ++ c := by
        intro c hpre
        rw [hx, List.append_assoc, List.prefix_append_right_inj, List.singleton_append,
          List.cons_prefix_cons] at hpre
        omega
      refine ⟨own, hown, hunder, ?_⟩
      have hfront : ∀ e ∈ (⟨a ++ [i], .enter q answer⟩ : Located) ::
          (body ++ q.closing (a ++ [i]) answer), ¬ x <+: e.address := by
        intro e he
        simp only [List.mem_cons, List.mem_append, mem_closing] at he
        rcases he with rfl | he | ⟨-, rfl⟩
        · simpa using hnot []
        · obtain ⟨k, c, -, haddress⟩ := hbody.exists_number he
          rw [haddress]
          exact hnot _
        · simpa using hnot []
      have hback : ∀ e ∈ ([] : List Located), ¬ x <+: e.address := by simp
      simpa using hencloses.extend hfront hback

/-- A part is left iff it is entered and gone into, or entered and always left. -/
theorem Logged.left_iff (h : Logged a i ps log) {x : Address} {p : Part} :
    (⟨x, .leave p⟩ : Located) ∈ log ↔
      ∃ inside, (⟨x, .enter p inside⟩ : Located) ∈ log ∧
        (inside = true ∨ p.alwaysLeft = true) := by
  constructor
  · intro he
    induction h with
    | done => exact absurd he List.not_mem_nil
    | silent hhooked _ ih => exact ih he
    | visited answer hhooked hbody hlog ihbody ih =>
      simp only [List.mem_cons, List.mem_append, mem_closing] at he ⊢
      rcases he with heq | he | ⟨hleft, heq⟩ | he
      · exact absurd heq (by simp)
      · obtain ⟨inside, hmem, hinside⟩ := ihbody he
        exact ⟨inside, .inr (.inl hmem), hinside⟩
      · simp only [Located.mk.injEq, Event.leave.injEq] at heq
        obtain ⟨rfl, rfl⟩ := heq
        exact ⟨answer, .inl rfl, hleft⟩
      · obtain ⟨inside, hmem, hinside⟩ := ih he
        exact ⟨inside, .inr (.inr (.inr hmem)), hinside⟩
  · rintro ⟨inside, hmem, hinside⟩
    obtain ⟨body, -, -, before, after, rfl, -⟩ := h.encloses hmem
    simp only [List.mem_append, List.mem_cons, mem_closing]
    exact .inl (.inr (.inr (.inr ⟨hinside, trivial⟩)))

/-- Every part on the way that has hooks is entered. -/
theorem Logged.entered_top (h : Logged a i ps log) {j : Nat} {p : Part} (hp : ps[j]? = some p)
    (hhooked : p.hooked = true) :
    ∃ inside, (⟨a ++ [i + j], .enter p inside⟩ : Located) ∈ log := by
  induction h generalizing j with
  | done => exact absurd hp (by simp)
  | silent hnot _ ih =>
    cases j with
    | zero =>
      obtain rfl := Option.some.inj hp
      rw [hnot] at hhooked
      exact absurd hhooked (by simp)
    | succ j =>
      obtain ⟨inside, hmem⟩ := ih hp
      rw [Nat.add_assoc, Nat.add_comm 1 j] at hmem
      exact ⟨inside, hmem⟩
  | visited answer _ hbody hlog ihbody ih =>
    cases j with
    | zero =>
      obtain rfl := Option.some.inj hp
      exact ⟨answer, List.mem_cons_self⟩
    | succ j =>
      obtain ⟨inside, hmem⟩ := ih hp
      rw [Nat.add_assoc, Nat.add_comm 1 j] at hmem
      exact ⟨inside, by simp [hmem]⟩

/-- What is entered inside of a part is entered because the part was gone into. -/
theorem Logged.parent_entered (h : Logged a i ps log) {j k : Nat} {b : Address} {q : Part}
    {inside : Bool} (he : (⟨a ++ j :: b ++ [k], .enter q inside⟩ : Located) ∈ log) :
    ∃ p, (⟨a ++ j :: b, .enter p true⟩ : Located) ∈ log := by
  induction h generalizing j b with
  | done => exact absurd he List.not_mem_nil
  | silent hhooked _ ih => exact ih he
  | @visited a i p rest body log answer hhooked hbody hlog ihbody ih =>
    simp only [List.mem_cons, List.mem_append, mem_closing] at he ⊢
    rcases he with heq | he | ⟨-, heq⟩ | he
    · -- the place of the first part is too short
      have hlen := congrArg (fun e : Located => e.address.length) heq
      simp at hlen
    · obtain ⟨j', c, -, haddress : a ++ j :: b ++ [k] = a ++ [i] ++ j' :: c⟩ :=
        hbody.exists_number he
      simp only [List.append_assoc, List.cons_append, List.nil_append, List.append_cancel_left_eq,
        List.cons.injEq] at haddress
      obtain ⟨rfl, -⟩ := haddress
      cases b with
      | nil =>
        -- right inside the first part, which is gone into because its inside is not empty
        cases answer with
        | true => exact ⟨p, .inl rfl⟩
        | false =>
          rw [hbody.eq_nil] at he
          exact absurd he List.not_mem_nil
      | cons j'' b =>
        rw [List.append_cons a] at he ⊢
        obtain ⟨r, hr⟩ := ihbody he
        exact ⟨r, .inr (.inl hr)⟩
    · exact absurd heq (by simp)
    · obtain ⟨r, hr⟩ := ih he
      exact ⟨r, .inr (.inr (.inr hr))⟩

/-- All that is walked right inside a part that is gone into is entered. -/
theorem Logged.children_entered (h : Logged a i ps log) {x : Address} {p q : Part} {k : Nat}
    (he : (⟨x, .enter p true⟩ : Located) ∈ log) (hq : p.walked[k]? = some q)
    (hhooked : q.hooked = true) :
    ∃ inside, (⟨x ++ [k], .enter q inside⟩ : Located) ∈ log := by
  induction h with
  | done => exact absurd he List.not_mem_nil
  | silent _ _ ih => exact ih he
  | visited answer _ hbody hlog ihbody ih =>
    simp only [List.mem_cons, List.mem_append, mem_closing] at he ⊢
    rcases he with heq | he | ⟨-, heq⟩ | he
    · simp only [Located.mk.injEq, Event.enter.injEq] at heq
      obtain ⟨rfl, rfl, rfl⟩ := heq
      obtain ⟨inside, hmem⟩ := hbody.entered_top hq hhooked
      rw [Nat.zero_add] at hmem
      exact ⟨inside, .inr (.inl hmem)⟩
    · obtain ⟨inside, hmem⟩ := ihbody he
      exact ⟨inside, .inr (.inl hmem)⟩
    · exact absurd heq (by simp)
    · obtain ⟨inside, hmem⟩ := ih he
      exact ⟨inside, .inr (.inr (.inr hmem))⟩

end Logged

/-! ## The result -/

/-- The inside of an anonymous class is walked behind its arguments, and nowhere
else. -/
theorem anonymous_of_walked {p : Part} {k : Nat} {c : ClassLike} {start : Nat}
    (h : p.walked[k]? = some (.anonymous c start)) :
    ∃ arguments, p = .expr (.anonymousClass start arguments c) ∧ k = arguments.length := by
  have hmem := List.mem_of_getElem? h
  cases p with
  | stmt node =>
    cases node <;>
      simp [Part.walked, Stmt.walked, ofStmts, ofExprs, ofOption, ofItems, ofClauses, bodiesOf,
        ofMembers] at hmem
  | expr node =>
    cases node with
    | anonymousClass start' arguments c' =>
      simp only [Part.walked, Expr.walked, ofExprs, List.getElem?_append, List.getElem?_map,
        List.length_map] at h
      split at h
      · cases harg : arguments[k]? <;> simp [harg] at h
      · obtain ⟨hk, rfl, rfl⟩ : k - arguments.length = 0 ∧ c' = c ∧ start' = start := by
          simpa [List.getElem?_singleton] using h
        exact ⟨arguments, rfl, by omega⟩
    | array start form elements =>
      cases form <;> simp [Part.walked, Expr.walked, ofExprs, ofEntries] at hmem
    | _ =>
      simp [Part.walked, Expr.walked, ofStmts, ofExprs, ofOption, ofEntries] at hmem
  | member node => cases node <;> simp [Part.walked, Member.walked, ofStmts] at hmem
  | anonymous c' start' => simp [Part.walked, ofMembers] at hmem
  | parameter node => simp [Part.walked] at hmem
  | hook node => simp [Part.walked] at hmem

/-- A log of hook calls is well bracketed. A call has the place of its node, so
`a <+: e.address` says that `e` is a call for the part at `a` or for something
inside of it. -/
structure WellBracketed (tops : List Part) (log : List Located) : Prop where
  /-- Each call is for the part at its place. -/
  placed : ∀ e ∈ log, partAt? tops e.address = some e.event.node
  nested : Nested log
  /-- All calls for a part and its inside come in front of those for a later
  sibling and its inside. -/
  ordered : log.Pairwise fun e f => ¬ LeftOf f.address e.address
  top_entered : ∀ i p, tops[i]? = some p → p.hooked = true →
    ∃ inside, (⟨[i], .enter p inside⟩ : Located) ∈ log
  children_entered : ∀ a p, (⟨a, .enter p true⟩ : Located) ∈ log →
    ∀ i q, p.walked[i]? = some q → q.hooked = true →
      ∃ inside, (⟨a ++ [i], .enter q inside⟩ : Located) ∈ log
  parent_entered : ∀ a i q inside, a ≠ [] → (⟨a ++ [i], .enter q inside⟩ : Located) ∈ log →
    ∃ p, (⟨a, .enter p true⟩ : Located) ∈ log
  left_iff : ∀ a p, (⟨a, .leave p⟩ : Located) ∈ log ↔
    ∃ inside, (⟨a, .enter p inside⟩ : Located) ∈ log ∧ (inside = true ∨ p.alwaysLeft = true)
  /-- A part that is gone into is left once, behind all calls for its inside. -/
  gone_into : ∀ a p, (⟨a, .enter p true⟩ : Located) ∈ log →
    ∃ body, (∀ e ∈ body, a <+: e.address ∧ e.address ≠ a) ∧
      Encloses a (⟨a, .enter p true⟩ :: (body ++ [⟨a, .leave p⟩])) log
  /-- A statement or expression that is skipped is not left, and its inside is
  not seen. -/
  skipped : ∀ a p, (⟨a, .enter p false⟩ : Located) ∈ log → p.alwaysLeft = false →
    Encloses a [⟨a, .enter p false⟩] log
  /-- A method or anonymous class that is skipped is left at once. -/
  passed : ∀ a p, (⟨a, .enter p false⟩ : Located) ∈ log → p.alwaysLeft = true →
    Encloses a [⟨a, .enter p false⟩, ⟨a, .leave p⟩] log
  /-- An anonymous class is entered behind its arguments: each of them has been
  entered, and nothing in it is called any more. -/
  arguments_first : ∀ before after a c start inside,
    log = before ++ ⟨a, .enter (.anonymous c start) inside⟩ :: after →
      ∃ outer arguments, a = outer ++ [arguments.length] ∧
        partAt? tops outer = some (.expr (.anonymousClass start arguments c)) ∧
        ∀ i e, arguments[i]? = some e →
          (∃ answer, (⟨outer ++ [i], .enter (.expr e) answer⟩ : Located) ∈ before) ∧
            ∀ f ∈ after, ¬ outer ++ [i] <+: f.address

section Program

variable {body : List Stmt} {log : List Located}

theorem Logged.placed_top (h : Logged [] 0 (ofStmts body) log) {e : Located} (he : e ∈ log) :
    partAt? (ofStmts body) e.address = some e.event.node := by
  obtain ⟨j, b, haddress, hpart⟩ := h.placed he
  rw [haddress, List.nil_append, Nat.zero_add, hpart]

theorem Logged.parent_entered_top (h : Logged [] 0 (ofStmts body) log) {a : Address} {i : Nat}
    {q : Part} {inside : Bool} (ha : a ≠ [])
    (he : (⟨a ++ [i], .enter q inside⟩ : Located) ∈ log) :
    ∃ p, (⟨a, .enter p true⟩ : Located) ∈ log := by
  obtain ⟨j, b, rfl⟩ := List.exists_cons_of_ne_nil ha
  exact h.parent_entered he

/-- An anonymous class that is entered has its arguments in front of it in the
same expression, which was gone into. -/
theorem Logged.exists_arguments (h : Logged [] 0 (ofStmts body) log) {a : Address}
    {c : ClassLike} {start : Nat} {inside : Bool}
    (he : (⟨a, .enter (.anonymous c start) inside⟩ : Located) ∈ log) :
    ∃ outer arguments, a = outer ++ [arguments.length] ∧
      partAt? (ofStmts body) outer = some (.expr (.anonymousClass start arguments c)) ∧
      (⟨outer, .enter (.expr (.anonymousClass start arguments c)) true⟩ : Located) ∈ log := by
  have hpart := h.placed_top he
  have ha : a ≠ [] := by
    rintro rfl
    simp [partAt?] at hpart
  obtain ⟨outer, k, rfl⟩ : ∃ outer k, a = outer ++ [k] :=
    ⟨a.dropLast, a.getLast ha, (List.dropLast_concat_getLast ha).symm⟩
  by_cases houter : outer = []
  · -- at the top there are statements only
    subst houter
    simp [partAt?, ofStmts, Event.node] at hpart
  · obtain ⟨p, hp⟩ := h.parent_entered_top houter he
    have hparent := h.placed_top hp
    simp only [partAt?_concat houter, hparent, Option.bind_some, Event.node] at hpart
    obtain ⟨arguments, rfl, rfl⟩ := anonymous_of_walked hpart
    exact ⟨outer, arguments, rfl, hparent, hp⟩

theorem Logged.wellBracketed (h : Logged [] 0 (ofStmts body) log) :
    WellBracketed (ofStmts body) log where
  placed _ he := h.placed_top he
  nested := h.nested
  ordered := h.ordered
  top_entered i p hp hhooked := by simpa using h.entered_top hp hhooked
  children_entered a p he i q hq hhooked := h.children_entered he hq hhooked
  parent_entered a i q inside ha he := h.parent_entered_top ha he
  left_iff a p := h.left_iff
  gone_into a p he := by
    obtain ⟨own, -, hown, hencloses⟩ := h.encloses he
    exact ⟨own, hown, by simpa [Part.closing] using hencloses⟩
  skipped a p he hleft := by
    obtain ⟨own, hnil, -, hencloses⟩ := h.encloses he
    simpa [hnil rfl, Part.closing, hleft] using hencloses
  passed a p he hleft := by
    obtain ⟨own, hnil, -, hencloses⟩ := h.encloses he
    simpa [hnil rfl, Part.closing, hleft] using hencloses
  arguments_first before after a c start inside hlog := by
    have hclass : (⟨a, .enter (.anonymous c start) inside⟩ : Located) ∈ log := by
      rw [hlog]
      exact List.mem_append_right _ List.mem_cons_self
    obtain ⟨outer, arguments, rfl, hpart, hgone⟩ := h.exists_arguments hclass
    refine ⟨outer, arguments, rfl, hpart, ?_⟩
    intro i e hi
    have hlt : i < arguments.length := (List.getElem?_eq_some_iff.mp hi).1
    -- a call for the argument cannot come behind that for the class, which has a later number
    have hafter : ∀ f ∈ after, ¬ outer ++ [i] <+: f.address := by
      rintro f hf ⟨b, hb⟩
      have hordered := h.ordered
      rw [hlog, List.pairwise_append, List.pairwise_cons] at hordered
      refine hordered.2.1.1 f hf ?_
      rw [← hb]
      exact leftOf_of_lt hlt
    have hwalked : (Part.expr (.anonymousClass start arguments c)).walked[i]? = some (.expr e) := by
      show (ofExprs arguments ++ [.anonymous c start])[i]? = _
      rw [ofExprs, List.getElem?_append_left (by simpa using hlt), List.getElem?_map, hi]
      rfl
    obtain ⟨answer, hargument⟩ := h.children_entered hgone hwalked rfl
    refine ⟨⟨answer, ?_⟩, hafter⟩
    rw [hlog, List.mem_append, List.mem_cons] at hargument
    rcases hargument with hbefore | heq | hbehind
    · exact hbefore
    · exact absurd heq (by simp)
    · exact absurd (List.prefix_refl _) (hafter _ hbehind)

end Program

/-- The hook calls of a walk through a program are well bracketed, whatever the
hooks answer. Each call has a place in the tree such that all of `WellBracketed`
holds, and the log does not disturb the walk. -/
theorem trace_well_bracketed {σ : Type} (v : Visitor σ) (p : Program) (s : σ) :
    (v.traced.program p (s, [])).1 = v.program p s ∧
      ∃ log, log.map Located.event = (v.traced.program p (s, [])).2 ∧
        WellBracketed (ofStmts p.statements) log := by
  obtain ⟨log, hlog, htrace⟩ := v.exists_logged_parts (ofStmts p.statements) [] 0 (s, [])
  refine ⟨v.fst_traced_program p (s, []), log, ?_, hlog.wellBracketed⟩
  rw [Visitor.program_eq, htrace]
  rfl

end UpgradeNotes.Php
