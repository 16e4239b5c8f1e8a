import UpgradeNotes.Proofs.Php.Simulation

/-!
# Traces of walks

A trace lists the calls of the hooks in the order in which a walk makes them. It
is read off a visitor that keeps a log beside the state of another one; the log
does not disturb the walk (`fst_traced_program`). A watched visitor logs with each
call the state that the hook is given (`fst_watched_program`).
-/

namespace UpgradeNotes.Php

/-- A call of a hook, on the way in with its answer. -/
inductive Event where
  | enter (node : Part) (inside : Bool)
  | leave (node : Part)

/-- Whether there are hooks for the part. -/
def Part.hooked : Part → Bool
  | .stmt _ | .expr _ | .member (.method _) | .anonymous _ _ => true
  | _ => false

/-- What is logged on the way into a part. -/
def Part.entering (p : Part) (inside : Bool) : List Event :=
  if p.hooked then [.enter p inside] else []

/-- What is logged on the way out of a part. -/
def Part.leaving (p : Part) : List Event :=
  if p.hooked then [.leave p] else []

namespace Visitor

variable {σ : Type} (v : Visitor σ)

/-- The visitor with a log of its hooks. -/
def traced : Visitor (σ × List Event) where
  enterStmt node s :=
    let r := v.enterStmt node s.1
    (r.1, r.2, s.2 ++ [.enter (.stmt node) r.1])
  leaveStmt node s := (v.leaveStmt node s.1, s.2 ++ [.leave (.stmt node)])
  enterExpr node s :=
    let r := v.enterExpr node s.1
    (r.1, r.2, s.2 ++ [.enter (.expr node) r.1])
  leaveExpr node s := (v.leaveExpr node s.1, s.2 ++ [.leave (.expr node)])
  enterMethod m s :=
    let r := v.enterMethod m s.1
    (r.1, r.2, s.2 ++ [.enter (.member (.method m)) r.1])
  leaveMethod m s := (v.leaveMethod m s.1, s.2 ++ [.leave (.member (.method m))])
  enterAnonymous c start s :=
    let r := v.enterAnonymous c start s.1
    (r.1, r.2, s.2 ++ [.enter (.anonymous c start) r.1])
  leaveAnonymous c start s :=
    (v.leaveAnonymous c start s.1, s.2 ++ [.leave (.anonymous c start)])

theorem enter_traced (p : Part) (s : σ × List Event) :
    v.traced.enter p s =
      ((v.enter p s.1).1, (v.enter p s.1).2, s.2 ++ p.entering (v.enter p s.1).1) := by
  cases p with
  | member node => cases node <;> simp [enter, traced, Part.entering, Part.hooked]
  | _ => simp [enter, traced, Part.entering, Part.hooked]

theorem leave_traced (p : Part) (s : σ × List Event) :
    v.traced.leave p s = (v.leave p s.1, s.2 ++ p.leaving) := by
  cases p with
  | member node => cases node <;> simp [leave, traced, Part.leaving, Part.hooked]
  | _ => simp [leave, traced, Part.leaving, Part.hooked]

/-- The log does not disturb the walk. -/
theorem fst_traced_program (p : Program) (s : σ × List Event) :
    (v.traced.program p s).1 = v.program p s.1 := by
  have halike : Alike (fun s t => t.1 = s) v v.traced := by
    constructor
    · rintro p s t rfl
      rw [enter_traced]
    · rintro p s t rfl
      rw [enter_traced]
    · rintro p s t rfl
      rw [leave_traced]
  exact halike.program p rfl

/-! ## Watching a walk -/

/-- A call of a hook on the way in or out, with the state that the hook is given. -/
structure HookCall (σ : Type) where
  entering : Bool
  node : Part
  state : σ

/-- What is logged when a hook of the part is called, nothing if there is none. -/
def hookCalls (entering : Bool) (node : Part) (state : σ) : List (HookCall σ) :=
  if node.hooked then [⟨entering, node, state⟩] else []

/-- The visitor with a log of the calls of its hooks. -/
def watched : Visitor (σ × List (HookCall σ)) where
  enterStmt node s :=
    let r := v.enterStmt node s.1
    (r.1, r.2, s.2 ++ [⟨true, .stmt node, s.1⟩])
  leaveStmt node s := (v.leaveStmt node s.1, s.2 ++ [⟨false, .stmt node, s.1⟩])
  enterExpr node s :=
    let r := v.enterExpr node s.1
    (r.1, r.2, s.2 ++ [⟨true, .expr node, s.1⟩])
  leaveExpr node s := (v.leaveExpr node s.1, s.2 ++ [⟨false, .expr node, s.1⟩])
  enterMethod m s :=
    let r := v.enterMethod m s.1
    (r.1, r.2, s.2 ++ [⟨true, .member (.method m), s.1⟩])
  leaveMethod m s := (v.leaveMethod m s.1, s.2 ++ [⟨false, .member (.method m), s.1⟩])
  enterAnonymous c start s :=
    let r := v.enterAnonymous c start s.1
    (r.1, r.2, s.2 ++ [⟨true, .anonymous c start, s.1⟩])
  leaveAnonymous c start s :=
    (v.leaveAnonymous c start s.1, s.2 ++ [⟨false, .anonymous c start, s.1⟩])

theorem enter_watched (p : Part) (s : σ × List (HookCall σ)) :
    v.watched.enter p s =
      ((v.enter p s.1).1, (v.enter p s.1).2, s.2 ++ hookCalls true p s.1) := by
  cases p with
  | member node => cases node <;> simp [Visitor.enter, watched, hookCalls, Part.hooked]
  | _ => simp [Visitor.enter, watched, hookCalls, Part.hooked]

theorem leave_watched (p : Part) (s : σ × List (HookCall σ)) :
    v.watched.leave p s = (v.leave p s.1, s.2 ++ hookCalls false p s.1) := by
  cases p with
  | member node => cases node <;> simp [Visitor.leave, watched, hookCalls, Part.hooked]
  | _ => simp [Visitor.leave, watched, hookCalls, Part.hooked]

/-- Being watched does not disturb the walk. -/
theorem fst_watched_program (p : Program) (s : σ × List (HookCall σ)) :
    (v.watched.program p s).1 = v.program p s.1 := by
  have halike : Alike (fun s t => t.1 = s) v v.watched := by
    constructor
    · rintro p s t rfl
      rw [enter_watched]
    · rintro p s t rfl
      rw [enter_watched]
    · rintro p s t rfl
      rw [leave_watched]
  exact halike.program p rfl

end Visitor

end UpgradeNotes.Php
