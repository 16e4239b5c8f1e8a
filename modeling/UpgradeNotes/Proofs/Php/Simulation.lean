import UpgradeNotes.Proofs.Php.Parts

/-!
# Walks side by side

Two visitors take the same way through every tree if their hooks agree on where
to go inside, and states that the hooks keep related stay related to the end of
the walk (`Alike.part`, `Alike.program`).
-/

namespace UpgradeNotes.Php.Visitor

variable {σ τ : Type} {v : Visitor σ} {w : Visitor τ} {R : σ → τ → Prop}

/-- Hooks of two visitors that agree on where to go inside and keep their states
related. -/
structure Alike (R : σ → τ → Prop) (v : Visitor σ) (w : Visitor τ) : Prop where
  inside : ∀ p s t, R s t → (v.enter p s).1 = (w.enter p t).1
  enter : ∀ p s t, R s t → R (v.enter p s).2 (w.enter p t).2
  leave : ∀ p s t, R s t → R (v.leave p s) (w.leave p t)

theorem related_parts {ps : List Part}
    (h : ∀ p ∈ ps, ∀ s t, R s t → R (v.part p s) (w.part p t)) {s : σ} {t : τ} (hst : R s t) :
    R (v.parts ps s) (w.parts ps t) := by
  induction ps generalizing s t with
  | nil => exact hst
  | cons p rest ih =>
    rw [parts_cons, parts_cons]
    exact ih (fun q hq => h q (List.mem_cons_of_mem _ hq)) (h p List.mem_cons_self s t hst)

/-- A walk through a part keeps states related. -/
theorem Alike.part (h : Alike R v w) (p : Part) (s : σ) (t : τ) (hst : R s t) :
    R (v.part p s) (w.part p t) := by
  induction p using Part.inner_induction generalizing s t with
  | h p ih =>
    have henter := h.enter p s t hst
    rw [part_eq, part_eq, ← h.inside p s t hst]
    split
    · exact h.leave p _ _ (related_parts (fun q hq => ih q (List.mem_append_left _ hq)) henter)
    · split
      · exact h.leave p _ _ henter
      · exact henter

/-- A walk through a program keeps states related. -/
theorem Alike.program (h : Alike R v w) (p : Program) {s : σ} {t : τ} (hst : R s t) :
    R (v.program p s) (w.program p t) := by
  rw [program_eq, program_eq]
  exact related_parts (fun q _ => h.part q) hst

end UpgradeNotes.Php.Visitor
