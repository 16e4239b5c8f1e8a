import UpgradeNotes.Edit

/-!
# Edits that stand apart

Edits in source order that do not reach into each other have no fault
(`Apart.fault?_eq_none`), so applying them fails at most at an offset inside a
character. A single edit whose offsets are between characters replaces exactly
its part (`applyAll_singleton`).
-/

namespace UpgradeNotes.Edit

open Text

/-- Edits in source order, each within `size` and none reaching into the
next. -/
structure Apart (edits : List Edit) (size : Nat) : Prop where
  forward : ∀ e ∈ edits, e.start ≤ e.stop
  inside : ∀ e ∈ edits, e.stop ≤ size
  apart : edits.Pairwise fun a b => a.stop ≤ b.start

theorem insertLast_of_le {e : Edit} {edits : List Edit}
    (h : ∀ x ∈ edits, x.start ≤ e.start) : insertLast e edits = e :: edits := by
  cases edits with
  | nil => rfl
  | cons x rest =>
    unfold insertLast
    rw [if_pos (h x List.mem_cons_self)]

/-- Putting edits that come in order on top of earlier ones turns them
around. -/
theorem foldl_insertLast {edits sorted : List Edit}
    (hedits : edits.Pairwise fun a b => a.start ≤ b.start)
    (hsorted : ∀ x ∈ sorted, ∀ e ∈ edits, x.start ≤ e.start) :
    edits.foldl (fun sorted e => insertLast e sorted) sorted = edits.reverse ++ sorted := by
  induction edits generalizing sorted with
  | nil => rfl
  | cons e rest ih =>
    rw [List.pairwise_cons] at hedits
    rw [List.foldl_cons, insertLast_of_le fun x hx => hsorted x hx e List.mem_cons_self, ih hedits.2]
    · rw [List.reverse_cons, List.append_assoc, List.singleton_append]
    · intro x hx f hf
      rcases List.mem_cons.mp hx with rfl | hx
      · exact hedits.1 f hf
      · exact hsorted x hx f (List.mem_cons_of_mem _ hf)

theorem Apart.fromLast_eq {edits : List Edit} {size : Nat} (h : Apart edits size) :
    fromLast edits = edits.reverse := by
  have hstarts : edits.Pairwise fun a b => a.start ≤ b.start := by
    refine h.apart.imp_of_mem ?_
    intro a b ha _ hab
    exact Nat.le_trans (h.forward a ha) hab
  unfold fromLast
  rw [foldl_insertLast hstarts fun x hx => absurd hx List.not_mem_nil, List.append_nil]

/-- Seen from the last one, such edits are in bounds and below the edit
before. -/
theorem fault?_eq_none {size : Nat} {limit : Option Nat} {edits : List Edit}
    (hforward : ∀ e ∈ edits, e.start ≤ e.stop) (hinside : ∀ e ∈ edits, e.stop ≤ size)
    (hapart : edits.Pairwise fun a b => b.stop ≤ a.start)
    (hlimit : ∀ l, limit = some l → ∀ e ∈ edits, e.stop ≤ l) :
    fault? size limit edits = none := by
  induction edits generalizing limit with
  | nil => rfl
  | cons e rest ih =>
    rw [List.pairwise_cons] at hapart
    have hmem : e ∈ e :: rest := List.mem_cons_self
    have hbounds : ¬ (size < e.stop ∨ e.stop < e.start) := by
      have h₁ := hforward e hmem
      have h₂ := hinside e hmem
      omega
    have hbelow : ¬ (limit.any (· < e.stop)) = true := by
      cases limit with
      | none => simp
      | some l =>
        have hl := hlimit l rfl e hmem
        simp only [Option.any_some, decide_eq_true_eq]
        omega
    simp only [fault?, Bool.or_eq_true, decide_eq_true_eq, if_neg hbounds, if_neg hbelow]
    refine ih (fun f hf => hforward f (List.mem_cons_of_mem _ hf))
      (fun f hf => hinside f (List.mem_cons_of_mem _ hf)) hapart.2 ?_
    intro l hl f hf
    rw [← Option.some.inj hl]
    exact hapart.1 f hf

theorem Apart.fault?_eq_none {edits : List Edit} {size : Nat} (h : Apart edits size) :
    fault? size none (fromLast edits) = none := by
  rw [h.fromLast_eq]
  refine Edit.fault?_eq_none ?_ ?_ (List.pairwise_reverse.mpr h.apart) ?_
  · intro e he
    exact h.forward e (List.mem_reverse.mp he)
  · intro e he
    exact h.inside e (List.mem_reverse.mp he)
  · intro l hl
    exact absurd hl (by simp)

/-- Applying edits that stand apart fails at most inside a character. -/
theorem Apart.eq_insideCharacter {source : String} {edits : List Edit} {fault : Error}
    (h : Apart edits (size source)) (hf : applyAll source edits = .error fault) :
    fault = .insideCharacter := by
  simp only [applyAll, h.fault?_eq_none] at hf
  split at hf
  · exact absurd hf (by simp)
  · exact (Except.error.inj hf).symm

/-- Without edits the source stays. -/
theorem applyAll_nil (source : String) : applyAll source [] = .ok source := by
  simp [applyAll, fromLast, fault?, replaceAll?]

/-- One edit replaces the part that it names. -/
theorem applyAll_singleton {source : String} {e : Edit} {front old back : List Char}
    (hsource : source.toList = front ++ old ++ back) (hstart : e.start = byteLen front)
    (hstop : e.stop = byteLen (front ++ old)) :
    applyAll source [e] = .ok (String.ofList (front ++ e.text.toList ++ back)) := by
  rw [byteLen_append] at hstop
  have happ : Apart [e] (size source) := by
    refine ⟨?_, ?_, List.pairwise_singleton _ _⟩
    · intro f hf
      rw [List.mem_singleton.mp hf]
      omega
    · intro f hf
      rw [List.mem_singleton.mp hf, size, hsource, byteLen_append, byteLen_append]
      omega
  have hcut : e.stop - byteLen front = byteLen old := by omega
  have hreplace : replace? source.toList e = some (front ++ e.text.toList ++ back) := by
    simp only [replace?, hsource, hstart, hcut, List.append_assoc, cut?_append,
      Option.bind_eq_bind, Option.bind_some]
    rfl
  simp only [applyAll, happ.fault?_eq_none]
  rw [happ.fromLast_eq]
  simp only [List.reverse_singleton, replaceAll?, hreplace, Option.bind_eq_bind, Option.bind_some]

end UpgradeNotes.Edit
