import UpgradeNotes.Proofs.Comments.Glued

/-!
# Trivia of a spliced source

A source `front ++ old ++ back` becomes `front ++ new ++ back`, so that what
stood behind byte `a` now stands behind byte `b`. The trivia in `front` stay,
those in `old` give way to others in `new`, and those in `back` move (`Splice`).
The result describes the new source again (`Splice.describes`), an offset outside
of all trivia stays outside (`Splice.outside_spliced`), and the run glued to a node
in `back` is the old one with the new trivia in the place of the old ones
(`Splice.runAt_eq`).
-/

namespace UpgradeNotes

open Php Text

/-- The trivia of the spliced source. -/
def spliced (before put after : List Trivia) (a b : Nat) : List Trivia :=
  before ++ put ++ after.map (Trivia.movedTo a b)

/-- A splice in front of the node at `n`: the trivia of the old source are before
it, gone with it or after it, and those put in their place stand in the new text. -/
structure Splice (before gone put after : List Trivia) (front old new back : List Char)
    (a b n : Nat) : Prop where
  old_end : byteLen (front ++ old) = a
  new_end : byteLen (front ++ new) = b
  new_pos : byteLen front < b
  described : Describes (before ++ gone ++ after) (front ++ old ++ back)
  outside : Outside (before ++ gone ++ after) n
  before_stop : ∀ t ∈ before, t.stop ≤ byteLen front
  after_start : ∀ t ∈ after, a ≤ t.start
  node_start : a ≤ n
  put_described : Describes put (front ++ new ++ back)
  put_inside : ∀ t ∈ put, byteLen front ≤ t.start ∧ t.start < b ∧ t.stop ≤ b

namespace Splice

variable {before gone put after : List Trivia} {front old new back : List Char} {a b n : Nat}
  (h : Splice before gone put after front old new back a b n)

include h

theorem before_start {t : Trivia} (ht : t ∈ before) : t.start ≤ byteLen front :=
  Nat.le_trans
    (h.described.ordered.forward t (List.mem_append_left _ (List.mem_append_left _ ht)))
    (h.before_stop t ht)

theorem after_forward {t : Trivia} (ht : t ∈ after) : t.start ≤ t.stop :=
  h.described.ordered.forward t (List.mem_append_right _ ht)

/-- What stands in front of the node in the new source ends where `back` starts. -/
theorem stop_le {t : Trivia} (ht : t ∈ before ++ put) : t.stop ≤ b := by
  rcases List.mem_append.mp ht with ht | ht
  · exact Nat.le_trans (h.before_stop t ht) (Nat.le_of_lt h.new_pos)
  · exact (h.put_inside t ht).2.2

theorem start_lt {t : Trivia} (ht : t ∈ before ++ put) : t.start < b := by
  rcases List.mem_append.mp ht with ht | ht
  · exact Nat.lt_of_le_of_lt (h.before_start ht) h.new_pos
  · exact (h.put_inside t ht).2.1

/-- The trivia of the spliced source describe it. -/
theorem describes : Describes (spliced before put after a b) (front ++ new ++ back) := by
  have hapart := h.described.apart
  rw [List.append_assoc, List.pairwise_append] at hapart
  obtain ⟨hbefore, hrest, _⟩ := hapart
  refine ⟨?_, ?_⟩
  · -- in order: within each of the three parts, and from each part to the next
    unfold spliced
    rw [List.pairwise_append, List.pairwise_append, List.pairwise_map]
    refine ⟨⟨hbefore, h.put_described.apart, ?_⟩, ?_, ?_⟩
    · intro t ht u hu
      exact Nat.le_trans (h.before_stop t ht) (h.put_inside u hu).1
    · refine (List.pairwise_append.mp hrest).2.1.imp_of_mem ?_
      intro t u ht hu htu
      have h₁ := h.after_start t ht
      have h₂ := h.after_forward ht
      simp only [Trivia.movedTo, movedTo]
      omega
    · intro t ht u hu
      obtain ⟨v, _, rfl⟩ := List.mem_map.mp hu
      exact Nat.le_trans (h.stop_le ht) (Nat.le_add_right _ _)
  · intro t ht
    unfold spliced at ht
    rcases List.mem_append.mp ht with ht | ht
    · rcases List.mem_append.mp ht with ht | ht
      · have htext := h.described.text t (List.mem_append_left _ (List.mem_append_left _ ht))
        rw [List.append_assoc] at htext ⊢
        exact slice?_before (h.before_stop t ht) htext
      · exact h.put_described.text t ht
    · obtain ⟨v, hv, rfl⟩ := List.mem_map.mp ht
      rw [← h.old_end, ← h.new_end]
      exact slice?_behind (h.old_end ▸ h.after_start v hv)
        (h.described.text v (List.mem_append_right _ hv))

/-- The node stays outside of all trivia. -/
theorem outside_spliced : Outside (spliced before put after a b) (movedTo a b n) := by
  intro t ht
  unfold spliced at ht
  rcases List.mem_append.mp ht with ht | ht
  · exact .inl (Nat.le_trans (h.stop_le ht) (Nat.le_add_right _ _))
  · obtain ⟨v, hv, rfl⟩ := List.mem_map.mp ht
    have hnode := h.node_start
    have hstart := h.after_start v hv
    simp only [Trivia.movedTo, movedTo]
    rcases h.outside v (List.mem_append_right _ hv) with hstop | hstart'
    · left
      omega
    · right
      omega

theorem isSome_cut? (hn : (cut? n (front ++ old ++ back)).isSome) :
    (cut? (movedTo a b n) (front ++ new ++ back)).isSome := by
  have hnode := h.node_start
  rw [← h.old_end] at hnode ⊢
  rw [← h.new_end]
  exact isSome_cut?_behind (front ++ new) hnode hn

/-- In front of the node stand the same trivia, moved. -/
theorem inFront_eq :
    inFront (spliced before put after a b) (movedTo a b n) =
      (inFront after n).map (Trivia.movedTo a b) ++ (put.reverse ++ before.reverse) := by
  have hlt : ∀ t ∈ before ++ put, t.start < movedTo a b n := fun t ht =>
    Nat.lt_of_lt_of_le (h.start_lt ht) (Nat.le_add_right _ _)
  have hmap : inFront (after.map (Trivia.movedTo a b)) (movedTo a b n) =
      (inFront after n).map (Trivia.movedTo a b) := by
    unfold inFront
    rw [List.filter_map, List.map_reverse]
    refine congrArg _ (congrArg _ (List.filter_congr ?_))
    intro t ht
    have hnode := h.node_start
    have hle := h.after_start t ht
    show decide (movedTo a b t.start < movedTo a b n) = decide (t.start < n)
    rw [decide_eq_decide]
    unfold movedTo
    omega
  unfold spliced
  rw [inFront_append, inFront_of_lt hlt, hmap, List.reverse_append]

/-- If the run goes back to the splice and what is put there is glued to it, then
the run goes through that and on as it did in front of the splice. -/
theorem runAt_eq
    (hnear : glued (front ++ old ++ back) n (inFront after n) = inFront after n)
    (hput : glued (front ++ new ++ back) (movedTo a b (reach n (inFront after n))) put.reverse =
      put.reverse)
    (hreach : reach (movedTo a b (reach n (inFront after n))) put.reverse = byteLen front) :
    runAt (spliced before put after a b) (front ++ new ++ back) (movedTo a b n) =
      (inFront after n).map (Trivia.movedTo a b) ++
        (put.reverse ++ glued (front ++ old ++ back) (byteLen front) before.reverse) := by
  have hmoved : glued (front ++ new ++ back) (movedTo a b n)
      ((inFront after n).map (Trivia.movedTo a b)) =
        (inFront after n).map (Trivia.movedTo a b) := by
    have hnode := h.node_start
    have hafter : ∀ t ∈ inFront after n, a ≤ t.start ∧ a ≤ t.stop := by
      intro t ht
      have hmem := (mem_inFront.mp ht).1
      exact ⟨h.after_start t hmem, Nat.le_trans (h.after_start t hmem) (h.after_forward hmem)⟩
    rw [← h.old_end] at hnode hafter ⊢
    rw [← h.new_end, glued_behind (front ++ new) back hnode hafter, hnear]
  have hfar : glued (front ++ new ++ back) (byteLen front) before.reverse =
      glued (front ++ old ++ back) (byteLen front) before.reverse := by
    rw [List.append_assoc, List.append_assoc]
    exact glued_before _ _ (Nat.le_refl _) fun t ht => h.before_start (List.mem_reverse.mp ht)
  unfold runAt
  rw [h.inFront_eq, glued_append hmoved, reach_movedTo, glued_append hput, hreach, hfar]

end Splice

end UpgradeNotes
