import Mathlib.Data.List.Forall2
import UpgradeNotes.Proofs.Check.Places
import UpgradeNotes.Proofs.Text.Position
import UpgradeNotes.Run

/-!
# Reported positions

A report gives each annotation by line and column. Both are true of the source, every
annotation has its note, and no two annotated places of a file are reported at one position
(`positions_true`).
-/

namespace UpgradeNotes

open Check Php Text

/-- What holds at the top of a program and goes on to the parts right inside holds of every
reached part. -/
theorem Check.Reached.induction {motive : Part → Prop} {tops : List Part}
    (htops : ∀ p ∈ tops, motive p) (hinside : ∀ q, motive q → ∀ p ∈ q.walked, motive p)
    {p : Part} {path : Path} (h : Reached tops p path) : motive p := by
  induction path generalizing p with
  | nil => exact htops p h
  | cons q rest ih => exact hinside q.1 (ih h.2) p h.1

/-- Each annotation has its note, at the position of its place. -/
theorem forall₂_notesOf (source : String) (r : CheckResult) :
    List.Forall₂ (fun a note => note.position = Position.ofOffset source.toList a.offset)
      r.annotations (Run.notesOf source r) := by
  unfold Run.notesOf
  rw [List.forall₂_map_right_iff, List.forall₂_same]
  intro a _
  rfl

/-- The position of a place between two characters is one line more than there are line
feeds in front of it, and one column more than there are characters behind the last of
these. In lexicographic order positions ascend strictly. The notes of a check are in step
with its annotations, each at the position of its place. So annotations at different places
have different positions in the report, if the nodes of the tree start between
characters. -/
theorem positions_true :
    (∀ (source : String) (offset : Nat), isBoundary offset source.toList = true →
      ∃ front back, source.toList = front ++ back ∧ byteLen front = offset ∧
        Position.ofOffset source.toList offset =
          ⟨1 + front.count '\n', 1 + (lastLine front).length⟩) ∧
    (∀ (source : String) (i j : Nat), isBoundary i source.toList = true →
      isBoundary j source.toList = true → i < j →
      (Position.ofOffset source.toList i).toPair < (Position.ofOffset source.toList j).toPair) ∧
    ∀ (p : Program) (source : String) (rules : List Rule) (index : ClassIndex),
      List.Forall₂ (fun a note => note.position = Position.ofOffset source.toList a.offset)
          (check p source rules index).annotations
          (Run.notesOf source (check p source rules index)) ∧
        ((∀ n, StartsAt (ofStmts p.statements) n → isBoundary n source.toList = true) →
          ∀ x ∈ (check p source rules index).annotations.zip
              (Run.notesOf source (check p source rules index)),
            ∀ y ∈ (check p source rules index).annotations.zip
                (Run.notesOf source (check p source rules index)),
              x.1.offset ≠ y.1.offset → x.2.position ≠ y.2.position) := by
  refine ⟨?_, ?_, ?_⟩
  · intro source offset hoffset
    obtain ⟨front, back, hsource, rfl⟩ := isBoundary_iff.mp hoffset
    refine ⟨front, back, hsource, rfl, ?_⟩
    rw [hsource]
    exact Position.ofOffset_byteLen front back
  · intro source i j hi hj hlt
    exact Position.ofOffset_lt hi hj hlt
  · intro p source rules index
    have hnotes := forall₂_notesOf source (check p source rules index)
    refine ⟨hnotes, ?_⟩
    intro hstarts x hx y hy hne hposition
    have hxstart := startsAt_of_mem_annotations (List.of_mem_zip hx).1
    have hystart := startsAt_of_mem_annotations (List.of_mem_zip hy).1
    rw [List.forall₂_zip hnotes hx, List.forall₂_zip hnotes hy] at hposition
    exact hne (Position.ofOffset_inj (hstarts _ hxstart) (hstarts _ hystart) hposition)

/-- Two calls on one line, the first on a variable whose name takes a byte more than it has
characters. -/
def twoCallsSource : String := "<?php\n$é->run(); $b->run();"

def runCall (start : Nat) (name : String) : Expr :=
  .methodCall false (.var start name) (.name "run") []

def twoCalls : Program where
  statements := [.expression 6 (runCall 6 "$é"), .expression 18 (runCall 18 "$b")]
  trivia := []
  complete := true

theorem start_of_startsAt_twoCalls {n : Nat}
    (h : StartsAt (ofStmts twoCalls.statements) n) : n = 6 ∨ n = 18 := by
  obtain ⟨p, path, hreached, hstart⟩ := h
  -- each part in a statement starts where the statement does
  have hpart : ∃ s name, (s = 6 ∨ s = 18) ∧
      (p = .stmt (.expression s (runCall s name)) ∨ p = .expr (runCall s name) ∨
        p = .expr (.var s name)) := by
    refine Reached.induction (motive := fun p => ∃ s name, (s = 6 ∨ s = 18) ∧
      (p = .stmt (.expression s (runCall s name)) ∨ p = .expr (runCall s name) ∨
        p = .expr (.var s name))) ?_ ?_ hreached
    · intro p hp
      obtain ⟨node, hnode, rfl⟩ := List.mem_map.mp hp
      rcases List.mem_pair.mp hnode with rfl | rfl
      · exact ⟨6, "$é", .inl rfl, .inl rfl⟩
      · exact ⟨18, "$b", .inr rfl, .inl rfl⟩
    · rintro q ⟨s, name, hs, rfl | rfl | rfl⟩ p hp
      · exact ⟨s, name, hs, .inr (.inl (List.mem_singleton.mp hp))⟩
      · exact ⟨s, name, hs, .inr (.inr (List.mem_singleton.mp hp))⟩
      · exact absurd hp List.not_mem_nil
  obtain ⟨s, name, hs, rfl | rfl | rfl⟩ := hpart <;>
    exact Option.some.inj hstart ▸ hs

/-- In front of the second call stand one line feed and, behind that, eleven characters in
twelve bytes. A line feed itself is the end of its line. -/
theorem positions_true_sample :
    (∃ front back, twoCallsSource.toList = front ++ back ∧ byteLen front = 18 ∧
      Position.ofOffset twoCallsSource.toList 18 =
        ⟨1 + front.count '\n', 1 + (lastLine front).length⟩) ∧
    Position.ofOffset twoCallsSource.toList 18 = ⟨2, 12⟩ ∧
    (Position.ofOffset twoCallsSource.toList 5).toPair <
      (Position.ofOffset twoCallsSource.toList 6).toPair ∧
    (check twoCalls twoCallsSource [sampleRule] {}).annotations.map (·.offset) = [6, 18] ∧
    ∀ x ∈ (check twoCalls twoCallsSource [sampleRule] {}).annotations.zip
        (Run.notesOf twoCallsSource (check twoCalls twoCallsSource [sampleRule] {})),
      ∀ y ∈ (check twoCalls twoCallsSource [sampleRule] {}).annotations.zip
          (Run.notesOf twoCallsSource (check twoCalls twoCallsSource [sampleRule] {})),
        x.1.offset ≠ y.1.offset → x.2.position ≠ y.2.position := by
  obtain ⟨htrue, hascending, hreported⟩ := positions_true
  refine ⟨htrue twoCallsSource 18 (by decide +kernel), by decide +kernel,
    hascending twoCallsSource 5 6 (by decide +kernel) (by decide +kernel) (by decide),
    by decide +kernel, (hreported twoCalls twoCallsSource [sampleRule] {}).2 ?_⟩
  intro n hn
  rcases start_of_startsAt_twoCalls hn with rfl | rfl <;> decide +kernel

end UpgradeNotes
