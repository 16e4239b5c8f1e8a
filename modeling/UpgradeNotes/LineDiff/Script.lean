/-!
# Differences between two lists of lines

A script says which lines are kept, removed and added. It is found by the
divide and conquer search for a shortest script: common lines at both ends are
set aside, and a search from both ends at once, one edit further in each round,
finds a point in the middle where the rest is divided.

Added lines are then moved up and down as far as the lines around them allow,
so that neighbouring additions meet and become one.
-/

namespace UpgradeNotes.LineDiff

/-- What happens to some lines. -/
inductive Kind where
  | keep
  | remove
  | add
deriving DecidableEq, Repr

/-- Some lines in a row with the same fate, and where they start on either
side. -/
structure Step where
  kind : Kind
  oldStart : Nat
  newStart : Nat
  size : Nat
deriving DecidableEq, Repr

/-- A part of the lines of either side. -/
structure Region where
  oldStart : Nat
  oldStop : Nat
  newStart : Nat
  newStop : Nat

namespace Region

/-- The number of old lines. -/
def oldSize (r : Region) : Nat := r.oldStop - r.oldStart

/-- The number of new lines. -/
def newSize (r : Region) : Nat := r.newStop - r.newStart

end Region

/-- The number of lines that two lists have in common from `i` and `j` on, at
most `limit`. -/
def commonLead (old new : Array String) (i j : Nat) : Nat → Nat
  | 0 => 0
  | limit + 1 =>
    if old[i]? = new[j]? && old[i]?.isSome then commonLead old new (i + 1) (j + 1) limit + 1 else 0

/-- The number of lines that two lists have in common in front of `i` and `j`,
at most `limit`. -/
def commonTail (old new : Array String) (i j : Nat) : Nat → Nat
  | 0 => 0
  | limit + 1 =>
    if i = 0 || j = 0 then 0
    else if old[i - 1]? = new[j - 1]? && old[i - 1]?.isSome then
      commonTail old new (i - 1) (j - 1) limit + 1
    else 0

/-! ## The middle -/

/-- The furthest old line reached on each diagonal, from `-center` on. -/
structure Reach where
  center : Nat
  furthest : Array Nat

namespace Reach

/-- Nothing reached, with room for `bound` diagonals on either side. -/
def start (bound : Nat) : Reach :=
  ⟨bound + 1, Array.replicate (2 * bound + 4) 0⟩

/-- The furthest line on a diagonal. -/
def get (r : Reach) (k : Int) : Nat :=
  r.furthest.getD (k + r.center).toNat 0

/-- Sets the furthest line on a diagonal. -/
def set (r : Reach) (k : Int) (x : Nat) : Reach :=
  { r with furthest := r.furthest.setIfInBounds (k + r.center).toNat x }

/-- The line where diagonal `k` is entered after `d` edits. -/
def entry (r : Reach) (d : Nat) (k : Int) : Nat :=
  if k = -(d : Int) || (k ≠ (d : Int) && r.get (k - 1) < r.get (k + 1)) then r.get (k + 1)
  else r.get (k - 1) + 1

end Reach

/-- The diagonals of round `d`, the last one first. -/
def diagonals (d : Nat) : List Int :=
  (List.range (d + 1)).map fun (i : Nat) => (d : Int) - 2 * (i : Int)

/-- A search that has met in the middle, or goes on with what it has reached. -/
inductive Search where
  | met (oldLine newLine : Nat)
  | onward (reach : Reach)

section Middle

variable (old new : Array String) (r : Region)

/-- How far the old side is longer. -/
def surplus : Int :=
  (r.oldSize : Int) - (r.newSize : Int)

/-- The lines that follow in common from `x` and `y`. -/
def followed (x : Nat) (y : Int) : Nat :=
  if 0 ≤ y && decide (x < r.oldSize) && decide (y.toNat < r.newSize) then
    commonLead old new (r.oldStart + x) (r.newStart + y.toNat)
      (min (r.oldSize - x) (r.newSize - y.toNat))
  else 0

/-- The lines that precede in common, `x` and `y` lines from the ends. -/
def preceded (x : Nat) (y : Int) : Nat :=
  if 0 ≤ y && decide (x < r.oldSize) && decide (y.toNat < r.newSize) then
    commonTail old new (r.oldStop - x) (r.newStop - y.toNat)
      (min (r.oldSize - x) (r.newSize - y.toNat))
  else 0

/-- One round from the start. If the sides differ by an odd number, the two
searches meet here. -/
def forward (d : Nat) (back : Reach) : List Int → Reach → Search
  | [], reach => .onward reach
  | k :: ks, reach =>
    let x := reach.entry d k
    let y : Int := (x : Int) - k
    let stop := x + followed old new r x y
    let reach := reach.set k stop
    let across := k - surplus r
    if surplus r % 2 ≠ 0 && decide (across.natAbs + 1 ≤ d) &&
        decide (r.oldSize ≤ stop + back.get (-across)) then
      .met (x + r.oldStart) (y.toNat + r.newStart)
    else forward d back ks reach

/-- One round from the end. If the sides differ by an even number, the two
searches meet here. -/
def backward (d : Nat) (front : Reach) : List Int → Reach → Search
  | [], reach => .onward reach
  | k :: ks, reach =>
    let x := reach.entry d k
    let y : Int := (x : Int) - k
    let more := preceded old new r x y
    let stop := x + more
    let reach := reach.set k stop
    let across := k - surplus r
    if surplus r % 2 = 0 && decide (across.natAbs ≤ d) &&
        decide (r.oldSize ≤ stop + front.get (-across)) then
      .met (r.oldStop - stop) (r.newStop - (y.toNat + more))
    else backward d front ks reach

/-- Searches from both ends, `d` edits and more. -/
def middleFrom (d : Nat) (front back : Reach) : Nat → Option (Nat × Nat)
  | 0 => none
  | fuel + 1 =>
    match forward old new r d back (diagonals d) front with
    | .met i j => some (i, j)
    | .onward front =>
      match backward old new r d front (diagonals d) back with
      | .met i j => some (i, j)
      | .onward back => middleFrom (d + 1) front back fuel

/-- The lines of either side where a region is divided. -/
def middle? : Option (Nat × Nat) :=
  let bound := (r.oldSize + r.newSize + 1) / 2 + 1
  middleFrom old new r 0 (.start bound) (.start bound) bound

end Middle

/-! ## Scripts -/

/-- A step if it is about any lines. -/
def step (kind : Kind) (oldStart newStart size : Nat) : List Step :=
  if size = 0 then [] else [⟨kind, oldStart, newStart, size⟩]

/-- A script for a region. -/
def conquer (old new : Array String) : Nat → Region → List Step
  | 0, r =>
    step .remove r.oldStart r.newStart r.oldSize ++ step .add r.oldStart r.newStart r.newSize
  | fuel + 1, r =>
    let lead := commonLead old new r.oldStart r.newStart (min r.oldSize r.newSize)
    let inner := { r with oldStart := r.oldStart + lead, newStart := r.newStart + lead }
    let tail := commonTail old new inner.oldStop inner.newStop (min inner.oldSize inner.newSize)
    let inner := { inner with oldStop := inner.oldStop - tail, newStop := inner.newStop - tail }
    let changed :=
      if inner.oldSize = 0 || inner.newSize = 0 then
        step .remove inner.oldStart inner.newStart inner.oldSize ++
          step .add inner.oldStart inner.newStart inner.newSize
      else
        match middle? old new inner with
        | some (i, j) =>
          conquer old new fuel { inner with oldStop := i, newStop := j } ++
            conquer old new fuel { inner with oldStart := i, newStart := j }
        | none =>
          step .remove inner.oldStart inner.newStart inner.oldSize ++
            step .add inner.oldStart inner.newStart inner.newSize
    step .keep r.oldStart r.newStart lead ++ changed ++
      step .keep inner.oldStop inner.newStop tail

/-! ## Moving steps -/

/-- A place in a script: the steps in front, nearest first, the step itself, and
the steps behind. -/
structure Place where
  before : List Step
  this : Step
  after : List Step

namespace Step

/-- The step with `n` lines fewer at its end. -/
def shrink (s : Step) (n : Nat) : Step :=
  { s with size := s.size - n }

/-- The step with `n` lines fewer at its start. -/
def shrinkStart (s : Step) (n : Nat) : Step :=
  { s with oldStart := s.oldStart + n, newStart := s.newStart + n, size := s.size - n }

/-- The step with `n` lines more at its end. -/
def grow (s : Step) (n : Nat) : Step :=
  { s with size := s.size + n }

/-- The step with `n` lines more at its start. -/
def growStart (s : Step) (n : Nat) : Step :=
  { s with oldStart := s.oldStart - n, newStart := s.newStart - n, size := s.size + n }

/-- The step `n` lines further up. -/
def moveUp (s : Step) (n : Nat) : Step :=
  { s with oldStart := s.oldStart - n, newStart := s.newStart - n }

/-- The step `n` lines further down. -/
def moveDown (s : Step) (n : Nat) : Step :=
  { s with oldStart := s.oldStart + n, newStart := s.newStart + n }

end Step

/-- A list of steps without an empty first one. -/
def dropEmpty : List Step → List Step
  | [] => []
  | s :: rest => if s.size = 0 then rest else s :: rest

/-- Moves a step up: added lines over equal lines in front of them, and any
change over a change of the other kind. Changes of one kind that meet are
joined. -/
def moveUp (old new : Array String) : Nat → Place → Place
  | 0, p => p
  | fuel + 1, ⟨before, this, after⟩ =>
    match before with
    | [] => ⟨before, this, after⟩
    | prev :: rest =>
      if prev.kind = .keep then
        let n := if this.kind = .add then
            commonTail old new (prev.oldStart + prev.size) (this.newStart + this.size)
              (min prev.size this.size)
          else 0
        if n = 0 then ⟨before, this, after⟩
        else
          let after := match after with
            | next :: more =>
              if next.kind = .keep then next.growStart n :: more
              else ⟨.keep, prev.oldStart + prev.size - n, this.newStart + this.size - n, n⟩ ::
                next :: more
            | [] => [⟨.keep, prev.oldStart + prev.size - n, this.newStart + this.size - n, n⟩]
          moveUp old new fuel ⟨dropEmpty (prev.shrink n :: rest), this.moveUp n, after⟩
      else if prev.kind = this.kind then
        moveUp old new fuel ⟨rest, prev.grow this.size, after⟩
      else moveUp old new fuel ⟨rest, this, prev :: after⟩

/-- Moves a step down, in the same way. -/
def moveDown (old new : Array String) : Nat → Place → Place
  | 0, p => p
  | fuel + 1, ⟨before, this, after⟩ =>
    match after with
    | [] => ⟨before, this, after⟩
    | next :: rest =>
      if next.kind = .keep then
        let n := if this.kind = .add then
            commonLead old new next.oldStart this.newStart (min next.size this.size)
          else 0
        if n = 0 then ⟨before, this, after⟩
        else
          let before := match before with
            | prev :: more =>
              if prev.kind = .keep then prev.grow n :: more
              else ⟨.keep, next.oldStart, this.newStart, n⟩ :: prev :: more
            | [] => [⟨.keep, next.oldStart, this.newStart, n⟩]
          moveDown old new fuel ⟨before, this.moveDown n, dropEmpty (next.shrinkStart n :: rest)⟩
      else if next.kind = this.kind then
        moveDown old new fuel ⟨before, this.grow next.size, rest⟩
      else moveDown old new fuel ⟨next :: before, this, rest⟩

/-- Moves every step of a kind, from the first to the last. -/
def settle (old new : Array String) (kind : Kind) (room : Nat) :
    Nat → List Step → List Step → List Step
  | 0, before, after => before.reverse ++ after
  | _, before, [] => before.reverse
  | fuel + 1, before, this :: after =>
    if this.kind = kind then
      let p := moveDown old new room (moveUp old new room ⟨before, this, after⟩)
      settle old new kind room fuel (p.this :: p.before) p.after
    else settle old new kind room fuel (this :: before) after

/-- The steps from one list of lines to another. -/
def steps (old new : Array String) : List Step :=
  let room := 2 * (old.size + new.size) + 4
  let found := conquer old new room ⟨0, old.size, 0, new.size⟩
  settle old new .add room room [] (settle old new .remove room room [] found)

end UpgradeNotes.LineDiff
