import UpgradeNotes.Comments
import UpgradeNotes.Proofs.Text.Offset

/-!
# The run of trivia in front of a node

The comments of a node come from the trivia that are glued to it: a run, read
backwards from the node, with nothing but blanks in its gaps (`glued`). The
comments and the docblock are read off that run (`attachFrom_eq`).

A run depends on the source in its gaps only. It is the same run when the
source changes behind it (`glued_before`), and the same run at moved offsets
when the source changes in front of it (`glued_behind`). No run reaches across
a byte that is neither blank nor part of a trivium (`exists_around_of_mem_glued`).
-/

namespace UpgradeNotes

open Php Text

/-! ## Gaps -/

theorem blankFrom_shift (k start stop offset : Nat) (cs : List Char) :
    blankFrom (k + start) (k + stop) (k + offset) cs = blankFrom start stop offset cs := by
  induction cs generalizing offset with
  | nil => rfl
  | cons c cs ih =>
    have hnext : k + offset + c.utf8Size = k + (offset + c.utf8Size) := by omega
    simp only [blankFrom, hnext, ih, Nat.add_le_add_iff_left]

/-- A gap behind some text does not look at the text. -/
theorem blankFrom_append_of_le {start stop offset : Nat} {front : List Char} (back : List Char)
    (hle : offset + byteLen front ≤ start) (hlt : start < stop) :
    blankFrom start stop offset (front ++ back) =
      blankFrom start stop (offset + byteLen front) back := by
  induction front generalizing offset with
  | nil => rfl
  | cons c front ih =>
    rw [byteLen_cons] at hle
    have hnext : offset + c.utf8Size + byteLen front = offset + byteLen (c :: front) := by
      rw [byteLen_cons]
      omega
    have h₁ : ¬ stop ≤ offset := by omega
    have h₂ : offset + c.utf8Size ≤ start := by omega
    simp only [List.cons_append, blankFrom, decide_eq_false h₁, decide_eq_true h₂, Bool.false_or,
      Bool.true_or, Bool.true_and]
    rw [ih (by omega), hnext]

/-- A gap inside some text does not look behind the text. -/
theorem blankFrom_append_of_ge {start stop offset : Nat} {front : List Char} (back : List Char)
    (hle : stop ≤ offset + byteLen front) :
    blankFrom start stop offset (front ++ back) = blankFrom start stop offset front := by
  induction front generalizing offset with
  | nil =>
    rw [byteLen_nil] at hle
    cases back with
    | nil => rfl
    | cons c back =>
      have h : stop ≤ offset := by omega
      simp [blankFrom, h]
  | cons c front ih =>
    rw [byteLen_cons] at hle
    simp only [List.cons_append, blankFrom]
    rw [ih (by omega)]

/-- Changing the source behind a gap does not change the gap. -/
theorem blankBetween_before {start stop : Nat} {front : List Char} (old new : List Char)
    (hle : stop ≤ byteLen front) :
    blankBetween (front ++ new) start stop = blankBetween (front ++ old) start stop := by
  have hin : ∀ back, ¬ byteLen (front ++ back) < stop := by
    intro back
    rw [byteLen_append]
    omega
  simp only [blankBetween, decide_eq_false (hin old), decide_eq_false (hin new)]
  rw [blankFrom_append_of_ge old (by omega), blankFrom_append_of_ge new (by omega)]

/-- Changing the source in front of a gap moves the gap. -/
theorem blankBetween_behind {start stop : Nat} {old : List Char} (new back : List Char)
    (hstart : byteLen old ≤ start) (hstop : byteLen old ≤ stop) :
    blankBetween (new ++ back) (byteLen new + (start - byteLen old))
      (byteLen new + (stop - byteLen old)) = blankBetween (old ++ back) start stop := by
  -- both sides are the gap as `back` alone has it
  have key : ∀ (front : List Char) (i j : Nat),
      blankBetween (front ++ back) (byteLen front + i) (byteLen front + j) =
        blankBetween back i j := by
    intro front i j
    simp only [blankBetween, byteLen_append, Nat.add_le_add_iff_left, Nat.add_lt_add_iff_left]
    by_cases hij : j ≤ i
    · simp [hij]
    · rw [blankFrom_append_of_le back (by omega) (by omega), Nat.zero_add]
      have h := blankFrom_shift (byteLen front) i j 0 back
      rw [Nat.add_zero] at h
      rw [h]
  obtain ⟨i, rfl⟩ := Nat.exists_eq_add_of_le hstart
  obtain ⟨j, rfl⟩ := Nat.exists_eq_add_of_le hstop
  rw [key old, Nat.add_sub_cancel_left, Nat.add_sub_cancel_left, key new]

theorem isAsciiBlank_of_blankFrom {start stop offset n : Nat} {front back : List Char} {c : Char}
    (h : blankFrom start stop offset (front ++ c :: back) = true)
    (hstart : start ≤ n) (hstop : n < stop) (hfrom : offset + byteLen front ≤ n)
    (hto : n < offset + byteLen front + c.utf8Size) : isAsciiBlank c = true := by
  induction front generalizing offset with
  | nil =>
    rw [byteLen_nil] at hfrom hto
    simp only [List.nil_append, blankFrom, Bool.or_eq_true, Bool.and_eq_true,
      decide_eq_true_eq] at h
    rcases h with h | ⟨h | h, _⟩
    · omega
    · omega
    · exact h
  | cons d front ih =>
    rw [byteLen_cons] at hfrom hto
    simp only [List.cons_append, blankFrom, Bool.or_eq_true, Bool.and_eq_true,
      decide_eq_true_eq] at h
    rcases h with h | ⟨_, h⟩
    · omega
    · exact ih h (by omega) (by omega)

/-- A gap with only blanks in it has no byte of another character. -/
theorem not_nonblankAt_of_blankBetween {source : List Char} {start stop n : Nat}
    (h : blankBetween source start stop = true) (hstart : start ≤ n) (hstop : n < stop)
    (hsize : stop ≤ byteLen source) : ¬ NonblankAt source n := by
  rintro ⟨front, c, back, rfl, hfrom, hto, hc⟩
  have hlt : ¬ stop ≤ start := by omega
  have hin : ¬ byteLen (front ++ c :: back) < stop := by omega
  simp only [blankBetween, decide_eq_false hlt, decide_eq_false hin, Bool.false_or] at h
  rw [isAsciiBlank_of_blankFrom h hstart hstop (by omega) (by omega)] at hc
  exact absurd hc (by simp)

/-! ## Runs -/

/-- Whether the trivium is a comment of any kind. -/
def Php.Trivia.isComment (t : Trivia) : Bool :=
  t.kind != .blanks

/-- Whether the trivium is a docblock. -/
def Php.Trivia.isDoc (t : Trivia) : Bool :=
  t.kind == .doc

/-- The run glued to `covered`, nearest first: trivia with only blanks between
them. -/
def glued (source : List Char) (covered : Nat) : List Trivia → List Trivia
  | [] => []
  | t :: rest => if blankBetween source t.stop covered then t :: glued source t.start rest else []

/-- Where a run from `covered` backwards begins. -/
def reach (covered : Nat) : List Trivia → Nat
  | [] => covered
  | t :: rest => reach t.start rest

theorem le_reach {covered a : Nat} {ts : List Trivia} (hcovered : a ≤ covered)
    (hts : ∀ t ∈ ts, a ≤ t.start) : a ≤ reach covered ts := by
  induction ts generalizing covered with
  | nil => exact hcovered
  | cons t rest ih =>
    exact ih (hts t List.mem_cons_self) fun u hu => hts u (List.mem_cons_of_mem _ hu)

theorem reach_concat (covered : Nat) (ts : List Trivia) (t : Trivia) :
    reach covered (ts ++ [t]) = t.start := by
  induction ts generalizing covered with
  | nil => rfl
  | cons u rest ih => exact ih u.start

/-- The comments of a run in source order. -/
def commentsOf (run : List Trivia) : List String :=
  (run.filter (·.isComment)).reverse.map (trimEnd ·.text)

theorem commentsOf_append (ts us : List Trivia) :
    commentsOf (ts ++ us) = commentsOf us ++ commentsOf ts := by
  simp [commentsOf]

theorem commentsOf_of_blanks {ts : List Trivia} (h : ∀ t ∈ ts, t.kind = .blanks) :
    commentsOf ts = [] := by
  have hnone : ts.filter (·.isComment) = [] := by
    rw [List.filter_eq_nil_iff]
    intro t ht
    simp [Trivia.isComment, h t ht]
  rw [commentsOf, hnone]
  rfl

theorem commentsOf_cons_doc {t : Trivia} (h : t.isDoc = true) (run : List Trivia) :
    commentsOf (t :: run) = commentsOf run ++ [trimEnd t.text] := by
  have hk : t.kind = .doc := by simpa [Trivia.isDoc] using h
  simp [commentsOf, Trivia.isComment, hk]

/-- The comments and the docblock of a node are those of its run. -/
theorem attachFrom_eq (source : List Char) (covered : Nat) (ts : List Trivia) :
    attachFrom source covered ts =
      { comments := commentsOf (glued source covered ts)
        doc := (glued source covered ts).find? (·.isDoc) } := by
  induction ts generalizing covered with
  | nil => rfl
  | cons t rest ih =>
    simp only [attachFrom, glued]
    split
    · rw [ih]
      cases hk : t.kind <;> simp [commentsOf, Trivia.isComment, Trivia.isDoc, hk]
    · rfl

theorem glued_isPrefix (source : List Char) (covered : Nat) (ts : List Trivia) :
    glued source covered ts <+: ts := by
  induction ts generalizing covered with
  | nil => exact List.prefix_rfl
  | cons t rest ih =>
    simp only [glued]
    split
    · exact List.cons_prefix_cons.mpr ⟨rfl, ih t.start⟩
    · exact List.nil_prefix

/-- A run that takes in all of `ts` goes on behind them. -/
theorem glued_append {source : List Char} {covered : Nat} {ts : List Trivia}
    (h : glued source covered ts = ts) (us : List Trivia) :
    glued source covered (ts ++ us) = ts ++ glued source (reach covered ts) us := by
  induction ts generalizing covered with
  | nil => rfl
  | cons t rest ih =>
    simp only [glued] at h
    split at h
    · rename_i hgap
      rw [List.cons.injEq] at h
      simp only [List.cons_append, glued, hgap, if_true, reach, ih h.2]
    · exact absurd h (by simp)

/-- A run that goes beyond `ts` takes in all of them. -/
theorem glued_eq_append {source : List Char} {covered : Nat} {ts us run : List Trivia}
    (h : glued source covered (ts ++ us) = ts ++ run) :
    glued source covered ts = ts ∧ glued source (reach covered ts) us = run := by
  induction ts generalizing covered with
  | nil => exact ⟨rfl, h⟩
  | cons t rest ih =>
    simp only [List.cons_append, glued] at h
    split at h
    · rename_i hgap
      rw [List.cons.injEq] at h
      obtain ⟨hrest, hrun⟩ := ih h.2
      exact ⟨by simp only [glued, hgap, if_true, hrest], hrun⟩
    · exact absurd h (by simp)

/-- The docblock of a run is the nearest one. -/
theorem find?_isDoc_append {near : List Trivia} {doc : Trivia}
    (hnear : ∀ t ∈ near, t.isDoc = false) (hdoc : doc.isDoc = true) (far : List Trivia) :
    (near ++ doc :: far).find? (·.isDoc) = some doc := by
  have hnone : near.find? (·.isDoc) = none := by
    rw [List.find?_eq_none]
    intro t ht
    simp [hnear t ht]
  rw [List.find?_append, hnone, Option.none_or, List.find?_cons_of_pos hdoc]

/-- If a run has a docblock, it goes back to the nearest one. -/
theorem glued_of_find?_doc {source : List Char} {covered : Nat} {near far : List Trivia}
    {doc found : Trivia} (hnear : ∀ t ∈ near, t.isDoc = false) (hdoc : doc.isDoc = true)
    (h : (glued source covered (near ++ doc :: far)).find? (·.isDoc) = some found) :
    found = doc ∧
      ∃ run, glued source covered (near ++ doc :: far) = near ++ doc :: run := by
  obtain ⟨rest, hrest⟩ := glued_isPrefix source covered (near ++ doc :: far)
  rcases List.append_eq_append_iff.mp hrest with ⟨m, hm, _⟩ | ⟨m, hm, hsplit⟩
  · -- the run stops before the docblock, so it has none
    have hmem : found ∈ near := by
      rw [hm]
      exact List.mem_append_left _ (List.mem_of_find?_eq_some h)
    have hfound := List.find?_some h
    rw [hnear found hmem] at hfound
    exact absurd hfound (by simp)
  · cases m with
    | nil =>
      have hmem : found ∈ near := by
        have := List.mem_of_find?_eq_some h
        rwa [hm, List.append_nil] at this
      have hfound := List.find?_some h
      rw [hnear found hmem] at hfound
      exact absurd hfound (by simp)
    | cons d run =>
      rw [List.cons_append, List.cons.injEq] at hsplit
      obtain ⟨rfl, _⟩ := hsplit
      refine ⟨?_, run, hm⟩
      rw [hm, find?_isDoc_append hnear hdoc] at h
      exact (Option.some.inj h).symm

/-- Between a trivium of the run and the node, every byte that is not blank is
inside a trivium. -/
theorem exists_around_of_mem_glued {source : List Char} {covered n : Nat} {ts : List Trivia}
    {t : Trivia} (hmem : t ∈ glued source covered ts) (hcovered : covered ≤ byteLen source)
    (hts : ∀ u ∈ ts, u.start ≤ byteLen source) (hstop : t.stop ≤ n) (hn : n < covered)
    (hink : NonblankAt source n) : ∃ u ∈ ts, u.start ≤ n ∧ n < u.stop := by
  induction ts generalizing covered with
  | nil => exact absurd hmem List.not_mem_nil
  | cons u rest ih =>
    simp only [glued] at hmem
    split at hmem
    · rename_i hgap
      -- the byte is behind `u`, inside of it or in front of it
      by_cases hbehind : u.stop ≤ n
      · exact absurd hink (not_nonblankAt_of_blankBetween hgap hbehind hn hcovered)
      · by_cases hinside : u.start ≤ n
        · exact ⟨u, List.mem_cons_self, hinside, by omega⟩
        · rcases List.mem_cons.mp hmem with rfl | hmem
          · omega
          · obtain ⟨v, hv, hvn⟩ := ih hmem (hts u List.mem_cons_self)
              (fun w hw => hts w (List.mem_cons_of_mem _ hw)) (by omega)
            exact ⟨v, List.mem_cons_of_mem _ hv, hvn⟩
    · exact absurd hmem List.not_mem_nil

/-! ## Runs in a changed source -/

/-- The offset of what stood `i - a` bytes behind `a` and now stands as far
behind `b`. -/
def movedTo (a b i : Nat) : Nat :=
  b + (i - a)

/-- The trivium at moved offsets. -/
def Php.Trivia.movedTo (a b : Nat) (t : Trivia) : Trivia :=
  { t with start := UpgradeNotes.movedTo a b t.start, stop := UpgradeNotes.movedTo a b t.stop }

/-- A run in front of a change is not changed. -/
theorem glued_before {covered : Nat} {front : List Char} {ts : List Trivia}
    (old new : List Char) (hcovered : covered ≤ byteLen front)
    (hts : ∀ t ∈ ts, t.start ≤ byteLen front) :
    glued (front ++ new) covered ts = glued (front ++ old) covered ts := by
  induction ts generalizing covered with
  | nil => rfl
  | cons t rest ih =>
    simp only [glued]
    rw [blankBetween_before old new hcovered,
      ih (hts t List.mem_cons_self) fun u hu => hts u (List.mem_cons_of_mem _ hu)]

/-- A run behind a change is moved. -/
theorem glued_behind {covered : Nat} {old : List Char} {ts : List Trivia} (new back : List Char)
    (hcovered : byteLen old ≤ covered)
    (hts : ∀ t ∈ ts, byteLen old ≤ t.start ∧ byteLen old ≤ t.stop) :
    glued (new ++ back) (movedTo (byteLen old) (byteLen new) covered)
        (ts.map (Trivia.movedTo (byteLen old) (byteLen new))) =
      (glued (old ++ back) covered ts).map (Trivia.movedTo (byteLen old) (byteLen new)) := by
  induction ts generalizing covered with
  | nil => rfl
  | cons t rest ih =>
    obtain ⟨hstart, hstop⟩ := hts t List.mem_cons_self
    have hgap := blankBetween_behind new back hstop hcovered
    simp only [List.map_cons, glued, Trivia.movedTo, movedTo, hgap]
    split
    · rw [List.map_cons]
      exact congrArg (List.cons (t.movedTo _ _))
        (ih hstart fun u hu => hts u (List.mem_cons_of_mem _ hu))
    · rfl

theorem commentsOf_movedTo (a b : Nat) (run : List Trivia) :
    commentsOf (run.map (Trivia.movedTo a b)) = commentsOf run := by
  unfold commentsOf
  rw [List.filter_map, ← List.map_reverse, List.map_map]
  rfl

theorem reach_movedTo (a b covered : Nat) (ts : List Trivia) :
    reach (movedTo a b covered) (ts.map (Trivia.movedTo a b)) = movedTo a b (reach covered ts) := by
  induction ts generalizing covered with
  | nil => rfl
  | cons t rest ih => exact ih t.start

/-! ## The trivia of a source -/

/-- Trivia in source order, none reaching into the next, all within `size`. -/
structure Ordered (trivia : List Trivia) (size : Nat) : Prop where
  apart : trivia.Pairwise fun t u => t.stop ≤ u.start
  forward : ∀ t ∈ trivia, t.start ≤ t.stop
  inside : ∀ t ∈ trivia, t.stop ≤ size

/-- Trivia in source order, none reaching into the next, each with the text
that stands in its place. -/
structure Describes (trivia : List Trivia) (source : List Char) : Prop where
  apart : trivia.Pairwise fun t u => t.stop ≤ u.start
  text : ∀ t ∈ trivia, slice? t.start t.stop source = some t.text.toList

/-- The offset is in none of the trivia. -/
def Outside (trivia : List Trivia) (n : Nat) : Prop :=
  ∀ t ∈ trivia, t.stop ≤ n ∨ n < t.start

instance (trivia : List Trivia) (n : Nat) : Decidable (Outside trivia n) :=
  inferInstanceAs (Decidable (∀ t ∈ trivia, t.stop ≤ n ∨ n < t.start))

theorem Describes.ordered {trivia : List Trivia} {source : List Char}
    (h : Describes trivia source) : Ordered trivia (byteLen source) := by
  refine ⟨h.apart, ?_, ?_⟩
  · intro t ht
    obtain ⟨_, _, _, _, hstop⟩ := slice?_eq_some_iff.mp (h.text t ht)
    omega
  · intro t ht
    obtain ⟨a, b, hcs, ha, hstop⟩ := slice?_eq_some_iff.mp (h.text t ht)
    rw [hcs, byteLen_append, byteLen_append]
    omega

/-- The trivia that start in front of `n`, nearest first. -/
def inFront (trivia : List Trivia) (n : Nat) : List Trivia :=
  (trivia.filter (·.start < n)).reverse

/-- The run glued to the node at `n`, nearest first. -/
def runAt (trivia : List Trivia) (source : List Char) (n : Nat) : List Trivia :=
  glued source n (inFront trivia n)

theorem mem_inFront {trivia : List Trivia} {n : Nat} {t : Trivia} :
    t ∈ inFront trivia n ↔ t ∈ trivia ∧ t.start < n := by
  simp [inFront]

theorem inFront_append (ts us : List Trivia) (n : Nat) :
    inFront (ts ++ us) n = inFront us n ++ inFront ts n := by
  simp [inFront]

theorem inFront_of_lt {trivia : List Trivia} {n : Nat} (h : ∀ t ∈ trivia, t.start < n) :
    inFront trivia n = trivia.reverse := by
  unfold inFront
  rw [List.filter_eq_self.mpr fun t ht => decide_eq_true (h t ht)]

theorem inFront_of_ge {trivia : List Trivia} {n : Nat} (h : ∀ t ∈ trivia, n ≤ t.start) :
    inFront trivia n = [] := by
  unfold inFront
  rw [List.reverse_eq_nil_iff, List.filter_eq_nil_iff]
  intro t ht
  have hle := h t ht
  simp only [decide_eq_true_eq]
  omega

theorem attachedComments_eq (trivia : List Trivia) (source : List Char) (n : Nat) :
    attachedComments trivia source n =
      ⟨commentsOf (runAt trivia source n), (runAt trivia source n).find? (·.isDoc)⟩ :=
  attachFrom_eq _ _ _

/-- If the run at `n` has a docblock, it goes back to the nearest one, and from
there on in the same way. -/
theorem runAt_of_doc {before after : List Trivia} {doc found : Trivia} {source : List Char}
    {n size : Nat} (hord : Ordered (before ++ [doc] ++ after) size) (hlt : doc.start < n)
    (hdoc : doc.isDoc = true) (hafter : ∀ t ∈ after, t.start < n → t.isDoc = false)
    (hfound : (runAt (before ++ [doc] ++ after) source n).find? (·.isDoc) = some found) :
    glued source n (inFront after n) = inFront after n ∧
      blankBetween source doc.stop (reach n (inFront after n)) = true ∧
      runAt (before ++ [doc] ++ after) source n =
        inFront after n ++ doc :: glued source doc.start before.reverse := by
  have hcross := (List.pairwise_append.mp (List.pairwise_append.mp hord.apart).1).2.2
  have hstarts : ∀ t ∈ before ++ [doc], t.start < n := by
    intro t ht
    rcases List.mem_append.mp ht with ht | ht
    · have h₁ := hcross t ht doc List.mem_cons_self
      have h₂ := hord.forward t (List.mem_append_left _ (List.mem_append_left _ ht))
      omega
    · rw [List.mem_singleton.mp ht]
      exact hlt
  have hfront : inFront (before ++ [doc] ++ after) n = inFront after n ++ doc :: before.reverse := by
    rw [inFront_append, inFront_of_lt hstarts, List.reverse_append, List.reverse_singleton,
      List.singleton_append]
  have hnear : ∀ t ∈ inFront after n, t.isDoc = false := fun t ht =>
    hafter t (mem_inFront.mp ht).1 (mem_inFront.mp ht).2
  unfold runAt at hfound ⊢
  rw [hfront] at hfound ⊢
  obtain ⟨_, run, hrun⟩ := glued_of_find?_doc hnear hdoc hfound
  obtain ⟨hwhole, hback⟩ := glued_eq_append hrun
  simp only [glued] at hback
  split at hback
  · rename_i hgap
    rw [List.cons.injEq] at hback
    exact ⟨hwhole, hgap, by rw [hrun, hback.2]⟩
  · exact absurd hback (by simp)

theorem mem_of_mem_runAt {trivia : List Trivia} {source : List Char} {n : Nat} {t : Trivia}
    (h : t ∈ runAt trivia source n) : t ∈ trivia ∧ t.start < n :=
  mem_inFront.mp ((glued_isPrefix _ _ _).subset h)

end UpgradeNotes
