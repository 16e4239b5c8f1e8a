import UpgradeNotes.Proofs.Comments.Glued
import UpgradeNotes.Proofs.Text.Utf8

/-!
# The longest run in front of a node

The scan backwards from a node looks at one gap at a time. What it finds has a description
that does not speak of gaps: neighbouring trivia in front of the node, as many as there can
be so that every byte from the start of the first one to the node is inside of one of them
or a blank (`LongestRun`). A run of trivia is glued iff its bytes are covered in this way
(`glued_eq_self_iff`), and the scan never stops too early, so there is one longest run and
it is what the scan finds (`longestRun_iff`). The comments and the docblock of a node are
those of its longest run (`attachedComments_of_longestRun`).
-/

namespace UpgradeNotes

open Php Text

/-! ## Gaps by their bytes -/

theorem blankFrom_iff {start stop offset : Nat} {cs : List Char} (hlt : start < stop) :
    blankFrom start stop offset cs = true ↔
      ∀ i b, (bytes cs)[i]? = some b → start ≤ offset + i → offset + i < stop →
        isBlankByte b = true := by
  induction cs generalizing offset with
  | nil => simp [blankFrom, bytes]
  | cons c cs ih =>
    simp only [blankFrom, Bool.or_eq_true, Bool.and_eq_true, decide_eq_true_eq, ih]
    constructor
    · rintro (hstop | ⟨hc, hrest⟩) i b hb hfrom hto
      · omega
      · rcases getElem?_bytes_cons hb with ⟨hi, hmem⟩ | ⟨hi, hb⟩
        · rw [isBlankByte_of_mem hmem]
          exact hc.resolve_left (by omega)
        · exact hrest (i - c.utf8Size) b hb (by omega) (by omega)
    · intro h
      by_cases hstop : stop ≤ offset
      · exact .inl hstop
      · refine .inr ⟨?_, ?_⟩
        · by_cases hfront : offset + c.utf8Size ≤ start
          · exact .inl hfront
          · -- a byte of the character is in the gap
            have hpos := c.utf8Size_pos
            have hi : max start offset - offset < c.utf8Size := by omega
            obtain ⟨b, hb⟩ := exists_getElem?_bytes
              (show max start offset - offset < byteLen (c :: cs) by rw [byteLen_cons]; omega)
            rcases getElem?_bytes_cons hb with ⟨-, hmem⟩ | ⟨hle, -⟩
            · rw [← isBlankByte_of_mem hmem]
              exact .inr (h _ b hb (by omega) (by omega))
            · omega
        · intro i b hb hfrom hto
          have hb' : (bytes (c :: cs))[c.utf8Size + i]? = some b := by
            rwa [getElem?_bytes_cons_add]
          exact h _ b hb' (by omega) (by omega)

/-- A gap within the source is blank iff all of its bytes are. -/
theorem blankBetween_iff {source : List Char} {start stop : Nat} (hstop : stop ≤ byteLen source) :
    blankBetween source start stop = true ↔
      ∀ i b, (bytes source)[i]? = some b → start ≤ i → i < stop → isBlankByte b = true := by
  by_cases hlt : start < stop
  · have hle : ¬ stop ≤ start := by omega
    have hin : ¬ byteLen source < stop := by omega
    simp only [blankBetween, decide_eq_false hle, decide_eq_false hin, Bool.false_or,
      blankFrom_iff hlt, Nat.zero_add]
  · have hle : stop ≤ start := by omega
    simp only [blankBetween, decide_eq_true hle, Bool.true_or, true_iff]
    intro i b _ hfrom hto
    omega

/-! ## Glued runs by their bytes -/

/-- Every byte of the source from `start` to `stop` is inside one of the trivia or a
blank. -/
def Covered (source : List Char) (ts : List Trivia) (start stop : Nat) : Prop :=
  ∀ i b, (bytes source)[i]? = some b → start ≤ i → i < stop →
    (∃ t ∈ ts, t.start ≤ i ∧ i < t.stop) ∨ isBlankByte b = true

/-- Trivia from the nearest one on, none reaching into the one before or behind `covered`. -/
structure Backwards (covered : Nat) (ts : List Trivia) : Prop where
  apart : ts.Pairwise fun t u => u.stop ≤ t.start
  forward : ∀ t ∈ ts, t.start ≤ t.stop
  before : ∀ t ∈ ts, t.stop ≤ covered

theorem Backwards.tail {covered : Nat} {t : Trivia} {rest : List Trivia}
    (h : Backwards covered (t :: rest)) : Backwards t.start rest :=
  ⟨h.apart.of_cons, fun u hu => h.forward u (List.mem_cons_of_mem _ hu),
    fun _ hu => List.rel_of_pairwise_cons h.apart hu⟩

theorem Backwards.of_isPrefix {covered : Nat} {ts us : List Trivia} (h : Backwards covered ts)
    (hus : us <+: ts) : Backwards covered us :=
  ⟨h.apart.sublist hus.sublist, fun t ht => h.forward t (hus.subset ht),
    fun t ht => h.before t (hus.subset ht)⟩

theorem Backwards.reach_le {covered : Nat} {ts : List Trivia} (h : Backwards covered ts) :
    reach covered ts ≤ covered := by
  induction ts generalizing covered with
  | nil => exact Nat.le_refl _
  | cons t rest ih =>
    have hrest := ih h.tail
    have hforward := h.forward t List.mem_cons_self
    have hbefore := h.before t List.mem_cons_self
    show reach t.start rest ≤ covered
    omega

theorem glued_cons_eq_self {source : List Char} {covered : Nat} {t : Trivia}
    {rest : List Trivia} :
    glued source covered (t :: rest) = t :: rest ↔
      blankBetween source t.stop covered = true ∧ glued source t.start rest = rest := by
  rw [glued]
  split <;> simp_all

/-- Trivia are glued iff they cover the source from the last of them on. -/
theorem glued_eq_self_iff {source : List Char} {covered : Nat} {ts : List Trivia}
    (h : Backwards covered ts) (hcovered : covered ≤ byteLen source) :
    glued source covered ts = ts ↔ Covered source ts (reach covered ts) covered := by
  induction ts generalizing covered with
  | nil =>
    refine iff_of_true rfl ?_
    intro i b _ hfrom hto
    exact absurd hto (Nat.not_lt.mpr hfrom)
  | cons t rest ih =>
    have hforward := h.forward t List.mem_cons_self
    have hbefore := h.before t List.mem_cons_self
    have hreach := h.tail.reach_le
    rw [glued_cons_eq_self, blankBetween_iff hcovered, ih h.tail (by omega)]
    constructor
    · rintro ⟨hgap, hrest⟩ i b hb hfrom hto
      -- the byte is in front of `t`, inside of it or behind it
      by_cases hfront : i < t.start
      · refine (hrest i b hb hfrom hfront).imp_left ?_
        rintro ⟨u, hu, hin⟩
        exact ⟨u, List.mem_cons_of_mem _ hu, hin⟩
      · by_cases hinside : i < t.stop
        · exact .inl ⟨t, List.mem_cons_self, by omega, hinside⟩
        · exact .inr (hgap i b hb (by omega) hto)
    · intro hall
      constructor
      · intro i b hb hfrom hto
        rcases hall i b hb (show reach t.start rest ≤ i by omega) hto with ⟨u, hu, hin⟩ | hblank
        · rcases List.mem_cons.mp hu with rfl | hu
          · omega
          · have hapart := h.tail.before u hu
            omega
        · exact hblank
      · intro i b hb hfrom hto
        rcases hall i b hb hfrom (by omega) with ⟨u, hu, hin⟩ | hblank
        · rcases List.mem_cons.mp hu with rfl | hu
          · omega
          · exact .inl ⟨u, hu, hin⟩
        · exact .inr hblank

/-- A scan does not stop in what it has found. -/
theorem glued_glued (source : List Char) (covered : Nat) (ts : List Trivia) :
    glued source covered (glued source covered ts) = glued source covered ts := by
  induction ts generalizing covered with
  | nil => rfl
  | cons t rest ih =>
    rw [glued]
    split
    · rename_i hgap
      exact glued_cons_eq_self.mpr ⟨hgap, ih t.start⟩
    · rfl

/-- A scan goes beyond all glued trivia that it starts with. -/
theorem isPrefix_glued {source : List Char} {covered : Nat} {ts us : List Trivia}
    (hus : us <+: ts) (h : glued source covered us = us) : us <+: glued source covered ts := by
  obtain ⟨rest, rfl⟩ := hus
  rw [glued_append h]
  exact List.prefix_append _ _

/-! ## Runs in front of an offset -/

/-- A run of trivia in front of `n`: neighbours in source order that start before `n` and
end there or before, so that every byte from the start of the first one to `n` is inside
one of them or a blank. -/
structure RunBefore (trivia : List Trivia) (source : List Char) (n : Nat)
    (run : List Trivia) : Prop where
  neighbours : run <:+: trivia
  before : ∀ t ∈ run, t.start < n ∧ t.stop ≤ n
  covered : ∀ first, run.head? = some first → Covered source run first.start n

/-- A run in front of `n` that has as many trivia as any other. -/
structure LongestRun (trivia : List Trivia) (source : List Char) (n : Nat)
    (run : List Trivia) : Prop where
  isRun : RunBefore trivia source n run
  longest : ∀ other, RunBefore trivia source n other → other.length ≤ run.length

variable {trivia run : List Trivia} {source : List Char} {n : Nat}

/-- Of trivia in order, those that start before `n` come first. -/
theorem filter_start_isPrefix {size : Nat} (hord : Ordered trivia size) (n : Nat) :
    trivia.filter (·.start < n) <+: trivia := by
  obtain ⟨hapart, hforward, -⟩ := hord
  induction trivia with
  | nil => exact List.prefix_rfl
  | cons t rest ih =>
    by_cases ht : t.start < n
    · rw [List.filter_cons_of_pos (by simpa using ht), List.cons_prefix_cons]
      exact ⟨rfl, ih hapart.of_cons fun u hu => hforward u (List.mem_cons_of_mem _ hu)⟩
    · have hnone : (t :: rest).filter (·.start < n) = [] := by
        rw [List.filter_eq_nil_iff]
        intro u hu
        have hle : t.start ≤ u.start := by
          rcases List.mem_cons.mp hu with rfl | hu
          · exact Nat.le_refl _
          · exact Nat.le_trans (hforward t List.mem_cons_self)
              (List.rel_of_pairwise_cons hapart hu)
        simp only [decide_eq_true_eq]
        omega
      rw [hnone]
      exact List.nil_prefix

theorem backwards_inFront {size : Nat} (hord : Ordered trivia size)
    (hout : ∀ t ∈ trivia, t.stop ≤ n ∨ n ≤ t.start) : Backwards n (inFront trivia n) := by
  constructor
  · unfold inFront
    rw [List.pairwise_reverse]
    exact hord.apart.filter _
  · intro t ht
    exact hord.forward t (mem_inFront.mp ht).1
  · intro t ht
    obtain ⟨hmem, hlt⟩ := mem_inFront.mp ht
    exact (hout t hmem).resolve_right (by omega)

/-- Read in source order, trivia are glued iff they cover the source from the first of them
on. -/
theorem glued_reverse_iff (h : Backwards n run.reverse) (hn : n ≤ byteLen source) :
    glued source n run.reverse = run.reverse ↔
      ∀ first, run.head? = some first → Covered source run first.start n := by
  rw [glued_eq_self_iff h hn]
  cases run with
  | nil =>
    refine iff_of_true ?_ nofun
    intro i b _ hfrom hto
    exact absurd hto (Nat.not_lt.mpr hfrom)
  | cons first rest =>
    rw [List.reverse_cons, reach_concat]
    simp [Covered, or_comm]

theorem runBefore_runAt {size : Nat} (hord : Ordered trivia size)
    (hout : ∀ t ∈ trivia, t.stop ≤ n ∨ n ≤ t.start) (hn : n ≤ byteLen source) :
    RunBefore trivia source n (runAt trivia source n).reverse := by
  have hprefix := glued_isPrefix source n (inFront trivia n)
  have hback := backwards_inFront hord hout
  constructor
  · have hsuffix : (runAt trivia source n).reverse <:+ trivia.filter (·.start < n) := by
      rw [← List.reverse_prefix, List.reverse_reverse]
      exact hprefix
    exact hsuffix.isInfix.trans (filter_start_isPrefix hord n).isInfix
  · intro t ht
    have hmem := hprefix.subset (List.mem_reverse.mp ht)
    exact ⟨(mem_inFront.mp hmem).2, hback.before t hmem⟩
  · rw [← glued_reverse_iff (by rw [List.reverse_reverse]; exact hback.of_isPrefix hprefix) hn,
      List.reverse_reverse]
    exact glued_glued source n _

/-- In front of `n` stand all trivia of a run there, and all in front of the run. -/
theorem inFront_of_run {before after : List Trivia} {first : Trivia} {rest : List Trivia}
    {size : Nat} (hord : Ordered (before ++ first :: rest ++ after) size)
    (hrun : ∀ t ∈ first :: rest, t.start < n) :
    inFront (before ++ first :: rest ++ after) n =
      inFront after n ++ (first :: rest).reverse ++ before.reverse := by
  have hcross := (List.pairwise_append.mp (List.pairwise_append.mp hord.apart).1).2.2
  have hbefore : ∀ t ∈ before, t.start < n := by
    intro t ht
    have hapart := hcross t ht first List.mem_cons_self
    have hforward := hord.forward t (by simp [ht])
    have hfirst := hrun first List.mem_cons_self
    omega
  rw [inFront_append, inFront_append, inFront_of_lt hrun, inFront_of_lt hbefore,
    List.append_assoc]

/-- Every run in front of `n` is part of what the scan finds: with the trivia between the
run and `n` it is glued to `n`. -/
theorem RunBefore.isPrefix_runAt {size : Nat} (h : RunBefore trivia source n run)
    (hord : Ordered trivia size) (hout : ∀ t ∈ trivia, t.stop ≤ n ∨ n ≤ t.start)
    (hn : n ≤ byteLen source) : ∃ near, near ++ run.reverse <+: runAt trivia source n := by
  cases run with
  | nil => exact ⟨[], List.nil_prefix⟩
  | cons first rest =>
    obtain ⟨before, after, rfl⟩ := h.neighbours
    have hnear : inFront after n ++ (first :: rest).reverse <+:
        inFront (before ++ first :: rest ++ after) n := by
      rw [inFront_of_run hord fun t ht => (h.before t ht).1]
      exact List.prefix_append _ _
    refine ⟨inFront after n, isPrefix_glued hnear ?_⟩
    -- what the run covers is covered by more trivia too
    rw [glued_eq_self_iff ((backwards_inFront hord hout).of_isPrefix hnear) hn, List.reverse_cons,
      ← List.append_assoc, reach_concat]
    intro i b hb hfrom hto
    refine (h.covered first rfl i b hb hfrom hto).imp_left ?_
    rintro ⟨t, ht, hin⟩
    refine ⟨t, ?_, hin⟩
    rw [List.append_assoc, ← List.reverse_cons, List.mem_append, List.mem_reverse]
    exact .inr ht

/-- There is one longest run in front of an offset of the source, and the scan finds it. -/
theorem longestRun_iff {size : Nat} (hord : Ordered trivia size)
    (hout : ∀ t ∈ trivia, t.stop ≤ n ∨ n ≤ t.start) (hn : n ≤ byteLen source) :
    LongestRun trivia source n run ↔ run = (runAt trivia source n).reverse := by
  constructor
  · intro h
    obtain ⟨near, hprefix⟩ := h.isRun.isPrefix_runAt hord hout hn
    have hlong := h.longest _ (runBefore_runAt hord hout hn)
    have hlen := hprefix.length_le
    simp only [List.length_reverse, List.length_append] at hlong hlen
    have hnear : near = [] := List.length_eq_zero_iff.mp (by omega)
    rw [hnear, List.nil_append] at hprefix
    rw [← hprefix.eq_of_length (by rw [List.length_reverse]; omega), List.reverse_reverse]
  · rintro rfl
    refine ⟨runBefore_runAt hord hout hn, ?_⟩
    intro other hother
    obtain ⟨near, hprefix⟩ := hother.isPrefix_runAt hord hout hn
    have hlen := hprefix.length_le
    simp only [List.length_reverse, List.length_append] at hlen ⊢
    omega

/-- For trivia in order and an offset of the source that is inside none of them, the
comments of a node are those of the longest run in front of it, in source order and without
blanks behind them, and its docblock is the last one of that run, none iff there is none. -/
theorem attachedComments_of_longestRun (hord : Ordered trivia (byteLen source))
    (hn : n ≤ byteLen source) (hout : ∀ t ∈ trivia, t.stop ≤ n ∨ n ≤ t.start) :
    (∃ run, LongestRun trivia source n run) ∧
      ∀ run, LongestRun trivia source n run →
        (attachedComments trivia source n).comments =
            (run.filter (·.isComment)).map (trimEnd ·.text) ∧
          (attachedComments trivia source n).doc = (run.filter (·.isDoc)).getLast? ∧
          ((attachedComments trivia source n).doc = none ↔ ∀ t ∈ run, t.isDoc = false) := by
  refine ⟨⟨_, (longestRun_iff hord hout hn).mpr rfl⟩, ?_⟩
  intro run hrun
  obtain rfl := (longestRun_iff hord hout hn).mp hrun
  rw [attachedComments_eq]
  refine ⟨?_, ?_, ?_⟩
  · simp only [commentsOf, List.filter_reverse]
  · simp only [List.filter_reverse, List.getLast?_reverse, List.head?_filter]
  · simp

/-- A node behind other code, with three comments of its own. Not all of its blanks are
trivia. -/
def gluedSource : String := "/** z */x();/* é */ // a \n/** b */\n\tf();"

def gluedTrivia : List Trivia :=
  [⟨.doc, 0, 8, "/** z */"⟩, ⟨.block, 12, 20, "/* é */"⟩, ⟨.line, 21, 26, "// a "⟩,
    ⟨.blanks, 26, 27, "\n"⟩, ⟨.doc, 27, 35, "/** b */"⟩]

theorem attachedComments_of_longestRun_sample :
    (attachedComments gluedTrivia gluedSource.toList 37).comments =
        ["/* é */", "// a", "/** b */"] ∧
      ∃ run, LongestRun gluedTrivia gluedSource.toList 37 run ∧
        (attachedComments gluedTrivia gluedSource.toList 37).comments =
            (run.filter (·.isComment)).map (trimEnd ·.text) ∧
          (attachedComments gluedTrivia gluedSource.toList 37).doc =
            (run.filter (·.isDoc)).getLast? := by
  have hord : Ordered gluedTrivia (byteLen gluedSource.toList) :=
    ⟨by decide, by decide, by decide +kernel⟩
  obtain ⟨⟨run, hrun⟩, hread⟩ :=
    attachedComments_of_longestRun hord (n := 37) (by decide +kernel) (by decide)
  obtain ⟨hcomments, hdoc, -⟩ := hread run hrun
  exact ⟨by decide +kernel, run, hrun, hcomments, hdoc⟩

/-! ## Offsets past the end -/

/-- An offset past the end of the source has no gap in front of it that could be read. It
stands for the end of the last trivium, whatever is behind that. -/
theorem attachedComments_past_end {before : List Trivia} {last : Trivia}
    (hord : Ordered (before ++ [last]) (byteLen source)) (hlast : last.start < last.stop)
    (hn : byteLen source < n) :
    attachedComments (before ++ [last]) source n =
      attachedComments (before ++ [last]) source last.stop := by
  have hinside := hord.inside last (by simp)
  have hstarts : ∀ t ∈ before ++ [last], t.start < last.stop := by
    intro t ht
    rcases List.mem_append.mp ht with hbefore | hmem
    · have hapart := (List.pairwise_append.mp hord.apart).2.2 t hbefore last
        List.mem_cons_self
      have hforward := hord.forward t ht
      omega
    · rw [List.mem_singleton.mp hmem]
      exact hlast
  have hgap : ∀ m, byteLen source < m ∨ m = last.stop →
      blankBetween source last.stop m = true := by
    rintro m (hm | rfl)
    · simp [blankBetween, hm]
    · simp [blankBetween]
  have hrun : ∀ m, byteLen source < m ∨ m = last.stop →
      runAt (before ++ [last]) source m = last :: glued source last.start before.reverse := by
    intro m hm
    have hlt : ∀ t ∈ before ++ [last], t.start < m := by
      intro t ht
      have hstart := hstarts t ht
      omega
    rw [runAt, inFront_of_lt hlt, List.reverse_append, List.reverse_singleton,
      List.singleton_append, glued, hgap m hm, if_pos rfl]
  rw [attachedComments_eq, attachedComments_eq, hrun n (.inl hn), hrun last.stop (.inr rfl)]

/-- Code between the only comment and the end of the source. -/
def overshotSource : String := "<?php /** a */ f();"

def overshotTrivia : List Trivia :=
  [⟨.blanks, 5, 6, " "⟩, ⟨.doc, 6, 14, "/** a */"⟩, ⟨.blanks, 14, 15, " "⟩]

/-- The code is not covered, so no trivium is in a run in front of an offset behind it. -/
theorem longestRun_overshot : LongestRun overshotTrivia overshotSource.toList 100 [] := by
  have hstarts : ∀ t ∈ overshotTrivia, t.start ≤ 15 ∧ ¬ (t.start ≤ 15 ∧ 15 < t.stop) := by decide
  refine ⟨⟨List.nil_infix, by simp, nofun⟩, ?_⟩
  rintro other ⟨hneighbours, -, hcovered⟩
  cases other with
  | nil => exact Nat.le_refl 0
  | cons first rest =>
    have hfirst := (hstarts first (hneighbours.subset List.mem_cons_self)).1
    have hbyte : (bytes overshotSource.toList)[15]? = some 102 := by decide +kernel
    rcases hcovered first rfl 15 102 hbyte hfirst (by decide) with ⟨t, ht, hin⟩ | hblank
    · exact absurd hin (hstarts t (hneighbours.subset ht)).2
    · exact absurd hblank (by decide)

/-- Past the end of the source a comment counts as attached across code. -/
theorem not_attachedComments_of_longestRun :
    ¬ ∀ (trivia : List Trivia) (source : List Char) (n : Nat), Ordered trivia (byteLen source) →
      Outside trivia n → ∀ run, LongestRun trivia source n run →
        (attachedComments trivia source n).comments =
          (run.filter (·.isComment)).map (trimEnd ·.text) := by
  intro hall
  have hord : Ordered overshotTrivia (byteLen overshotSource.toList) :=
    ⟨by decide, by decide, by decide +kernel⟩
  have hcomments := hall overshotTrivia overshotSource.toList 100 hord (by decide) []
    longestRun_overshot
  exact absurd hcomments (by decide +kernel)

end UpgradeNotes
