import Mathlib.Data.List.Chain
import Mathlib.Data.List.Induction
import Mathlib.Data.List.Nodup
import UpgradeNotes.Proofs.Edit.Apart
import UpgradeNotes.Proofs.Text.Offset

/-!
# Edits are one splice

Edits are carried out from the last to the first, each on what the ones before
have left. All of them together come to one pass over the source (`splice?`),
which takes the edits by their starts and, where starts are equal, in the order
of the list (`inOrder`).

Main result: `applyAll_eq_splice`.
-/

namespace UpgradeNotes.Edit

open Text

/-! ## The order of edits -/

/-- By start, and by position in the list where starts are equal. -/
def comesFirst (a b : Edit × Nat) : Bool :=
  decide (a.1.start < b.1.start) || (a.1.start == b.1.start && decide (a.2 ≤ b.2))

/-- The edits by start, in the order of the list where starts are equal. -/
def inOrder (edits : List Edit) : List Edit :=
  (edits.zipIdx.mergeSort comesFirst).map Prod.fst

theorem comesFirst_iff {a b : Edit × Nat} :
    comesFirst a b = true ↔
      a.1.start < b.1.start ∨ a.1.start = b.1.start ∧ a.2 ≤ b.2 := by
  simp [comesFirst]

/-- A numbering of the edits in order. -/
structure Numbered (edits : List Edit) (order : List (Edit × Nat)) : Prop where
  perm : order.Perm edits.zipIdx
  ordered : order.Pairwise fun a b => comesFirst a b = true

/-- A position tells which edit it is. -/
theorem eq_of_snd_eq {edits : List Edit} {a b : Edit × Nat} (ha : a ∈ edits.zipIdx)
    (hb : b ∈ edits.zipIdx) (h : a.2 = b.2) : a = b := by
  rw [List.mem_zipIdx_iff_getElem?] at ha hb
  rw [h] at ha
  exact Prod.ext (Option.some.inj (ha.symm.trans hb)) h

theorem Numbered.eq {edits : List Edit} {order other : List (Edit × Nat)}
    (h : Numbered edits order) (h' : Numbered edits other) : order = other := by
  refine List.Perm.eq_of_pairwise ?_ h.ordered h'.ordered (h.perm.trans h'.perm.symm)
  intro a b ha hb hab hba
  rw [comesFirst_iff] at hab hba
  exact eq_of_snd_eq (h.perm.mem_iff.mp ha) (h'.perm.mem_iff.mp hb) (by omega)

theorem numbered_mergeSort (edits : List Edit) :
    Numbered edits (edits.zipIdx.mergeSort comesFirst) := by
  refine ⟨List.mergeSort_perm _ _, List.pairwise_mergeSort ?_ ?_ _⟩
  · intro a b c hab hbc
    rw [comesFirst_iff] at hab hbc ⊢
    omega
  · intro a b
    rw [Bool.or_eq_true, comesFirst_iff, comesFirst_iff]
    omega

/-- An edit is put behind all that start later, in front of the rest. -/
theorem insertLast_split (e : Edit) (edits : List Edit) :
    ∃ later earlier, edits = later ++ earlier ∧ insertLast e edits = later ++ e :: earlier ∧
      (∀ x ∈ later, e.start < x.start) ∧ ∀ x ∈ earlier.head?, x.start ≤ e.start := by
  induction edits with
  | nil => exact ⟨[], [], rfl, rfl, by simp, by simp⟩
  | cons x rest ih =>
    unfold insertLast
    by_cases hx : x.start ≤ e.start
    · rw [if_pos hx]
      exact ⟨[], x :: rest, rfl, rfl, by simp, by simpa using hx⟩
    · rw [if_neg hx]
      obtain ⟨later, earlier, hrest, hinsert, hlater, hearlier⟩ := ih
      refine ⟨x :: later, earlier, by rw [hrest]; rfl, by rw [hinsert]; rfl, ?_, hearlier⟩
      intro y hy
      rcases List.mem_cons.mp hy with rfl | hy
      · omega
      · exact hlater y hy

theorem fromLast_append (edits : List Edit) (e : Edit) :
    fromLast (edits ++ [e]) = insertLast e (fromLast edits) := by
  simp [fromLast, List.foldl_append]

/-- The edits from the last one on are numbered backwards. -/
theorem exists_numbered_fromLast (edits : List Edit) :
    ∃ order, Numbered edits order ∧ (order.reverse).map Prod.fst = fromLast edits := by
  induction edits using List.reverseRecOn with
  | nil => exact ⟨[], ⟨List.Perm.refl _, List.Pairwise.nil⟩, rfl⟩
  | append_singleton edits e ih =>
    obtain ⟨order, horder, hmap⟩ := ih
    obtain ⟨later, earlier, hsplit, hinsert, hlater, hearlier⟩ := insertLast_split e (fromLast edits)
    rw [hsplit, List.map_eq_append_iff] at hmap
    obtain ⟨later', earlier', hreverse, rfl, rfl⟩ := hmap
    have heq : order = earlier'.reverse ++ later'.reverse := by
      rw [← List.reverse_append, ← hreverse, List.reverse_reverse]
    subst heq
    obtain ⟨hfront, hback, hacross⟩ := List.pairwise_append.mp horder.ordered
    have hstart : ∀ x ∈ earlier', x.1.start ≤ e.start := by
      cases earlier' with
      | nil => simp
      | cons first rest =>
        rw [List.pairwise_reverse, List.pairwise_cons] at hfront
        have hfirst : first.1.start ≤ e.start := hearlier first.1 (by simp)
        intro x hx
        rcases List.mem_cons.mp hx with rfl | hx
        · exact hfirst
        · have hbefore := comesFirst_iff.mp (hfront.1 x hx)
          omega
    have hnumber : ∀ x ∈ earlier', x.2 < edits.length := by
      intro x hx
      have hmem : x ∈ edits.zipIdx := horder.perm.mem_iff.mp (by simp [hx])
      rw [List.mem_zipIdx_iff_getElem?] at hmem
      exact (List.getElem?_eq_some_iff.mp hmem).1
    refine ⟨earlier'.reverse ++ (e, edits.length) :: later'.reverse, ⟨?_, ?_⟩, ?_⟩
    · rw [List.zipIdx_append, List.zipIdx_singleton, Nat.zero_add]
      refine List.perm_middle.trans (List.Perm.trans ?_ List.perm_append_comm)
      exact horder.perm.cons _
    · refine List.pairwise_append.mpr ⟨hfront, List.pairwise_cons.mpr ⟨?_, hback⟩, ?_⟩
      · intro x hx
        refine comesFirst_iff.mpr (.inl (hlater x.1 ?_))
        exact List.mem_map_of_mem (List.mem_reverse.mp hx)
      · intro x hx y hy
        rcases List.mem_cons.mp hy with rfl | hy
        · have hx' := List.mem_reverse.mp hx
          have hle := hstart x hx'
          have hlt := hnumber x hx'
          rw [comesFirst_iff]
          dsimp only
          omega
        · exact hacross x hx y hy
    · rw [fromLast_append, hinsert]
      simp

/-- The edits from the last one on are those in order, turned around. -/
theorem fromLast_eq_reverse_inOrder (edits : List Edit) :
    fromLast edits = (inOrder edits).reverse := by
  obtain ⟨order, horder, hmap⟩ := exists_numbered_fromLast edits
  rw [inOrder, (numbered_mergeSort edits).eq horder, ← List.map_reverse, hmap]

theorem inOrder_perm (edits : List Edit) : (inOrder edits).Perm edits := by
  have h := (numbered_mergeSort edits).perm.map Prod.fst
  rwa [List.zipIdx_map_fst] at h

theorem inOrder_ordered (edits : List Edit) :
    (inOrder edits).Pairwise fun a b => a.start ≤ b.start := by
  refine List.pairwise_map.mpr ((numbered_mergeSort edits).ordered.imp ?_)
  intro a b hab
  have hfirst := comesFirst_iff.mp hab
  omega

/-- Edits with the same start stay in the order of the list. -/
theorem filter_inOrder (edits : List Edit) (n : Nat) :
    (inOrder edits).filter (fun e => decide (e.start = n)) =
      edits.filter fun e => decide (e.start = n) := by
  have hsorted := numbered_mergeSort edits
  have hnumbers : edits.zipIdx.Pairwise fun a b => a.2 ≤ b.2 := by
    have hrange : (edits.zipIdx.map Prod.snd).Pairwise (· ≤ ·) := by
      rw [List.zipIdx_map_snd]
      exact List.pairwise_le_range'
    exact List.pairwise_map.mp hrange
  have heq : (edits.zipIdx.mergeSort comesFirst).filter (fun a => decide (a.1.start = n)) =
      edits.zipIdx.filter fun a => decide (a.1.start = n) := by
    refine List.Perm.eq_of_pairwise ?_ ?_ (hnumbers.filter _) (hsorted.perm.filter _)
    · intro a b ha hb hab hba
      exact eq_of_snd_eq (hsorted.perm.mem_iff.mp (List.mem_of_mem_filter ha))
        (List.mem_of_mem_filter hb) (Nat.le_antisymm hab hba)
    · refine List.pairwise_filter.mpr (hsorted.ordered.imp ?_)
      intro a b hab ha hb
      have hfirst := comesFirst_iff.mp hab
      simp only [decide_eq_true_eq] at ha hb
      omega
  have hmap := congrArg (List.map Prod.fst) heq
  rw [inOrder, List.filter_map]
  conv_rhs => rw [← List.zipIdx_map_fst 0 edits, List.filter_map]
  exact hmap

/-- Edits with distinct starts have one order, however they are listed. -/
theorem inOrder_eq_of_perm {edits other : List Edit} (hperm : other.Perm edits)
    (hnodup : (edits.map (·.start)).Nodup) : inOrder other = inOrder edits := by
  refine List.Perm.eq_of_pairwise ?_ (inOrder_ordered other) (inOrder_ordered edits)
    ((inOrder_perm other).trans (hperm.trans (inOrder_perm edits).symm))
  intro a b ha hb hab hba
  have ha' : a ∈ edits := hperm.mem_iff.mp ((inOrder_perm other).mem_iff.mp ha)
  have hb' : b ∈ edits := (inOrder_perm edits).mem_iff.mp hb
  exact List.inj_on_of_nodup_map hnodup ha' hb' (Nat.le_antisymm hab hba)

/-! ## Faults -/

theorem fault?_cons_eq_none_iff {size : Nat} {limit : Option Nat} {e : Edit} {rest : List Edit} :
    fault? size limit (e :: rest) = none ↔
      (e.start ≤ e.stop ∧ e.stop ≤ size) ∧ (∀ l ∈ limit, e.stop ≤ l) ∧
        fault? size (some e.start) rest = none := by
  simp only [fault?, Bool.or_eq_true, decide_eq_true_eq]
  by_cases hout : size < e.stop ∨ e.stop < e.start
  · rw [if_pos hout]
    constructor
    · intro h
      exact absurd h (by simp)
    · intro h
      omega
  · rw [if_neg hout]
    have hbounds : e.start ≤ e.stop ∧ e.stop ≤ size := by omega
    cases limit with
    | none => simp [hbounds]
    | some l =>
      by_cases hover : l < e.stop
      · simp [hover, Nat.not_le.mpr hover]
      · simp [hover, Nat.not_lt.mp hover, hbounds]

/-- Edits from the last one on have no fault iff each is in bounds and none
reaches past the start of the one before. -/
theorem fault?_eq_none_iff {size : Nat} {limit : Option Nat} {edits : List Edit} :
    fault? size limit edits = none ↔
      (∀ e ∈ edits, e.start ≤ e.stop ∧ e.stop ≤ size) ∧
        edits.IsChain (fun a b => b.stop ≤ a.start) ∧
        ∀ l ∈ limit, ∀ e ∈ edits.head?, e.stop ≤ l := by
  induction edits generalizing limit with
  | nil => simp [fault?]
  | cons e rest ih =>
    rw [fault?_cons_eq_none_iff, ih, List.isChain_cons]
    simp only [List.forall_mem_cons, List.head?_cons, Option.mem_some_iff, forall_eq']
    tauto

/-- Whether some edits can be carried out together: each is in bounds, and none
reaches past the start of the next one. -/
structure Fitting (source : String) (edits : List Edit) : Prop where
  bounds : ∀ e ∈ edits, e.start ≤ e.stop ∧ e.stop ≤ size source
  chain : (inOrder edits).IsChain fun a b => a.stop ≤ b.start

theorem fault?_fromLast_eq_none_iff (source : String) (edits : List Edit) :
    fault? (size source) none (fromLast edits) = none ↔ Fitting source edits := by
  have hmem : ∀ e, e ∈ (inOrder edits).reverse ↔ e ∈ edits := by
    intro e
    rw [List.mem_reverse, (inOrder_perm edits).mem_iff]
  rw [fromLast_eq_reverse_inOrder, fault?_eq_none_iff, List.isChain_reverse]
  simp only [hmem, Option.not_mem_none, false_imp_iff, implies_true, and_true]
  exact ⟨fun h => ⟨h.1, h.2⟩, fun h => ⟨h.bounds, h.chain⟩⟩

/-- Neighbours that do not reach into each other keep all edits apart. -/
theorem pairwise_of_isChain {edits : List Edit} (hforward : ∀ e ∈ edits, e.start ≤ e.stop)
    (h : edits.IsChain fun a b => a.stop ≤ b.start) :
    edits.Pairwise fun a b => a.stop ≤ b.start := by
  induction edits with
  | nil => exact List.Pairwise.nil
  | cons e rest ih =>
    rw [List.isChain_cons] at h
    have hrest := ih (fun f hf => hforward f (List.mem_cons_of_mem _ hf)) h.2
    refine List.pairwise_cons.mpr ⟨?_, hrest⟩
    intro f hf
    cases rest with
    | nil => exact absurd hf List.not_mem_nil
    | cons next rest =>
      have hnext := h.1 next rfl
      rcases List.mem_cons.mp hf with rfl | hf
      · exact hnext
      · have hfar := (List.pairwise_cons.mp hrest).1 f hf
        have hlong := hforward next (by simp)
        omega

theorem Apart.tail {e : Edit} {edits : List Edit} {size : Nat} (h : Apart (e :: edits) size) :
    Apart edits size :=
  ⟨fun f hf => h.forward f (List.mem_cons_of_mem _ hf),
    fun f hf => h.inside f (List.mem_cons_of_mem _ hf), (List.pairwise_cons.mp h.apart).2⟩

theorem Fitting.apart {source : String} {edits : List Edit} (h : Fitting source edits) :
    Apart (inOrder edits) (size source) := by
  have hbounds : ∀ e ∈ inOrder edits, e.start ≤ e.stop ∧ e.stop ≤ size source :=
    fun e he => h.bounds e ((inOrder_perm edits).mem_iff.mp he)
  exact ⟨fun e he => (hbounds e he).1, fun e he => (hbounds e he).2,
    pairwise_of_isChain (fun e he => (hbounds e he).1) h.chain⟩

/-! ## One pass -/

/-- A place between two characters of a text, or at one of its ends. -/
def Boundary (source : List Char) (n : Nat) : Prop :=
  ∃ front back, source = front ++ back ∧ byteLen front = n

/-- The source from byte `reached` on with some edits carried out, which come in
order: what stands in front of the first edit, its text, and the source from its
end on with the others. -/
def splice? (source : List Char) (reached : Nat) : List Edit → Option (List Char)
  | [] => slice? reached (byteLen source) source
  | e :: rest => do
    let kept ← slice? reached e.start source
    let behind ← splice? source e.stop rest
    return kept ++ e.text.toList ++ behind

/-- What stands behind a front part does not matter for the places in it. -/
theorem Boundary.of_append {front back other : List Char} {n : Nat}
    (h : Boundary (front ++ back) n) (hn : n ≤ byteLen front) : Boundary (front ++ other) n := by
  obtain ⟨a, b, hab, rfl⟩ := h
  obtain ⟨m, rfl, -⟩ := exists_between hab.symm hn
  exact ⟨a, m ++ other, by simp, rfl⟩

/-- One edit is carried out iff it starts and ends between characters. -/
theorem replace?_eq_some_iff {source result : List Char} {e : Edit} (he : e.start ≤ e.stop) :
    replace? source e = some result ↔
      ∃ front old back, source = front ++ old ++ back ∧ byteLen front = e.start ∧
        byteLen (front ++ old) = e.stop ∧ result = front ++ e.text.toList ++ back := by
  constructor
  · intro h
    simp only [replace?, Option.bind_eq_bind, Option.bind_eq_some_iff, Prod.exists] at h
    obtain ⟨front, rest, hfront, old, back, hold, hresult⟩ := h
    obtain ⟨rfl, hstart⟩ := cut?_eq_some hfront
    obtain ⟨rfl, hstop⟩ := cut?_eq_some hold
    refine ⟨front, old, back, by simp, hstart, ?_, by simpa using hresult.symm⟩
    rw [byteLen_append]
    omega
  · rintro ⟨front, old, back, rfl, hstart, hstop, rfl⟩
    have hlen : e.stop - byteLen front = byteLen old := by
      rw [byteLen_append] at hstop
      omega
    simp [replace?, ← hstart, hlen, cut?_append, List.append_assoc]

theorem replaceAll?_append (source : List Char) (first second : List Edit) :
    replaceAll? source (first ++ second) =
      (replaceAll? source first).bind fun s => replaceAll? s second := by
  induction first generalizing source with
  | nil => rfl
  | cons e rest ih =>
    simp only [List.cons_append, replaceAll?, Option.bind_eq_bind, Option.bind_assoc, ih]

/-- Edits that were carried out start and end between characters. -/
theorem boundaries_of_replaceAll? {source result : List Char} {edits : List Edit}
    (hforward : ∀ e ∈ edits, e.start ≤ e.stop)
    (hapart : edits.Pairwise fun a b => b.stop ≤ a.start)
    (h : replaceAll? source edits = some result) :
    ∀ e ∈ edits, Boundary source e.start ∧ Boundary source e.stop := by
  induction edits generalizing source with
  | nil => simp
  | cons e rest ih =>
    rw [List.pairwise_cons] at hapart
    simp only [replaceAll?, Option.bind_eq_bind, Option.bind_eq_some_iff] at h
    obtain ⟨next, hnext, hrest⟩ := h
    obtain ⟨front, old, back, rfl, hstart, hstop, rfl⟩ :=
      (replace?_eq_some_iff (hforward e List.mem_cons_self)).mp hnext
    have hforward' : ∀ f ∈ rest, f.start ≤ f.stop :=
      fun f hf => hforward f (List.mem_cons_of_mem _ hf)
    have hboundaries := ih hforward' hapart.2 hrest
    intro f hf
    rcases List.mem_cons.mp hf with rfl | hf
    · exact ⟨⟨front, old ++ back, by simp, hstart⟩, ⟨front ++ old, back, rfl, hstop⟩⟩
    · -- the other edits are in the front part, which the replacement has left as it was
      have hbelow := hapart.1 f hf
      have hf' := hforward' f hf
      obtain ⟨hfirst, hlast⟩ := hboundaries f hf
      rw [List.append_assoc] at hfirst hlast ⊢
      exact ⟨hfirst.of_append (by omega), hlast.of_append (by omega)⟩

/-- Edits in order that start and end between characters, carried out from the
last one on, are one pass over the source from any place in front of them. -/
theorem replaceAll?_reverse {front back : List Char} {edits : List Edit}
    (hreached : ∀ e ∈ edits, byteLen front ≤ e.start)
    (happ : Apart edits (byteLen (front ++ back)))
    (hboundaries : ∀ e ∈ edits, Boundary (front ++ back) e.start ∧ Boundary (front ++ back) e.stop) :
    ∃ result, splice? (front ++ back) (byteLen front) edits = some result ∧
      replaceAll? (front ++ back) edits.reverse = some (front ++ result) := by
  induction edits generalizing front back with
  | nil =>
    refine ⟨back, ?_, rfl⟩
    rw [splice?, slice?_eq_some_iff]
    exact ⟨front, [], by simp, rfl, byteLen_append front back⟩
  | cons e rest ih =>
    obtain ⟨hfirst, hlast⟩ := hboundaries e List.mem_cons_self
    have hforward := happ.forward e List.mem_cons_self
    -- the source is cut at the start and at the end of the first edit
    obtain ⟨upto, old, tail, hsource, hstart, hstop⟩ : ∃ upto old tail,
        front ++ back = upto ++ old ++ tail ∧ byteLen upto = e.start ∧
          byteLen (upto ++ old) = e.stop := by
      obtain ⟨a, b, hab, ha⟩ := hfirst
      obtain ⟨c, d, hcd, hc⟩ := hlast
      obtain ⟨m, rfl, rfl⟩ := exists_between (hab.symm.trans hcd) (by omega)
      exact ⟨a, m, d, by rw [hcd], ha, hc⟩
    obtain ⟨kept, rfl, -⟩ : ∃ kept, upto = front ++ kept ∧ back = kept ++ (old ++ tail) :=
      exists_between (by rw [hsource, List.append_assoc])
        (hstart ▸ hreached e List.mem_cons_self)
    rw [hsource] at happ hboundaries ⊢
    have hbehind : ∀ f ∈ rest, byteLen (front ++ kept ++ old) ≤ f.start := by
      intro f hf
      rw [hstop]
      exact (List.pairwise_cons.mp happ.apart).1 f hf
    obtain ⟨result, hsplice, hreplace⟩ :=
      ih hbehind happ.tail fun f hf => hboundaries f (List.mem_cons_of_mem _ hf)
    refine ⟨kept ++ e.text.toList ++ result, ?_, ?_⟩
    · have hkept : slice? (byteLen front) e.start (front ++ kept ++ old ++ tail) = some kept := by
        rw [slice?_eq_some_iff, ← hstart]
        exact ⟨front, old ++ tail, by simp, rfl, byteLen_append front kept⟩
      rw [splice?, hkept, ← hstop, hsplice]
      rfl
    · have hone : replace? (front ++ kept ++ old ++ result) e =
          some (front ++ kept ++ e.text.toList ++ result) :=
        (replace?_eq_some_iff hforward).mpr ⟨front ++ kept, old, result, rfl, hstart, hstop, rfl⟩
      rw [List.reverse_cons, replaceAll?_append, hreplace]
      simp only [Option.bind_some, replaceAll?, hone, Option.bind_eq_bind]
      simp only [List.append_assoc]

/-! ## The result -/

theorem ne_insideCharacter_of_fault? {size : Nat} {limit : Option Nat} {edits : List Edit}
    {fault : Error} (h : fault? size limit edits = some fault) : fault ≠ .insideCharacter := by
  induction edits generalizing limit with
  | nil => exact absurd h (by simp [fault?])
  | cons e rest ih =>
    simp only [fault?] at h
    split at h
    · rw [← Option.some.inj h]
      simp
    · split at h
      · rw [← Option.some.inj h]
        simp
      · exact ih h

theorem Fitting.applyAll_eq {source : String} {edits : List Edit} (h : Fitting source edits) :
    applyAll source edits =
      match replaceAll? source.toList (inOrder edits).reverse with
      | some result => .ok (String.ofList result)
      | none => .error .insideCharacter := by
  have hnone := (fault?_fromLast_eq_none_iff source edits).mpr h
  rw [fromLast_eq_reverse_inOrder] at hnone
  cases hresult : replaceAll? source.toList (inOrder edits).reverse with
  | none => simp only [applyAll, fromLast_eq_reverse_inOrder, hnone, hresult]
  | some result => simp only [applyAll, fromLast_eq_reverse_inOrder, hnone, hresult]

/-- Edits that do not fit are an error of their own, not a place inside of a
character. -/
theorem fitting_iff_no_fault (source : String) (edits : List Edit) :
    (∀ fault, applyAll source edits = .error fault → fault = .insideCharacter) ↔
      Fitting source edits := by
  constructor
  · intro h
    rw [← fault?_fromLast_eq_none_iff]
    by_contra hfault
    obtain ⟨fault, hsome⟩ := Option.ne_none_iff_exists'.mp hfault
    have herror : applyAll source edits = .error fault := by simp only [applyAll, hsome]
    exact ne_insideCharacter_of_fault? hsome (h fault herror)
  · intro h fault herror
    rw [h.applyAll_eq] at herror
    split at herror
    · exact absurd herror (by simp)
    · exact (Except.error.inj herror).symm

theorem Fitting.applyAll_eq_ok {source : String} {edits : List Edit} (h : Fitting source edits)
    (hboundaries : ∀ e ∈ edits, Boundary source.toList e.start ∧ Boundary source.toList e.stop) :
    ∃ result, splice? source.toList 0 (inOrder edits) = some result ∧
      applyAll source edits = .ok (String.ofList result) := by
  have hmem : ∀ e ∈ inOrder edits, e ∈ edits := fun e he => (inOrder_perm edits).mem_iff.mp he
  obtain ⟨result, hsplice, hreplace⟩ := @replaceAll?_reverse [] source.toList (inOrder edits)
    (fun e _ => Nat.zero_le e.start) h.apart fun e he => hboundaries e (hmem e he)
  refine ⟨result, hsplice, ?_⟩
  rw [h.applyAll_eq]
  rw [List.nil_append, List.nil_append] at hreplace
  rw [hreplace]

theorem Fitting.applyAll_eq_error {source : String} {edits : List Edit} (h : Fitting source edits)
    {e : Edit} (he : e ∈ edits)
    (hinside : ¬ (Boundary source.toList e.start ∧ Boundary source.toList e.stop)) :
    applyAll source edits = .error .insideCharacter := by
  have hmem : e ∈ (inOrder edits).reverse :=
    List.mem_reverse.mpr ((inOrder_perm edits).mem_iff.mpr he)
  rw [h.applyAll_eq]
  cases hreplace : replaceAll? source.toList (inOrder edits).reverse with
  | none => rfl
  | some result =>
    refine absurd (boundaries_of_replaceAll? ?_ ?_ hreplace e hmem) hinside
    · intro f hf
      exact h.apart.forward f (List.mem_reverse.mp hf)
    · exact List.pairwise_reverse.mpr h.apart.apart

/-- Applying edits is an error of its own exactly if they do not fit. Edits that
fit come to one pass over the source in order, unless one of them starts or ends
inside of a character. Edits with the same start keep the order of the list, and
the order of the list does not matter if all starts are distinct. -/
theorem applyAll_eq_splice (source : String) (edits : List Edit) :
    ((∀ fault, applyAll source edits = .error fault → fault = .insideCharacter) ↔
        Fitting source edits) ∧
      (Fitting source edits →
        ((∀ e ∈ edits, Boundary source.toList e.start ∧ Boundary source.toList e.stop) →
          ∃ result, splice? source.toList 0 (inOrder edits) = some result ∧
            applyAll source edits = .ok (String.ofList result)) ∧
        ((∃ e ∈ edits, ¬ (Boundary source.toList e.start ∧ Boundary source.toList e.stop)) →
          applyAll source edits = .error .insideCharacter)) ∧
      (∀ n, (inOrder edits).filter (fun e => decide (e.start = n)) =
        edits.filter fun e => decide (e.start = n)) ∧
      ∀ other : List Edit, other.Perm edits → (edits.map (·.start)).Nodup →
        applyAll source other = applyAll source edits := by
  refine ⟨fitting_iff_no_fault source edits, ?_, filter_inOrder edits, ?_⟩
  · intro h
    refine ⟨h.applyAll_eq_ok, ?_⟩
    rintro ⟨e, he, hinside⟩
    exact h.applyAll_eq_error he hinside
  · intro other hperm hnodup
    unfold applyAll
    rw [fromLast_eq_reverse_inOrder, fromLast_eq_reverse_inOrder edits,
      inOrder_eq_of_perm hperm hnodup]

-- a replacement and an insertion at its start: the one that is listed first comes first
example : (applyAll "run();" [insertion 0 "a ", ⟨0, 3, "go", ""⟩]).toOption = some "a go();" := by
  decide +kernel

end UpgradeNotes.Edit
