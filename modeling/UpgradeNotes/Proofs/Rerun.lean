import UpgradeNotes.Proofs.Comments.Splice
import UpgradeNotes.Proofs.Edit.Apart
import UpgradeNotes.Proofs.Pending

/-!
# Running again

Rules write on the documentation of a node, the edit is applied, and the new
source is read. Then the same rules have nothing to write any more
(`rerun_adds_nothing`): the node has the docblock that was written, all its
other comments are where they were, and every line is refused.

What the second reading finds is the relation `Rescan`: the new docblock is one
docblock, and all that stands behind it has moved.
-/

namespace UpgradeNotes

open Php Text Docblock

/-! ## The second reading -/

/-- A docblock that starts at an offset. -/
def docAt (start : Nat) (text : String) : Trivia :=
  ⟨.doc, start, start + size text, text⟩

/-- Blanks that start at an offset. -/
def blanksAt (start : Nat) (text : String) : Trivia :=
  ⟨.blanks, start, start + size text, text⟩

/-- What is read once the edit of `p` is applied: from the trivia of the old
source, the trivia of the new one and the new start of the node. -/
inductive Rescan (p : Pending) : List Trivia → List Trivia → Nat → Prop
  /-- There is no edit, and nothing has moved. -/
  | same (trivia : List Trivia) : p.edit? = none → Rescan p trivia trivia p.start
  /-- The docblock nearest to the node is replaced by one docblock. -/
  | replaced (before after : List Trivia) (old : Trivia) (doc : String) :
      p.edit?.isSome → p.target.doc = some doc → p.span = some (old.start, old.stop) →
      old.isDoc = true → (∀ t ∈ after, t.start < p.start → t.isDoc = false) →
      Rescan p (before ++ [old] ++ after)
        (spliced before [docAt old.start doc] after old.stop (old.start + size doc))
        (movedTo old.stop (old.start + size doc) p.start)
  /-- In front of the node one docblock is inserted, with blanks behind it. -/
  | inserted (before after : List Trivia) (doc : String) :
      p.edit?.isSome → p.target.doc = some doc → p.span = none →
      (∀ t ∈ before, t.start < p.start) → (∀ t ∈ after, p.start ≤ t.start) →
      Rescan p (before ++ after)
        (spliced before
          [docAt p.start doc, blanksAt (p.start + size doc) ("\n" ++ p.target.indent)] after
          p.start (p.start + size doc + size ("\n" ++ p.target.indent)))
        (movedTo p.start (p.start + size doc + size ("\n" ++ p.target.indent)) p.start)

/-- A docblock as it stands in a source. -/
theorem describes_docAt (front back : List Char) (doc : String) :
    Describes [docAt (byteLen front) doc] (front ++ doc.toList ++ back) := by
  refine ⟨List.pairwise_singleton _ _, ?_⟩
  intro t ht
  rw [List.mem_singleton.mp ht, slice?_eq_some_iff]
  exact ⟨front, back, rfl, rfl, rfl⟩

/-- What holds of a second reading: the trivia describe the new source, the node
still starts outside of them, its docblock is `doc`, and around it stand the
comments that stood around the docblock before. -/
structure Resumed (was : Target) (doc : Option String) (trivia : List Trivia)
    (source : List Char) (n : Nat) : Prop where
  describes : Describes trivia source
  outside : Outside trivia n
  starts : (cut? n source).isSome
  doc_eq : (Pending.new trivia source n).target.doc = doc
  comments_eq : ∃ front back,
    was.comments = front ++ was.doc.toList.map trimEnd ++ back ∧
      (Pending.new trivia source n).target.comments = front ++ doc.toList.map trimEnd ++ back

theorem size_pos {doc : String} (h : doc ≠ "") : 0 < size doc := by
  rcases Nat.eq_zero_or_pos (size doc) with hz | hpos
  · exact absurd (String.toList_inj.mp (eq_nil_of_byteLen hz)) h
  · exact hpos

/-- A splice that puts a docblock with only blanks behind it in front of a node, where the
run of the node goes back to the splice: the docblock is the nearest one of the node, and
the comments on both sides of it stay. -/
theorem Splice.resumed {before gone blanks after : List Trivia} {front old new back : List Char}
    {a b n start : Nat} {doc : String} {was : Target}
    (h : Splice before gone (docAt start doc :: blanks) after front old new back a b n)
    (hstart : byteLen front = start) (hn : (cut? n (front ++ old ++ back)).isSome)
    (hblanks : ∀ t ∈ blanks, t.kind = .blanks)
    (hnear : glued (front ++ old ++ back) n (inFront after n) = inFront after n)
    (hdocs : ∀ t ∈ inFront after n, t.isDoc = false)
    (hput : glued (front ++ new ++ back) (movedTo a b (reach n (inFront after n)))
      (docAt start doc :: blanks).reverse = (docAt start doc :: blanks).reverse)
    (hwas : was.comments =
      commentsOf (glued (front ++ old ++ back) start before.reverse) ++
        was.doc.toList.map trimEnd ++ commentsOf (inFront after n)) :
    Resumed was (some doc) (spliced before (docAt start doc :: blanks) after a b)
      (front ++ new ++ back) (movedTo a b n) := by
  subst hstart
  have hrun : runAt (spliced before (docAt (byteLen front) doc :: blanks) after a b)
      (front ++ new ++ back) (movedTo a b n) =
      ((inFront after n).map (Trivia.movedTo a b) ++ blanks.reverse) ++
        docAt (byteLen front) doc ::
          glued (front ++ old ++ back) (byteLen front) before.reverse := by
    rw [h.runAt_eq hnear hput (by rw [List.reverse_cons, reach_concat]; rfl), List.reverse_cons]
    simp only [List.append_assoc, List.singleton_append]
  have hplain : ∀ t ∈ (inFront after n).map (Trivia.movedTo a b) ++ blanks.reverse,
      t.isDoc = false := by
    intro t ht
    rcases List.mem_append.mp ht with ht | ht
    · obtain ⟨u, hu, rfl⟩ := List.mem_map.mp ht
      exact hdocs u hu
    · rw [Trivia.isDoc, hblanks t (List.mem_reverse.mp ht)]
      rfl
  refine ⟨h.describes, h.outside_spliced, h.isSome_cut? hn, ?_, ?_⟩
  · rw [Pending.new_doc, hrun, find?_isDoc_append hplain rfl]
    rfl
  · refine ⟨_, _, hwas, ?_⟩
    rw [Pending.new_comments, hrun, commentsOf_append, commentsOf_append, commentsOf_cons_doc rfl,
      commentsOf_movedTo, commentsOf_of_blanks fun t ht => hblanks t (List.mem_reverse.mp ht)]
    rfl

/-- A docblock in the place of another one is a splice. -/
theorem splice_replaced {before after : List Trivia} {old : Trivia} {doc : String}
    {front back : List Char} {n : Nat} (hstart : byteLen front = old.start)
    (hstop : byteLen (front ++ old.text.toList) = old.stop)
    (hd : Describes (before ++ [old] ++ after) (front ++ old.text.toList ++ back))
    (ho : Outside (before ++ [old] ++ after) n) (hne : doc ≠ "") (hle : old.stop ≤ n) :
    Splice before [old] [docAt old.start doc] after front old.text.toList doc.toList back
      old.stop (old.start + size doc) n := by
  have hpos := size_pos hne
  obtain ⟨hinner, -, hbehind⟩ := List.pairwise_append.mp hd.apart
  refine ⟨hstop, ?_, by omega, hd, ho, ?_, hbehind old (by simp), hle,
    hstart ▸ describes_docAt front back doc, ?_⟩
  · rw [byteLen_append, hstart, size]
  · intro t ht
    rw [hstart]
    exact (List.pairwise_append.mp hinner).2.2 t ht old List.mem_cons_self
  · intro t ht
    rw [List.mem_singleton.mp ht, hstart]
    exact ⟨Nat.le_refl _, Nat.lt_add_of_pos_right hpos, Nat.le_refl _⟩

theorem resumed_replaced {before after : List Trivia} {old : Trivia} {doc : String}
    {front back : List Char} {n : Nat} (hstart : byteLen front = old.start)
    (hstop : byteLen (front ++ old.text.toList) = old.stop)
    (hd : Describes (before ++ [old] ++ after) (front ++ old.text.toList ++ back))
    (ho : Outside (before ++ [old] ++ after) n)
    (hn : (cut? n (front ++ old.text.toList ++ back)).isSome) (hne : doc ≠ "")
    (hold : old.isDoc = true) (hafter : ∀ t ∈ after, t.start < n → t.isDoc = false)
    (hspan : (Pending.new (before ++ [old] ++ after)
      (front ++ old.text.toList ++ back) n).span = some (old.start, old.stop)) :
    Resumed (Pending.new (before ++ [old] ++ after)
        (front ++ old.text.toList ++ back) n).target (some doc)
      (spliced before [docAt old.start doc] after old.stop (old.start + size doc))
      (front ++ doc.toList ++ back) (movedTo old.stop (old.start + size doc) n) := by
  -- the docblock that was found starts where `old` does, so `old` is in front of the node
  rw [Pending.new_span] at hspan
  obtain ⟨found, hfound, hsame⟩ := Option.map_eq_some_iff.mp hspan
  have hlt : old.start < n := by
    rw [← (Prod.mk.inj hsame).1]
    exact (mem_of_mem_runAt (List.mem_of_find?_eq_some hfound)).2
  have hle : old.stop ≤ n := (ho old (by simp)).resolve_right (by omega)
  obtain ⟨hnear, hgap, hrun⟩ := runAt_of_doc hd.ordered hlt hold hafter hfound
  have hdocs : ∀ t ∈ inFront after n, t.isDoc = false := fun t ht =>
    hafter t (mem_inFront.mp ht).1 (mem_inFront.mp ht).2
  have hsplice := splice_replaced hstart hstop hd ho hne hle
  -- behind the new docblock is the gap that was behind the old one
  have hreach : byteLen (front ++ old.text.toList) ≤ reach n (inFront after n) := by
    rw [hstop]
    exact le_reach hle fun t ht => hsplice.after_start t (mem_inFront.mp ht).1
  have hmoved := blankBetween_behind (front ++ doc.toList) back (Nat.le_of_eq hstop) hreach
  rw [hgap, hsplice.new_end, hstop, Nat.sub_self, Nat.add_zero] at hmoved
  refine hsplice.resumed hstart hn (by simp) hnear hdocs ?_ ?_
  · simp only [List.reverse_singleton, glued, docAt, movedTo, hmoved, if_true]
  · rw [Pending.new_comments, Pending.new_doc, hrun, find?_isDoc_append hdocs hold,
      commentsOf_append, commentsOf_cons_doc hold]
    rfl

/-- A docblock that is inserted with blanks behind it is a splice in which nothing goes. -/
theorem splice_inserted {before after : List Trivia} {doc blanks : String}
    {front back : List Char} {n : Nat} (hstart : byteLen front = n)
    (hd : Describes (before ++ after) (front ++ back)) (ho : Outside (before ++ after) n)
    (hne : doc ≠ "") (hblanks : blanks ≠ "")
    (hbefore : ∀ t ∈ before, t.start < n) (hafter : ∀ t ∈ after, n ≤ t.start) :
    Splice before [] [docAt n doc, blanksAt (n + size doc) blanks] after front []
      (doc.toList ++ blanks.toList) back n (n + size doc + size blanks) n := by
  have hpos := size_pos hne
  have hpos' := size_pos hblanks
  refine ⟨?_, ?_, by omega, by simpa using hd, by simpa using ho, ?_, hafter, Nat.le_refl n,
    ⟨?_, ?_⟩, ?_⟩
  · rw [List.append_nil, hstart]
  · rw [byteLen_append, byteLen_append, hstart, size, size, Nat.add_assoc]
  · intro t ht
    rw [hstart]
    have hlt := hbefore t ht
    exact (ho t (List.mem_append_left _ ht)).resolve_right (by omega)
  · simp [docAt, blanksAt]
  · intro t ht
    rw [slice?_eq_some_iff]
    rcases List.mem_cons.mp ht with rfl | ht
    · exact ⟨front, blanks.toList ++ back, by simp [docAt], hstart, rfl⟩
    · rw [List.mem_singleton.mp ht]
      refine ⟨front ++ doc.toList, back, by simp [blanksAt], ?_, rfl⟩
      rw [byteLen_append, hstart]
      rfl
  · intro t ht
    rcases List.mem_cons.mp ht with rfl | ht
    · simp only [docAt]
      omega
    · rw [List.mem_singleton.mp ht]
      simp only [blanksAt]
      omega

theorem resumed_inserted {before after : List Trivia} {doc blanks : String}
    {front back : List Char} {n : Nat} (hstart : byteLen front = n)
    (hd : Describes (before ++ after) (front ++ back)) (ho : Outside (before ++ after) n)
    (hne : doc ≠ "") (hblanks : blanks ≠ "")
    (hbefore : ∀ t ∈ before, t.start < n) (hafter : ∀ t ∈ after, n ≤ t.start)
    (hspan : (Pending.new (before ++ after) (front ++ back) n).span = none) :
    Resumed (Pending.new (before ++ after) (front ++ back) n).target (some doc)
      (spliced before [docAt n doc, blanksAt (n + size doc) blanks] after n
        (n + size doc + size blanks))
      (front ++ (doc.toList ++ blanks.toList) ++ back)
      (movedTo n (n + size doc + size blanks) n) := by
  have hnear : inFront after n = [] := inFront_of_ge hafter
  have hrun : runAt (before ++ after) (front ++ back) n =
      glued (front ++ back) n before.reverse := by
    unfold runAt
    rw [inFront_append, hnear, inFront_of_lt hbefore, List.nil_append]
  have hn : (cut? n (front ++ [] ++ back)).isSome := by
    rw [List.append_nil, ← hstart, cut?_append]
    rfl
  refine (splice_inserted hstart hd ho hne hblanks hbefore hafter).resumed hstart hn
    (by simp [blanksAt]) (by rw [hnear]; rfl) (by simp [hnear]) ?_ ?_
  · -- nothing stands between the node, the blanks and the docblock
    simp [hnear, glued, docAt, blanksAt, reach, movedTo, blankBetween]
  · rw [Pending.new_span, Option.map_eq_none_iff] at hspan
    rw [Pending.new_comments, Pending.new_doc, hspan, hrun, hnear]
    simp [commentsOf]

/-- Without an edit the node is read as it was. -/
theorem resumed_same {trivia : List Trivia} {source : List Char} {n : Nat}
    (hd : Describes trivia source) (ho : Outside trivia n) (hn : (cut? n source).isSome) :
    Resumed (Pending.new trivia source n).target (Pending.new trivia source n).target.doc
      trivia source n := by
  refine ⟨hd, ho, hn, rfl, ?_⟩
  rw [Pending.new_comments, Pending.new_doc]
  cases hdoc : (runAt trivia source n).find? (·.isDoc) with
  | none => exact ⟨commentsOf (runAt trivia source n), [], by simp, by simp⟩
  | some doc =>
    obtain ⟨hisDoc, near, far, hrun, _⟩ := List.find?_eq_some_iff_append.mp hdoc
    refine ⟨commentsOf far, commentsOf near, ?_, ?_⟩ <;>
      rw [hrun, commentsOf_append, commentsOf_cons_doc hisDoc] <;> rfl

/-- The edit applies, and what is read afterwards is the node with its new
docblock. -/
theorem Rescan.resumed {trivia trivia' : List Trivia} {source : String} {n n' : Nat}
    {calls : List Call} {p : Pending} (hd : Describes trivia source.toList)
    (ho : Outside trivia n) (hn : (cut? n source.toList).isSome)
    (hp : p = (Pending.new trivia source.toList n).after calls) (h : Rescan p trivia trivia' n') :
    ∃ source', Edit.applyAll source p.edit?.toList = .ok source' ∧
      Resumed (Pending.new trivia source.toList n).target p.target.doc trivia'
        source'.toList n' := by
  have hstart : p.start = n := by rw [hp, Pending.start_after]; rfl
  have hspan : p.span = (Pending.new trivia source.toList n).span := by
    rw [hp, Pending.span_after]
  cases h with
  | same _ hedit =>
    refine ⟨source, ?_, ?_⟩
    · rw [hedit]
      exact Edit.applyAll_nil source
    · rw [hp] at hedit ⊢
      rw [Pending.target_of_no_edit hedit, Pending.start_after]
      exact resumed_same hd ho hn
  | replaced before after old doc hedit hdoc hsp hold hafter =>
    obtain ⟨hne, hadded⟩ : doc ≠ "" ∧ p.added ≠ [] := by
      rw [hp] at hedit hdoc ⊢
      exact Pending.written_of_edit? rfl hedit hdoc
    obtain ⟨front, back, hsource, hfront, hstop⟩ :=
      slice?_eq_some_iff.mp (hd.text old (by simp))
    have hend : byteLen (front ++ old.text.toList) = old.stop := by
      rw [byteLen_append, hfront, hstop]
    refine ⟨String.ofList (front ++ doc.toList ++ back), ?_, ?_⟩
    · rw [Pending.edit?_of_span hdoc hadded hsp]
      exact Edit.applyAll_singleton hsource hfront.symm hend.symm
    · rw [hspan] at hsp
      rw [hstart] at hafter ⊢
      rw [hdoc, String.toList_ofList]
      rw [hsource] at hd hn hsp ⊢
      exact resumed_replaced hfront hend hd ho hn hne hold hafter hsp
  | inserted before after doc hedit hdoc hsp hbefore hafter =>
    obtain ⟨hne, hadded⟩ : doc ≠ "" ∧ p.added ≠ [] := by
      rw [hp] at hedit hdoc ⊢
      exact Pending.written_of_edit? rfl hedit hdoc
    obtain ⟨⟨front, back⟩, hcut⟩ := Option.isSome_iff_exists.mp hn
    obtain ⟨hsource, hfront⟩ := cut?_eq_some hcut
    refine ⟨String.ofList (front ++ (doc.toList ++ ("\n" ++ p.target.indent).toList) ++ back), ?_, ?_⟩
    · have hnone : source.toList = front ++ [] ++ back := by rw [hsource, List.append_nil]
      have happly := Edit.applyAll_singleton hnone
        (e := ⟨p.start, p.start, doc ++ "\n" ++ p.target.indent, String.intercalate "\n" p.added⟩)
        (by rw [hfront, hstart]) (by rw [List.append_nil, hfront, hstart])
      rw [Pending.edit?_of_no_span hdoc hadded hsp]
      simpa using happly
    · rw [hspan] at hsp
      rw [hstart] at hbefore hafter ⊢
      rw [hdoc, String.toList_ofList]
      rw [hsource] at hd hsp ⊢
      exact resumed_inserted hfront hd ho hne (by simp) hbefore hafter hsp

/-- What the documentation refuses after the calls, it refuses as it is read
again: a comment that has the line is still there, and if the old docblock has
it, so has the new one. -/
theorem Resumed.write?_eq_none {was now : Target} {trivia : List Trivia} {source : List Char}
    {n : Nat} (h : Resumed was now.doc trivia source n) (hg : Target.Grown was now) {line : String}
    (hl : Lasting line) (hw : now.write? line = none) :
    (Pending.new trivia source n).target.write? line = none := by
  obtain ⟨front, back, hwas, hnow⟩ := h.comments_eq
  rw [Target.write?_eq_none_iff] at hw ⊢
  rcases hw with hblank | hm
  · exact .inl hblank
  right
  rw [Target.mentions_iff] at hm ⊢
  rw [h.doc_eq]
  rcases hm with ⟨c, hc, hin⟩ | hdoc
  · rw [hg.comments, hwas] at hc
    rcases List.mem_append.mp hc with hc | hc
    · rcases List.mem_append.mp hc with hc | hc
      · exact .inl ⟨c, by rw [hnow]; simp [hc], hin⟩
      · -- the line is in the old docblock
        obtain ⟨d, hd, rfl⟩ := List.mem_map.mp hc
        rw [trimEnd, String.toList_ofList] at hin
        exact .inr (hg.doc line hl d (Option.mem_toList.mp hd)
          (hin.trans (dropBlanksEnd_isPrefix d.toList).isInfix))
    · exact .inl ⟨c, by rw [hnow]; simp [hc], hin⟩
  · exact .inr hdoc

/-- **Running again adds nothing.** Some calls write on the documentation of a
node, the edit is applied, and the new source is read. Then the node has the
docblock that was written and its other comments, none of the calls writes
anything, and there is no further edit. -/
theorem rerun_adds_nothing {trivia trivia' : List Trivia} {source : String} {n n' : Nat}
    {calls : List Call} {p : Pending} (hd : Describes trivia source.toList)
    (ho : Outside trivia n) (hn : (cut? n source.toList).isSome)
    (hl : ∀ c ∈ calls, ∀ line ∈ c.lines, Lasting line)
    (hp : p = (Pending.new trivia source.toList n).after calls) (hr : Rescan p trivia trivia' n') :
    ∃ source', Edit.applyAll source p.edit?.toList = .ok source' ∧
      Resumed (Pending.new trivia source.toList n).target p.target.doc trivia'
        source'.toList n' ∧
      (∀ c ∈ calls, (Pending.new trivia' source'.toList n').announce c.rule c.hierarchy c.site =
        (Pending.new trivia' source'.toList n', [])) ∧
      ((Pending.new trivia' source'.toList n').after calls).edit? = none := by
  obtain ⟨source', happly, hresumed⟩ := hr.resumed hd ho hn hp
  have hgrown : Target.Grown (Pending.new trivia source.toList n).target p.target := by
    rw [hp]
    exact Pending.grown_after _ calls
  have hrefused : ∀ c ∈ calls, ∀ line ∈ c.lines,
      (Pending.new trivia' source'.toList n').target.write? line = none := by
    intro c hc line hline
    refine hresumed.write?_eq_none hgrown (hl c hc line hline) ?_
    rw [hp]
    exact Pending.refused_after _ hl c hc line hline
  refine ⟨source', happly, hresumed, ?_, ?_⟩
  · intro c hc
    exact Pending.announce_of_refused (hrefused c hc)
  · rw [Pending.after_of_refused hrefused]
    exact Pending.edit?_of_added_nil rfl

/-- A rule that announces one change, at a call that the change concerns. -/
def sampleCall : Call where
  rule := sampleRule
  hierarchy := .unknown
  site := .methodCall false "run" .unresolved

/-- A comment and a docblock in front of a node at offset 13. -/
def sampleTrivia : List Trivia :=
  [⟨.hash, 0, 3, "# c"⟩, ⟨.blanks, 3, 4, "\n"⟩, ⟨.doc, 4, 12, "/** a */"⟩, ⟨.blanks, 12, 13, "\n"⟩]

/-- The docblock after the call. -/
def sampleDoc : String :=
  "/** a\n * @TODO UPGRADE TASK - A::run: x\n */"

/-- The same trivia around the new docblock. -/
def sampleTriviaAfter : List Trivia :=
  [⟨.hash, 0, 3, "# c"⟩, ⟨.blanks, 3, 4, "\n"⟩, ⟨.doc, 4, 47, sampleDoc⟩, ⟨.blanks, 47, 48, "\n"⟩]

theorem rerun_adds_nothing_sample :
    ((Pending.new sampleTrivia "# c\n/** a */\nf();".toList 13).after [sampleCall]).added =
        ["@TODO UPGRADE TASK - A::run: x"] ∧
      ∃ source',
        Edit.applyAll "# c\n/** a */\nf();"
          ((Pending.new sampleTrivia "# c\n/** a */\nf();".toList 13).after
            [sampleCall]).edit?.toList = .ok source' ∧
        (Pending.new sampleTriviaAfter source'.toList 48).target.doc = some sampleDoc ∧
        ((Pending.new sampleTriviaAfter source'.toList 48).after [sampleCall]).edit? = none := by
  have hd : Describes sampleTrivia "# c\n/** a */\nf();".toList :=
    ⟨by decide +kernel, by decide +kernel⟩
  have hl : ∀ c ∈ [sampleCall], ∀ line ∈ c.lines, Lasting line := by
    intro c hc
    rw [List.mem_singleton.mp hc]
    decide +kernel
  have hr : Rescan ((Pending.new sampleTrivia "# c\n/** a */\nf();".toList 13).after [sampleCall])
      sampleTrivia sampleTriviaAfter 48 :=
    Rescan.replaced [⟨.hash, 0, 3, "# c"⟩, ⟨.blanks, 3, 4, "\n"⟩] [⟨.blanks, 12, 13, "\n"⟩]
      ⟨.doc, 4, 12, "/** a */"⟩ sampleDoc (by decide +kernel) (by decide +kernel)
      (by decide +kernel) rfl (by decide +kernel)
  refine ⟨by decide +kernel, ?_⟩
  obtain ⟨source', happly, hresumed, _, hedit⟩ :=
    rerun_adds_nothing hd (by decide) (by decide +kernel) hl rfl hr
  exact ⟨source', happly, hresumed.doc_eq.trans (by decide +kernel), hedit⟩

end UpgradeNotes
