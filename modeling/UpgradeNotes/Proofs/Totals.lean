import Mathlib.Algebra.Ring.Nat
import Mathlib.Data.String.Basic
import UpgradeNotes.Run

/-!
# Totals and exit codes

The totals of a report are kept up file by file and rule by rule. `Totals` says
what they should be, as counts over all files; adding one file keeps it
(`Totals.add`). The exit code is then read off the files, and a check tells what
a run in fix mode would write (`check_predicts_fix`).
-/

namespace UpgradeNotes

/-! ## Counting by rule -/

namespace Summary

/-- The counts of the rules: sorted by rule, with one entry for each rule that
has notes. -/
structure Counts (ns : List Note) (counts : List (String × Nat)) : Prop where
  sorted : counts.Pairwise fun a b => a.1 < b.1
  lookup : ∀ rule, counts.lookup rule =
    if ns.countP (fun n => decide (n.rule = rule)) = 0 then none
    else some (ns.countP fun n => decide (n.rule = rule))
  sum : (counts.map Prod.snd).sum = ns.length

theorem mem_count {rule : String} {counts : List (String × Nat)} {c : String × Nat}
    (h : c ∈ count rule counts) : c.1 = rule ∨ ∃ d ∈ counts, c.1 = d.1 := by
  induction counts with
  | nil => exact .inl (by rw [List.mem_singleton.mp h])
  | cons first rest ih =>
    obtain ⟨r, n⟩ := first
    unfold count at h
    split at h
    · rcases List.mem_cons.mp h with rfl | h
      · exact .inr ⟨(r, n), List.mem_cons_self, rfl⟩
      · exact .inr ⟨c, List.mem_cons_of_mem _ h, rfl⟩
    · split at h
      · rcases List.mem_cons.mp h with rfl | h
        · exact .inl rfl
        · exact .inr ⟨c, h, rfl⟩
      · rcases List.mem_cons.mp h with rfl | h
        · exact .inr ⟨(r, n), List.mem_cons_self, rfl⟩
        · rcases ih h with heq | ⟨d, hd, heq⟩
          · exact .inl heq
          · exact .inr ⟨d, List.mem_cons_of_mem _ hd, heq⟩

theorem sorted_count {counts : List (String × Nat)} (rule : String)
    (h : counts.Pairwise fun a b => a.1 < b.1) :
    (count rule counts).Pairwise fun a b => a.1 < b.1 := by
  induction counts with
  | nil => exact List.pairwise_singleton _ _
  | cons first rest ih =>
    obtain ⟨r, n⟩ := first
    obtain ⟨hfirst, hrest⟩ := List.pairwise_cons.mp h
    unfold count
    split
    · exact List.pairwise_cons.mpr ⟨hfirst, hrest⟩
    · rename_i hne
      split
      · rename_i hlt
        refine List.pairwise_cons.mpr ⟨?_, h⟩
        intro c hc
        rcases List.mem_cons.mp hc with rfl | hc
        · exact hlt
        · exact lt_trans hlt (hfirst c hc)
      · rename_i hnot
        have hgt : r < rule := lt_of_le_of_ne (not_lt.mp hnot) (Ne.symm hne)
        refine List.pairwise_cons.mpr ⟨?_, ih hrest⟩
        intro c hc
        rcases mem_count hc with heq | ⟨d, hd, heq⟩
        · rw [heq]
          exact hgt
        · rw [heq]
          exact hfirst d hd

theorem lookup_cons_ite (rule r : String) (n : Nat) (counts : List (String × Nat)) :
    ((r, n) :: counts).lookup rule = if rule = r then some n else counts.lookup rule := by
  by_cases h : rule = r
  · simp [h]
  · rw [List.lookup_cons, beq_eq_false_iff_ne.mpr h, if_neg h]

theorem lookup_eq_none_of_lt {rule : String} {counts : List (String × Nat)}
    (h : ∀ c ∈ counts, rule < c.1) : counts.lookup rule = none := by
  rw [List.lookup_eq_none_iff]
  intro c hc
  exact bne_iff_ne.mpr (ne_of_lt (h c hc))

-- One more note of a rule counts for this rule and for no other.
theorem lookup_count {counts : List (String × Nat)} (rule : String)
    (h : counts.Pairwise fun a b => a.1 < b.1) (other : String) :
    (count rule counts).lookup other =
      if other = rule then some ((counts.lookup rule).getD 0 + 1) else counts.lookup other := by
  induction counts with
  | nil =>
    show List.lookup other [(rule, 1)] = _
    rw [lookup_cons_ite]
    rfl
  | cons first rest ih =>
    obtain ⟨r, n⟩ := first
    obtain ⟨hfirst, hrest⟩ := List.pairwise_cons.mp h
    unfold count
    split
    · rename_i heq
      subst heq
      simp only [lookup_cons_ite]
      by_cases hother : other = rule <;> simp [hother]
    · rename_i hne
      split
      · -- a new rule goes before the first, so it is not among the others
        rename_i hlt
        have hnone : List.lookup rule rest = none :=
          lookup_eq_none_of_lt fun c hc => lt_trans hlt (hfirst c hc)
        simp only [lookup_cons_ite, if_neg hne, hnone]
        rfl
      · simp only [lookup_cons_ite, ih hrest, if_neg hne]
        by_cases hother : other = rule
        · subst hother
          simp [hne]
        · simp [hother]

theorem sum_count (rule : String) (counts : List (String × Nat)) :
    ((count rule counts).map Prod.snd).sum = (counts.map Prod.snd).sum + 1 := by
  induction counts with
  | nil => rfl
  | cons first rest ih =>
    obtain ⟨r, n⟩ := first
    unfold count
    split
    · simp only [List.map_cons, List.sum_cons]
      omega
    · split
      · simp only [List.map_cons, List.sum_cons]
        omega
      · simp only [List.map_cons, List.sum_cons, ih]
        omega

theorem Counts.nil : Counts [] [] where
  sorted := List.Pairwise.nil
  lookup _ := rfl
  sum := rfl

theorem Counts.count {ns : List Note} {counts : List (String × Nat)} (h : Counts ns counts)
    (n : Note) : Counts (ns ++ [n]) (Summary.count n.rule counts) where
  sorted := sorted_count n.rule h.sorted
  lookup rule := by
    rw [lookup_count n.rule h.sorted, h.lookup, h.lookup]
    by_cases heq : rule = n.rule
    · subst heq
      by_cases hzero : ns.countP (fun m => decide (m.rule = n.rule)) = 0 <;> simp [hzero]
    · simp [heq, Ne.symm heq]
  sum := by
    rw [sum_count, h.sum, List.length_append, List.length_singleton]

theorem Counts.foldl_count {ns : List Note} {counts : List (String × Nat)} (h : Counts ns counts)
    (more : List Note) :
    Counts (ns ++ more) (more.foldl (fun counts n => Summary.count n.rule counts) counts) := by
  induction more generalizing ns counts with
  | nil => simpa using h
  | cons n rest ih => simpa using ih (h.count n)

end Summary

/-! ## Totals -/

namespace Outcome

/-- Whether nothing came out of a file. -/
def isFailed (o : Outcome) : Bool :=
  o.error?.isSome

/-- Whether a file is to be written anew. -/
def isChanged : Outcome → Bool
  | changed .. => true
  | _ => false

/-- A file changes only by its notes. -/
def Proper : Outcome → Prop
  | changed ns _ _ => ns ≠ []
  | _ => True

theorem Proper.isAnnotated_eq {o : Outcome} (h : o.Proper) : o.isAnnotated = o.isChanged := by
  cases o with
  | changed ns before after =>
    have hns : ns ≠ [] := h
    simp [isAnnotated, notes, isChanged, hns]
  | _ => rfl

/-- The files that a report calls annotated are the changed ones. -/
theorem Proper.status_eq_annotated_iff {o : Outcome} (h : o.Proper) :
    o.status = "annotated" ↔ o.isChanged = true := by
  cases o with
  | changed ns before after =>
    have hns : ns ≠ [] := h
    simp [status, error?, isAnnotated, notes, isChanged, hns]
  | _ => simp [status, error?, isAnnotated, notes, isChanged]

end Outcome

/-- The totals of some files, as numbers of files and of notes. -/
structure Totals (files : List (String × Outcome)) (s : Summary) : Prop where
  processed : s.processed = files.length
  annotated : s.annotated = files.countP fun f => f.2.isChanged
  errors : s.errors = files.countP fun f => f.2.isFailed
  notes : s.notes = (files.map fun f => f.2.notes.length).sum
  notes_eq_sum : s.notes = (s.byRule.map Prod.snd).sum
  byRule : Summary.Counts (files.flatMap fun f => f.2.notes) s.byRule

namespace Totals

theorem nil : Totals [] {} where
  processed := rfl
  annotated := rfl
  errors := rfl
  notes := rfl
  notes_eq_sum := rfl
  byRule := .nil

theorem add {files : List (String × Outcome)} {s : Summary} (h : Totals files s) (path : String)
    {o : Outcome} (ho : o.Proper) : Totals (files ++ [(path, o)]) (s.add o) := by
  have hcounts : Summary.Counts ((files ++ [(path, o)]).flatMap fun f => f.2.notes)
      (s.add o).byRule := by
    simpa [Summary.add] using h.byRule.foldl_count o.notes
  have hnotes : (s.add o).notes = ((files ++ [(path, o)]).map fun f => f.2.notes.length).sum := by
    simp [Summary.add, h.notes]
  refine ⟨?_, ?_, ?_, hnotes, ?_, hcounts⟩
  · simp [Summary.add, h.processed]
  · simp [Summary.add, h.annotated, ho.isAnnotated_eq, List.countP_append, List.countP_singleton]
  · simp [Summary.add, h.errors, Outcome.isFailed, List.countP_append, List.countP_singleton]
  · rw [hcounts.sum, hnotes, List.length_flatMap]

/-- The exit code is read off the files. -/
theorem exitCode_eq {files : List (String × Outcome)} {s : Summary} (h : Totals files s)
    (mode : Mode) :
    s.exitCode mode =
      if ∃ f ∈ files, f.2.isFailed = true then 1
      else if mode = .check ∧ ∃ f ∈ files, f.2.isChanged = true then 2
      else 0 := by
  have herrors : s.errors > 0 ↔ ∃ f ∈ files, f.2.isFailed = true := by
    rw [h.errors]
    exact List.countP_pos_iff
  have hannotated : s.annotated > 0 ↔ ∃ f ∈ files, f.2.isChanged = true := by
    rw [h.annotated]
    exact List.countP_pos_iff
  simp only [Summary.exitCode, Bool.and_eq_true, decide_eq_true_eq, herrors, hannotated]

theorem exitCode_check_eq_two_iff {files : List (String × Outcome)} {s : Summary}
    (h : Totals files s) :
    s.exitCode .check = 2 ↔
      (∀ f ∈ files, f.2.isFailed = false) ∧ ∃ f ∈ files, f.2.isChanged = true := by
  rw [h.exitCode_eq]
  by_cases hfailed : ∃ f ∈ files, f.2.isFailed = true
  · -- a failure comes before everything else
    rw [if_pos hfailed]
    obtain ⟨f, hf, hfail⟩ := hfailed
    exact ⟨fun h => absurd h (by decide), fun h => absurd hfail (by simp [h.1 f hf])⟩
  · have hall : ∀ f ∈ files, f.2.isFailed = false := fun f hf =>
      Bool.eq_false_iff.mpr fun hfail => hfailed ⟨f, hf, hfail⟩
    rw [if_neg hfailed]
    by_cases hchanged : ∃ f ∈ files, f.2.isChanged = true
    · rw [if_pos ⟨rfl, hchanged⟩]
      exact ⟨fun _ => ⟨hall, hchanged⟩, fun _ => rfl⟩
    · rw [if_neg fun h => hchanged h.2]
      exact ⟨fun h => absurd h (by decide), fun h => absurd h.2 hchanged⟩

end Totals

/-! ## Runs -/

namespace Report

@[simp] theorem layout_warn (r : Report) (text : String) : (r.warn text).layout = r.layout := by
  unfold warn
  split <;> rfl

@[simp] theorem files_warn (r : Report) (text : String) : (r.warn text).files = r.files := by
  unfold warn
  split <;> rfl

@[simp] theorem summary_warn (r : Report) (text : String) :
    (r.warn text).summary = r.summary := by
  unfold warn
  split <;> rfl

@[simp] theorem layout_add (r : Report) (path : String) (o : Outcome) :
    (r.add path o).layout = r.layout := by
  unfold add
  cases o.error? <;> simp

@[simp] theorem files_add (r : Report) (path : String) (o : Outcome) :
    (r.add path o).files = r.files ++ [(path, o)] := by
  unfold add
  cases o.error? <;> simp

@[simp] theorem summary_add (r : Report) (path : String) (o : Outcome) :
    (r.add path o).summary = r.summary.add o := by
  unfold add
  cases o.error? <;> simp

@[simp] theorem summary_finish (version : String) (r : Report) :
    (r.finish version).summary = r.summary := by
  unfold finish
  split <;> rfl

/-- The report with some more files. -/
def addAll (r : Report) (files : List (String × Outcome)) : Report :=
  files.foldl (fun r f => r.add f.1 f.2) r

theorem files_addAll (r : Report) (files : List (String × Outcome)) :
    (r.addAll files).files = r.files ++ files := by
  induction files generalizing r with
  | nil => simp [addAll]
  | cons f rest ih =>
    show ((r.add f.1 f.2).addAll rest).files = _
    rw [ih, files_add, List.append_assoc]
    rfl

theorem totals_addAll {r : Report} (h : Totals r.files r.summary)
    {files : List (String × Outcome)} (hfiles : ∀ f ∈ files, f.2.Proper) :
    Totals (r.addAll files).files (r.addAll files).summary := by
  induction files generalizing r with
  | nil => exact h
  | cons f rest ih =>
    refine ih (r := r.add f.1 f.2) ?_ fun g hg => hfiles g (List.mem_cons_of_mem _ hg)
    rw [files_add, summary_add]
    exact h.add f.1 (hfiles f List.mem_cons_self)

end Report

/-- No write fails. -/
def FileAccess.WritesSucceed {m : Type → Type} [Monad m] (fs : FileAccess m) : Prop :=
  ∀ path text, fs.write path text = (fun _ => .ok ()) <$> fs.write path text

namespace Run

variable {m : Type → Type} [Monad m]

/-- What a file is overwritten with. -/
def writeOf? : Mode → Outcome → Option String
  | .fix, .changed _ _ after => some after
  | _, _ => none

/-- The files that a run writes, each with its new text. -/
def writes (mode : Mode) (files : List (String × Outcome)) : List (String × String) :=
  files.filterMap fun f => (writeOf? mode f.2).map (f.1, ·)

/-- Writes some files one after the other. -/
def writeAll (fs : FileAccess m) : List (String × String) → m Unit
  | [] => return
  | (path, text) :: rest => do
    let _ ← fs.write path text
    writeAll fs rest

theorem writeOutcome_eq (fs : FileAccess m) (mode : Mode) (path : String) (o : Outcome) :
    writeOutcome fs mode path o =
      match writeOf? mode o with
      | some text => fs.write path text
      | none => return .ok () := by
  cases mode <;> cases o <;> rfl

/-- Where no write fails, a run is its writes and then the report on all files. -/
theorem reportAll_eq [LawfulMonad m] {fs : FileAccess m} (hfs : fs.WritesSucceed) (r : Report)
    (files : List (String × Outcome)) :
    reportAll fs r files =
      (do writeAll fs (writes r.layout.mode files); return .ok (r.addAll files)) := by
  induction files generalizing r with
  | nil => simp [reportAll, writes, writeAll, Report.addAll]
  | cons f rest ih =>
    obtain ⟨path, o⟩ := f
    have hrest := ih (r.add path o)
    rw [Report.layout_add] at hrest
    rw [reportAll, writeOutcome_eq]
    cases hwrite : writeOf? r.layout.mode o with
    | none =>
      have hwrites : writes r.layout.mode ((path, o) :: rest) = writes r.layout.mode rest := by
        simp [writes, hwrite]
      simp only [pure_bind, hwrites]
      exact hrest
    | some text =>
      have hwrites : writes r.layout.mode ((path, o) :: rest) =
          (path, text) :: writes r.layout.mode rest := by
        simp [writes, hwrite]
      simp only
      rw [hfs, bind_map_left, hwrites, writeAll, bind_assoc]
      exact bind_congr fun _ => hrest

theorem writes_check (files : List (String × Outcome)) : writes .check files = [] :=
  List.filterMap_eq_nil_iff.mpr fun _ _ => rfl

theorem writes_fix_paths (files : List (String × Outcome)) :
    (writes .fix files).map Prod.fst = (files.filter fun f => f.2.isChanged).map Prod.fst := by
  induction files with
  | nil => rfl
  | cons f rest ih =>
    obtain ⟨path, o⟩ := f
    cases o <;> simpa [writes, writeOf?, Outcome.isChanged] using ih

theorem writes_fix_ne_nil_iff (files : List (String × Outcome)) :
    writes .fix files ≠ [] ↔ ∃ f ∈ files, f.2.isChanged = true := by
  have hnil : writes .fix files = [] ↔ (writes .fix files).map Prod.fst = [] :=
    List.map_eq_nil_iff.symm
  rw [ne_eq, hnil, writes_fix_paths]
  simp

/-- The totals of a run add up and its exit code tells what became of the files.
A check writes nothing, and it ends with 2 if and only if no file fails and fixing
writes something: then the files that the check calls annotated, and no others. -/
theorem check_predicts_fix [LawfulMonad m] (fs : FileAccess m) (hfs : fs.WritesSucceed)
    (layout : Layout) (shown : String) (warnings : List String) (files : List (String × Outcome))
    (hfiles : ∀ f ∈ files, f.2.Proper) :
    ∃ report : Mode → Report,
      (∀ mode,
        (reportAll fs { layout := { layout with mode }, shown, warnings } files =
          do writeAll fs (writes mode files); return .ok (report mode)) ∧
        (report mode).files = files ∧ Totals files (report mode).summary ∧
        ((report mode).finish programVersion).summary.exitCode mode =
          (if ∃ f ∈ files, f.2.isFailed = true then 1
          else if mode = .check ∧ ∃ f ∈ files, f.2.isChanged = true then 2
          else 0)) ∧
      writes .check files = [] ∧
      (((report .check).finish programVersion).summary.exitCode .check = 2 ↔
        (∀ f ∈ files, f.2.isFailed = false) ∧ writes .fix files ≠ []) ∧
      (writes .fix files).map Prod.fst =
        ((report .check).files.filter fun f => f.2.status = "annotated").map Prod.fst := by
  let start (mode : Mode) : Report := { layout := { layout with mode }, shown, warnings }
  have hreported (mode : Mode) : ((start mode).addAll files).files = files := by
    rw [Report.files_addAll]
    rfl
  have htotals (mode : Mode) : Totals files ((start mode).addAll files).summary := by
    have h := Report.totals_addAll (r := start mode) Totals.nil hfiles
    rwa [hreported] at h
  refine ⟨fun mode => (start mode).addAll files, fun mode => ⟨?_, hreported mode, htotals mode, ?_⟩,
    writes_check files, ?_, ?_⟩
  · exact reportAll_eq hfs (start mode) files
  · rw [Report.summary_finish, (htotals mode).exitCode_eq]
  · rw [Report.summary_finish, (htotals .check).exitCode_check_eq_two_iff, writes_fix_ne_nil_iff]
  · rw [writes_fix_paths, hreported]
    refine congrArg _ (List.filter_congr fun f hf => ?_)
    exact (Bool.eq_iff_iff.mpr (by simpa using (hfiles f hf).status_eq_annotated_iff)).symm

/-- A disk on which every write succeeds and is recorded. -/
def recording : FileAccess (StateM (List (String × String))) where
  workingDirectory := return "/"
  kind _ := return none
  read _ := return .ok ""
  list _ := return .ok []
  write path text := do
    modify (· ++ [(path, text)])
    return .ok ()

theorem recording_writesSucceed : recording.WritesSucceed :=
  fun _ _ => rfl

/-- A clean file, and two files with notes of two rules. -/
def sampleOutcomes : List (String × Outcome) :=
  [("a.php", .unchanged),
    ("b.php", .changed [⟨"renamed_to", ⟨3, 1⟩, "Use b()"⟩, ⟨"obsolete_method", ⟨9, 5⟩, "Use c()"⟩]
      "old b" "new b"),
    ("c.php", .changed [⟨"renamed_to", ⟨2, 1⟩, "Use b()"⟩] "old c" "new c")]

theorem check_predicts_fix_sample :
    recording.WritesSucceed ∧ (∀ f ∈ sampleOutcomes, f.2.Proper) ∧
      ∃ report : Mode → Report,
        (reportAll recording { layout := { format := .json, mode := .check } } sampleOutcomes).run [] =
          (.ok (report .check), []) ∧
        (reportAll recording { layout := { format := .json, mode := .fix } } sampleOutcomes).run [] =
          (.ok (report .fix), [("b.php", "new b"), ("c.php", "new c")]) ∧
        ((report .check).finish programVersion).summary.exitCode .check = 2 ∧
        (report .check).summary.byRule.lookup "renamed_to" = some 2 := by
  have hproper : ∀ f ∈ sampleOutcomes, f.2.Proper := by
    simp [sampleOutcomes, Outcome.Proper]
  obtain ⟨report, hruns, hcheck, htwo, -⟩ :=
    check_predicts_fix recording recording_writesSucceed { format := .json } "" [] sampleOutcomes
      hproper
  refine ⟨recording_writesSucceed, hproper, report, ?_, ?_, ?_, ?_⟩
  · rw [(hruns .check).1]
    rfl
  · rw [(hruns .fix).1]
    rfl
  · exact htwo.mpr ⟨by decide, by decide⟩
  · rw [(hruns .check).2.2.1.byRule.lookup]
    rfl

end Run

end UpgradeNotes
