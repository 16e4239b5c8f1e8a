import UpgradeNotes.Config
import UpgradeNotes.Proofs.Text.Lines
import UpgradeNotes.Proofs.Text.Occurrence

/-!
# Paths that are left out

A pattern that ends in slashes and has no special characters names a directory. It leaves
out the paths below a directory of that name: those in whose segments the segments of the
pattern stand in a row with a further segment behind them. More patterns leave out more
paths, in whatever order they stand (`excludes_by_segments`).
-/

namespace UpgradeNotes

open Text

namespace Glob

/-- A character that stands for itself alone. -/
def isPlain (c : Char) : Bool :=
  c != '?' && c != '*' && c != '['

theorem isPlain_iff {c : Char} : isPlain c = true ↔ c ≠ '?' ∧ c ≠ '*' ∧ c ≠ '[' := by
  simp [isPlain, and_assoc]

/-- The parts of a pattern without special characters are its characters. -/
theorem partsFrom_plain {cs : List Char} (h : ∀ c ∈ cs, isPlain c = true)
    (before : Option Char) {fuel : Nat} (hfuel : cs.length ≤ fuel) :
    partsFrom fuel before cs = some (cs.map .char) := by
  induction cs generalizing before fuel with
  | nil => cases fuel <;> rfl
  | cons c cs ih =>
    obtain ⟨hc, hrest⟩ := List.forall_mem_cons.mp h
    obtain ⟨hany, hstar, hbracket⟩ := isPlain_iff.mp hc
    cases fuel with
    | zero => simp at hfuel
    | succ fuel =>
      rw [List.length_cons, Nat.add_le_add_iff_right] at hfuel
      unfold partsFrom
      split
      · exact absurd rfl hany
      · exact absurd rfl hstar
      · exact absurd rfl hbracket
      · rw [ih hrest (some c) hfuel]
        rfl

theorem fits_chars {cs ds : List Char} : fits (ds.map .char) cs = true ↔ cs = ds := by
  induction ds generalizing cs with
  | nil => simp [fits]
  | cons d ds ih =>
    cases cs with
    | nil => simp [fits]
    | cons c cs => simp [fits, ih]

end Glob

namespace Path

theorem eq_of_step?_eq_name {first : Bool} {segment name : String}
    (h : step? first segment = some (.name name)) : segment = name := by
  unfold step? at h
  split at h
  · exact absurd h nofun
  · split at h
    · split at h <;> exact absurd h nofun
    · split at h
      · exact absurd h (by simp)
      · exact Step.name.inj (Option.some.inj h)

theorem mem_of_name_mem_stepsOf {name : String} {first : Bool} {segments : List String}
    (h : .name name ∈ stepsOf first segments) : name ∈ segments := by
  induction segments generalizing first with
  | nil => exact absurd h List.not_mem_nil
  | cons segment rest ih =>
    rw [stepsOf, List.mem_append, Option.mem_toList] at h
    rcases h with h | h
    · rw [eq_of_step?_eq_name h]
      exact List.mem_cons_self
    · exact List.mem_cons_of_mem _ (ih h)

/-- The name of a file has no slash. -/
theorem not_mem_of_fileName? {path name : String} (h : fileName? path = some name) :
    '/' ∉ name.toList := by
  have hstep : .name name ∈ steps path := by
    unfold fileName? at h
    split at h
    · rename_i s hlast
      obtain rfl := Option.some.inj h
      exact List.mem_of_getLast? hlast
    · exact absurd h (by simp)
  have hsegment : name ∈ split '/' path := by
    unfold steps at hstep
    split at hstep
    · rcases List.mem_cons.mp hstep with hroot | hstep
      · exact absurd hroot (by simp)
      · exact mem_of_name_mem_stepsOf hstep
    · exact mem_of_name_mem_stepsOf hstep
  obtain ⟨part, hpart, rfl⟩ := List.mem_map.mp hsegment
  rw [String.toList_ofList]
  exact not_mem_of_mem_splitChars hpart

end Path

namespace Config

/-- A pattern without special characters fits the path it is, and files of its name. -/
theorem globExcludes_plain_iff {pattern path : String} (h : pattern.toList.all Glob.isPlain = true) :
    globExcludes pattern path = true ↔ path = pattern ∨ Path.fileName? path = some pattern := by
  have hparts : Glob.parse? pattern = some (pattern.toList.map .char) :=
    Glob.partsFrom_plain (List.all_eq_true.mp h) none (Nat.le_of_eq pattern.length_toList)
  have hfits : ∀ s : String, Glob.fits (pattern.toList.map .char) s.toList = true ↔ s = pattern :=
    fun s => Glob.fits_chars.trans String.toList_inj
  unfold globExcludes
  simp only [hparts, Bool.or_eq_true, hfits, Option.any_eq_true]
  simp

/-- What names a directory fits no path as a whole, if the path does not end in a slash. -/
theorem globExcludes_directory {pattern path : String}
    (h : pattern.toList.all Glob.isPlain = true)
    (hpattern : pattern.toList.getLast? = some '/') (hpath : path.toList.getLast? ≠ some '/') :
    globExcludes pattern path = false := by
  rw [Bool.eq_false_iff, ne_eq, globExcludes_plain_iff h]
  rintro (rfl | hname)
  · exact hpath hpattern
  · exact Path.not_mem_of_fileName? hname (List.mem_of_getLast? hpattern)

/-- A directory stands between slashes in a path, or in front of one at its start, iff its
segments stand in a row among those of the path, with a further one behind them. -/
theorem segments_iff {dir path : List Char} :
    '/' :: (dir ++ ['/']) <:+: path ∨ dir ++ ['/'] <+: path ↔
      ∃ front rest, rest ≠ [] ∧
        splitChars '/' path = front ++ splitChars '/' dir ++ rest := by
  constructor
  · rintro (⟨a, b, rfl⟩ | ⟨b, rfl⟩)
    · refine ⟨splitChars '/' a, splitChars '/' b, splitChars_ne_nil '/' b, ?_⟩
      have htext : a ++ '/' :: (dir ++ ['/']) ++ b = (a ++ '/' :: dir) ++ '/' :: b := by simp
      rw [htext, splitChars_append_cons, splitChars_append_cons]
    · refine ⟨[], splitChars '/' b, splitChars_ne_nil '/' b, ?_⟩
      have htext : dir ++ ['/'] ++ b = dir ++ '/' :: b := by simp
      rw [htext, splitChars_append_cons, List.nil_append]
  · rintro ⟨front, rest, hrest, hsplit⟩
    have hdir := splitChars_ne_nil '/' dir
    obtain ⟨a, b, rfl, ha, -⟩ := exists_of_splitChars_eq_append hsplit (by simp [hdir]) hrest
    cases front with
    | nil =>
      obtain rfl := splitChars_inj ha
      exact .inr ⟨b, by simp⟩
    | cons part front =>
      obtain ⟨a, dir', rfl, -, hdir'⟩ :=
        exists_of_splitChars_eq_append ha (List.cons_ne_nil part front) hdir
      obtain rfl := splitChars_inj hdir'
      exact .inl ⟨a, b, by simp⟩

/-- The pattern for a directory, with one slash or more behind its name. -/
def directoryPattern (dir : String) (more : Nat) : String :=
  dir ++ String.ofList (List.replicate (more + 1) '/')

theorem getLast?_directoryPattern (dir : String) (more : Nat) :
    (directoryPattern dir more).toList.getLast? = some '/' := by
  simp [directoryPattern, List.replicate_succ']

theorem isPlain_directoryPattern {dir : String} (h : dir.toList.all Glob.isPlain = true)
    (more : Nat) : (directoryPattern dir more).toList.all Glob.isPlain = true := by
  rw [directoryPattern, String.toList_append, String.toList_ofList, List.all_append, h,
    List.all_replicate]
  rfl

theorem directoryExcludes_iff {dir path : String} (hdir : dir.toList.getLast? ≠ some '/')
    (more : Nat) :
    directoryExcludes (directoryPattern dir more) path = true ↔
      ∃ front rest, rest ≠ [] ∧ split '/' path = front ++ split '/' dir ++ rest := by
  have hdrop : dropTrailing '/' (directoryPattern dir more) = dir :=
    dropTrailing_append_replicate hdir (more + 1)
  unfold directoryExcludes
  simp only [getLast?_directoryPattern, beq_self_eq_true, Bool.true_and, hdrop, Bool.or_eq_true,
    contains_iff, startsWith_iff]
  have htext : ("/" ++ dir ++ "/").toList = '/' :: (dir.toList ++ ['/']) := by simp
  have hstart : (dir ++ "/").toList = dir.toList ++ ['/'] := by simp
  rw [htext, hstart, segments_iff]
  constructor
  · rintro ⟨front, rest, hrest, hsplit⟩
    refine ⟨front.map String.ofList, rest.map String.ofList, by simpa using hrest, ?_⟩
    rw [split, hsplit, List.map_append, List.map_append]
    rfl
  · rintro ⟨front, rest, hrest, hsplit⟩
    refine ⟨front.map String.toList, rest.map String.toList, by simpa using hrest, ?_⟩
    simpa [split, Function.comp_def] using congrArg (List.map String.toList) hsplit

/-- With the pattern of a directory alone, the paths left out are those in whose segments the
segments of the directory stand in a row with a further one behind them. Of a longer list of
patterns, in any order, no path is kept that was left out. -/
theorem excludes_by_segments :
    (∀ (c : Config) (dir path : String) (more : Nat), c.exclude = [directoryPattern dir more] →
      dir.toList.all Glob.isPlain = true → dir.toList.getLast? ≠ some '/' →
      path.toList.getLast? ≠ some '/' →
      (c.excludes path = true ↔
        ∃ front rest, rest ≠ [] ∧ split '/' path = front ++ split '/' dir ++ rest)) ∧
    ∀ (c : Config) (patterns : List String) (path : String), c.exclude ⊆ patterns →
      c.excludes path = true → { c with exclude := patterns }.excludes path = true := by
  constructor
  · intro c dir path more hc hplain hdir hpath
    have hglob := globExcludes_directory (isPlain_directoryPattern hplain more)
      (getLast?_directoryPattern dir more) hpath
    unfold excludes
    simp only [hc, List.any_cons, List.any_nil, Bool.or_false, hglob, Bool.false_or]
    exact directoryExcludes_iff hdir more
  · intro c patterns path hsub hleft
    obtain ⟨pattern, hpattern, hfits⟩ := List.any_eq_true.mp hleft
    exact List.any_eq_true.mpr ⟨pattern, hsub hpattern, hfits⟩

/-- Settings that leave out the dependencies of a project. -/
def sampleConfig : Config where
  exclude := ["vendor/bin//"]

theorem excludes_by_segments_sample :
    sampleConfig.excludes "project/vendor/bin/run.php" = true ∧
      sampleConfig.excludes "project/vendor/binary.php" = false ∧
      { sampleConfig with exclude := ["*.md", "vendor/bin//"] }.excludes
        "project/vendor/bin/run.php" = true := by
  obtain ⟨hsegments, hmore⟩ := excludes_by_segments
  have hiff := fun path =>
    hsegments sampleConfig "vendor/bin" path 1 rfl (by decide +kernel) (by decide +kernel)
  have hrun : sampleConfig.excludes "project/vendor/bin/run.php" = true :=
    (hiff _ (by decide +kernel)).mpr ⟨["project"], ["run.php"], nofun, by decide +kernel⟩
  refine ⟨hrun, ?_, hmore sampleConfig _ _ (by decide +kernel) hrun⟩
  rw [Bool.eq_false_iff, ne_eq, hiff _ (by decide +kernel)]
  rintro ⟨front, rest, -, hsplit⟩
  have hparts : split '/' "project/vendor/binary.php" = ["project", "vendor", "binary.php"] := by
    decide +kernel
  have hdir : split '/' "vendor/bin" = ["vendor", "bin"] := by decide +kernel
  have hmem : "bin" ∈ split '/' "project/vendor/binary.php" := by
    rw [hsplit, hdir]
    simp
  rw [hparts] at hmem
  exact absurd hmem (by decide +kernel)

end Config

end UpgradeNotes
