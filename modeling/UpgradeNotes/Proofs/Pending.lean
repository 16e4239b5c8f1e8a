import UpgradeNotes.Check
import UpgradeNotes.Proofs.Comments.Glued
import UpgradeNotes.Proofs.Docblock.Writing

/-!
# Documentation while rules write on it

What a run of calls does to the documentation of a node: it only adds
(`grown_after`), it leaves the node and its docblock where they are
(`start_after`, `span_after`), and afterwards every line of every call is
refused (`refused_after`). Where the edit in the end stands is decided by the
docblock that was read with the node.
-/

namespace UpgradeNotes

open Php Text Docblock

/-- A rule at work on a node, for a site. -/
structure Call where
  rule : Rule
  hierarchy : Hierarchy
  site : Site

/-- The lines that a call tries to write. -/
def Call.lines (c : Call) : List String :=
  c.rule.announcements c.hierarchy c.site

/-- A rule that announces one change wherever `run` may be called. -/
def sampleRule : Rule where
  name := "r"
  changes := [⟨"A", "run", "x", none, none, none, true⟩]

namespace Pending

/-- The documentation after a call. -/
def call (p : Pending) (c : Call) : Pending :=
  (p.announce c.rule c.hierarchy c.site).1

/-- The documentation after some calls. -/
def after (p : Pending) (calls : List Call) : Pending :=
  calls.foldl call p

/-! ## Calls -/

theorem announce_eq (p : Pending) (c : Call) :
    p.announce c.rule c.hierarchy c.site =
      ({ p with
          target := (p.target.writeAll c.lines).1
          added := p.added ++ (p.target.writeAll c.lines).2 },
        (p.target.writeAll c.lines).2) := rfl

theorem start_after (p : Pending) (calls : List Call) : (p.after calls).start = p.start := by
  induction calls generalizing p with
  | nil => rfl
  | cons c rest ih => exact ih (p.call c)

theorem span_after (p : Pending) (calls : List Call) : (p.after calls).span = p.span := by
  induction calls generalizing p with
  | nil => rfl
  | cons c rest ih => exact ih (p.call c)

theorem grown_after (p : Pending) (calls : List Call) :
    Target.Grown p.target (p.after calls).target := by
  induction calls generalizing p with
  | nil => exact Target.Grown.refl _
  | cons c rest ih => exact (Target.grown_writeAll p.target c.lines).trans (ih (p.call c))

/-- After some calls, every line of every call is refused. -/
theorem refused_after (p : Pending) {calls : List Call}
    (hl : ∀ c ∈ calls, ∀ line ∈ c.lines, Lasting line) :
    ∀ c ∈ calls, ∀ line ∈ c.lines, (p.after calls).target.write? line = none := by
  induction calls generalizing p with
  | nil => intro c hc; exact absurd hc List.not_mem_nil
  | cons head rest ih =>
    intro c hc line hline
    rcases List.mem_cons.mp hc with rfl | hc
    · -- the line is refused right after its call, and all later calls only add
      have hself := hl c List.mem_cons_self
      have hnow := Target.write?_writeAll_eq_none p.target hself line hline
      exact (grown_after (p.call c) rest).write?_eq_none (hself line hline) hnow
    · exact ih (p.call head) (fun d hd => hl d (List.mem_cons_of_mem _ hd)) c hc line hline

/-- Calls either change nothing or leave a docblock that is not empty. -/
theorem after_cases (p : Pending) (calls : List Call) :
    ((p.after calls).target = p.target ∧ (p.after calls).added = p.added) ∨
      ∃ d, (p.after calls).target.doc = some d ∧ d ≠ "" ∧ (p.after calls).added ≠ [] := by
  induction calls generalizing p with
  | nil => exact .inl ⟨rfl, rfl⟩
  | cons c rest ih =>
    rcases ih (p.call c) with ⟨ht, ha⟩ | h
    · have ht : (p.after (c :: rest)).target = (p.target.writeAll c.lines).1 := ht
      have ha : (p.after (c :: rest)).added = p.added ++ (p.target.writeAll c.lines).2 := ha
      rw [ht, ha]
      rcases Target.writeAll_cases p.target c.lines with hw | ⟨d, hd, hne, hnew⟩
      · rw [hw]
        exact .inl ⟨rfl, List.append_nil _⟩
      · exact .inr ⟨d, hd, hne, by simp [hnew]⟩
    · exact .inr h

/-- Calls whose lines are all refused change nothing. -/
theorem announce_of_refused {p : Pending} {c : Call}
    (h : ∀ line ∈ c.lines, p.target.write? line = none) :
    p.announce c.rule c.hierarchy c.site = (p, []) := by
  rw [announce_eq, Target.writeAll_of_refused h, List.append_nil]

theorem after_of_refused {p : Pending} {calls : List Call}
    (h : ∀ c ∈ calls, ∀ line ∈ c.lines, p.target.write? line = none) : p.after calls = p := by
  induction calls with
  | nil => rfl
  | cons c rest ih =>
    have hc : p.call c = p := by
      unfold call
      rw [announce_of_refused (h c List.mem_cons_self)]
    show (p.call c).after rest = p
    rw [hc]
    exact ih fun d hd => h d (List.mem_cons_of_mem _ hd)

/-! ## The edit -/

theorem edit?_of_added_nil {p : Pending} (h : p.added = []) : p.edit? = none := by
  unfold edit?
  cases p.target.doc <;> simp [h]

theorem edit?_of_span {p : Pending} {doc : String} {start stop : Nat}
    (hdoc : p.target.doc = some doc) (hadded : p.added ≠ []) (hspan : p.span = some (start, stop)) :
    p.edit? = some ⟨start, stop, doc, String.intercalate "\n" p.added⟩ := by
  simp [edit?, hdoc, hadded, hspan]

theorem edit?_of_no_span {p : Pending} {doc : String} (hdoc : p.target.doc = some doc)
    (hadded : p.added ≠ []) (hspan : p.span = none) :
    p.edit? = some ⟨p.start, p.start, doc ++ "\n" ++ p.target.indent,
      String.intercalate "\n" p.added⟩ := by
  simp [edit?, hdoc, hadded, hspan, Edit.insertion]

/-- An edit has something new in it. -/
theorem written_of_edit? {p : Pending} {calls : List Call} {doc : String} (hp : p.added = [])
    (hedit : (p.after calls).edit?.isSome) (hdoc : (p.after calls).target.doc = some doc) :
    doc ≠ "" ∧ (p.after calls).added ≠ [] := by
  rcases after_cases p calls with ⟨_, hadded⟩ | ⟨d, hd, hne, hadded⟩
  · rw [edit?_of_added_nil (hadded.trans hp)] at hedit
    exact absurd hedit (by simp)
  · rw [hdoc] at hd
    obtain rfl := Option.some.inj hd
    exact ⟨hne, hadded⟩

/-- Without an edit nothing was written. -/
theorem target_of_no_edit {p : Pending} {calls : List Call}
    (hedit : (p.after calls).edit? = none) : (p.after calls).target = p.target := by
  rcases after_cases p calls with ⟨ht, _⟩ | ⟨d, hd, _, hadded⟩
  · exact ht
  · cases hspan : (p.after calls).span with
    | none =>
      rw [edit?_of_no_span hd hadded hspan] at hedit
      exact absurd hedit (by simp)
    | some span =>
      rw [edit?_of_span hd hadded hspan] at hedit
      exact absurd hedit (by simp)

/-! ## The documentation of a node as it is read -/

theorem new_comments (trivia : List Trivia) (source : List Char) (n : Nat) :
    (Pending.new trivia source n).target.comments = commentsOf (runAt trivia source n) := by
  simp only [Pending.new, attachedComments_eq]

theorem new_doc (trivia : List Trivia) (source : List Char) (n : Nat) :
    (Pending.new trivia source n).target.doc =
      ((runAt trivia source n).find? (·.isDoc)).map (·.text) := by
  simp only [Pending.new, attachedComments_eq]

theorem new_span (trivia : List Trivia) (source : List Char) (n : Nat) :
    (Pending.new trivia source n).span =
      ((runAt trivia source n).find? (·.isDoc)).map fun t => (t.start, t.stop) := by
  simp only [Pending.new, attachedComments_eq]

end Pending

end UpgradeNotes
