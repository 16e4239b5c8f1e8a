import UpgradeNotes.Catalog
import UpgradeNotes.Proofs.Text.Occurrence

/-!
# Changes as entries

A change can be written as an entry of a catalog, under the long keys. What is read from an
entry has a trimmed method, a note that says something, and a class without separators in
front. Read from its own entry, such a change is the same change again, but for one case:
blanks behind the separators of a class name are not trimmed the first time
(`ofEntry?_toEntry_iff`).
-/

namespace UpgradeNotes

namespace Change

open Text Yaml

/-! ## Reading -/

/-- What is read from an entry: the texts under its keys, the class and the method
trimmed. -/
theorem ofEntry?_eq_some {v : Value} {c : Change} (h : ofEntry? v = some c) :
    ∃ entries className method, v = .mapping entries ∧
      (Value.lookupFirst? entries ["class", "c"]).bind Value.scalarText? = some className ∧
      (Value.lookupFirst? entries ["method", "m"]).bind Value.scalarText? = some method ∧
      (Value.lookupFirst? entries ["note", "n"]).bind Value.scalarText? = some c.note ∧
      c.className = dropLeading '\\' (trim className) ∧ c.method = trim method ∧
      c.className ≠ "" ∧ trim c.note ≠ "" := by
  cases v with
  | mapping entries =>
    simp only [Option.bind_eq_bind, ofEntry?, Option.bind_eq_some_iff] at h
    obtain ⟨className, hclass, method, hmethod, note, hnote, h⟩ := h
    split at h
    · exact absurd h (by simp)
    · rename_i hkept
      obtain rfl := Option.some.inj h
      simp only [Bool.or_eq_true, not_or, String.isEmpty_iff] at hkept
      exact ⟨entries, className, method, rfl, Option.bind_eq_some_iff.mpr hclass,
        Option.bind_eq_some_iff.mpr hmethod, Option.bind_eq_some_iff.mpr hnote, rfl, rfl, hkept⟩
  | _ => exact absurd h nofun

/-! ## Writing -/

/-- An entry under a key, if there is a text for it. -/
def textEntry (key : String) (text : Option String) : List (Value × Value) :=
  text.toList.map fun t => (.string key, .string t)

/-- The keys and values of the entry of a change. -/
def entries (c : Change) : List (Value × Value) :=
  [(.string "class", .string c.className), (.string "method", .string c.method),
    (.string "note", .string c.note), (.string "unknown-receiver-allowed", .bool c.onUnknown)] ++
  (textEntry "parameter" c.parameter ++ textEntry "from" c.before ++ textEntry "to" c.after)

/-- The change as an entry of a catalog, under the long keys. -/
def toEntry (c : Change) : Value :=
  .mapping c.entries

theorem lookup?_append (key : String) (front back : List (Value × Value)) :
    Value.lookup? key (front ++ back) =
      (Value.lookup? key front).or (Value.lookup? key back) := by
  induction front with
  | nil => rfl
  | cons entry front ih =>
    obtain ⟨k, v⟩ := entry
    cases k with
    | string k => by_cases hk : k = key <;> simp [Value.lookup?, hk, ih]
    | _ => simpa [Value.lookup?] using ih

theorem lookup?_textEntry (key other : String) (text : Option String) :
    Value.lookup? key (textEntry other text) =
      if other = key then text.map Value.string else none := by
  cases text with
  | none => simp [textEntry, Value.lookup?]
  | some t => simp [textEntry, Value.lookup?]

theorem scalarText?_map_string (text : Option String) :
    (text.map Value.string).bind Value.scalarText? = text := by
  cases text with
  | none => rfl
  | some t => rfl

theorem lookupFirst?_singleton (es : List (Value × Value)) (key : String) :
    Value.lookupFirst? es [key] = Value.lookup? key es := by
  unfold Value.lookupFirst?
  cases Value.lookup? key es with
  | none => rfl
  | some v => rfl

/-- What is read from the entry of a change. -/
theorem ofEntry?_toEntry (c : Change) :
    ofEntry? c.toEntry =
      if (dropLeading '\\' (trim c.className)).isEmpty || (trim c.note).isEmpty then none
      else some { c with
        className := dropLeading '\\' (trim c.className)
        method := trim c.method } := by
  have hclass : Value.lookupFirst? c.entries ["class", "c"] = some (.string c.className) := rfl
  have hmethod : Value.lookupFirst? c.entries ["method", "m"] = some (.string c.method) := rfl
  have hnote : Value.lookupFirst? c.entries ["note", "n"] = some (.string c.note) := rfl
  have hunknown :
      Value.lookupFirst? c.entries ["unknown-receiver-allowed", "unknown-allowed", "u"] =
        some (.bool c.onUnknown) := rfl
  have hparameter : Value.lookupFirst? c.entries ["parameter"] = c.parameter.map .string := by
    simp [lookupFirst?_singleton, entries, Value.lookup?, lookup?_append, lookup?_textEntry]
  have hbefore : Value.lookupFirst? c.entries ["from"] = c.before.map .string := by
    simp [lookupFirst?_singleton, entries, Value.lookup?, lookup?_append, lookup?_textEntry]
  have hafter : Value.lookupFirst? c.entries ["to"] = c.after.map .string := by
    simp [lookupFirst?_singleton, entries, Value.lookup?, lookup?_append, lookup?_textEntry]
  simp only [toEntry, ofEntry?, hclass, hmethod, hnote, hunknown, hparameter, hbefore, hafter,
    scalarText?_map_string, Option.bind_some, Option.bind_eq_bind, Value.scalarText?,
    Option.map_some, Option.getD_some, flag]

/-- What is read from an entry has a class that is not empty, has no separator in front and no
blank at its end, a trimmed method and a note that is not blank. It is read back from its own
entry iff there is no blank in front of its class either. -/
theorem ofEntry?_toEntry_iff {v : Value} {c : Change} (h : ofEntry? v = some c) :
    ( ofEntry? c.toEntry = some c ↔ trim c.className = c.className) ∧
      c.className ≠ "" ∧ c.className.toList.head? ≠ some '\\' ∧
      (∀ last, c.className.toList.getLast? = some last → isBlank last = false) ∧
      trim c.method = c.method ∧ trim c.note ≠ "" := by
  obtain ⟨-, written, method, -, -, -, -, hclass, hmethod, hne, hnote⟩ := ofEntry?_eq_some h
  have hhead : c.className.toList.head? ≠ some '\\' := by
    rw [hclass]
    exact head?_dropLeading '\\' (trim written)
  have htrimmed : trim c.method = c.method := by
    rw [hmethod, trim_trim]
  refine ⟨?_, hne, hhead, ?_, htrimmed, hnote⟩
  · rw [ofEntry?_toEntry]
    constructor
    · intro hback
      split at hback
      · exact absurd hback (by simp)
      · have hsame := congrArg Change.className (Option.some.inj hback)
        simp only at hsame
        exact trim_eq_self_of_dropLeading hsame
    · intro hsame
      rw [hsame, dropLeading_of_head? hhead, htrimmed, if_neg]
      simpa using ⟨hne, hnote⟩
  · intro last hlast
    rw [hclass] at hlast
    exact isBlank_of_getLast?_dropLeading_trim hlast

/-- An entry with short keys, a rooted class with blanks around it and a number. -/
def looseEntry : Value :=
  .mapping
    [(.string "c", .string " \\Dev\\BuildTask "), (.string "m", .string " run"),
      (.string "n", .string "Takes an output. "), (.string "u", .string "Yes"),
      (.string "from", .number (.int 1))]

/-- The change that it describes. -/
def looseChange : Change where
  className := "Dev\\BuildTask"
  method := "run"
  note := "Takes an output. "
  before := some "1"
  onUnknown := true

theorem ofEntry?_toEntry_iff_loose :
    ofEntry? looseEntry = some looseChange ∧ ofEntry? looseChange.toEntry = some looseChange := by
  have h : ofEntry? looseEntry = some looseChange := by decide +kernel
  exact ⟨h, (ofEntry?_toEntry_iff h).1.mpr (by decide +kernel)⟩

/-- Blanks behind the separators of a class name stay in it the first time, and go the
second time. -/
theorem not_ofEntry?_toEntry :
    ∃ c, ofEntry? (.mapping
        [(.string "class", .string "\\ Foo"), (.string "method", .string "run"),
          (.string "note", .string "n")]) = some c ∧
      c.className = " Foo" ∧ ofEntry? c.toEntry = some { c with className := "Foo" } ∧
      ofEntry? c.toEntry ≠ some c := by
  refine ⟨{ className := " Foo", method := "run", note := "n" }, ?_⟩
  decide +kernel

end Change

end UpgradeNotes
