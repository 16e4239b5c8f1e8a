/-!
# Receiver types

What is known about the object a method is called on. Only the distinctions
that matter for matching are kept: named classes, unions of types, and the
cases in which nothing is known.
-/

namespace UpgradeNotes

/-- The type of a receiver. -/
inductive ReceiverType where
  /-- An instance of the named class. -/
  | object (name : String)
  /-- Some object of an unnamed class. -/
  | anyObject
  /-- Nothing is known. -/
  | unresolved
  /-- The inference failed. -/
  | error
  /-- No value is ever produced. -/
  | never
  /-- A value that is no object, such as a number or an array. -/
  | scalar (name : String)
  /-- One of several types. -/
  | union (members : List ReceiverType)

namespace ReceiverType

mutual
/-- Whether two types are the same. -/
def beq : ReceiverType → ReceiverType → Bool
  | object a, object b => a == b
  | anyObject, anyObject => true
  | unresolved, unresolved => true
  | error, error => true
  | never, never => true
  | scalar a, scalar b => a == b
  | union a, union b => beqAll a b
  | _, _ => false
/-- Whether two lists of types are the same. -/
def beqAll : List ReceiverType → List ReceiverType → Bool
  | [], [] => true
  | a :: as, b :: bs => beq a b && beqAll as bs
  | _, _ => false
end

instance : BEq ReceiverType := ⟨beq⟩

mutual
theorem eq_of_beq : (a b : ReceiverType) → beq a b = true → a = b
  | object a, b, h => by cases b <;> simp_all [beq]
  | anyObject, b, h => by cases b <;> simp_all [beq]
  | unresolved, b, h => by cases b <;> simp_all [beq]
  | error, b, h => by cases b <;> simp_all [beq]
  | never, b, h => by cases b <;> simp_all [beq]
  | scalar a, b, h => by cases b <;> simp_all [beq]
  | union as, b, h => by
    cases b <;> simp_all [beq]
    exact eq_of_beqAll as _ h
theorem eq_of_beqAll : (as bs : List ReceiverType) → beqAll as bs = true → as = bs
  | [], bs, h => by cases bs <;> simp_all [beqAll]
  | a :: as, bs, h => by
    cases bs with
    | nil => simp [beqAll] at h
    | cons b bs =>
      simp only [beqAll, Bool.and_eq_true] at h
      rw [eq_of_beq a b h.1, eq_of_beqAll as bs h.2]
end

mutual
theorem beq_self : (a : ReceiverType) → beq a a = true
  | object _ => by simp [beq]
  | anyObject => rfl
  | unresolved => rfl
  | error => rfl
  | never => rfl
  | scalar _ => by simp [beq]
  | union as => by simpa [beq] using beqAll_self as
theorem beqAll_self : (as : List ReceiverType) → beqAll as as = true
  | [] => rfl
  | a :: as => by simp [beqAll, beq_self a, beqAll_self as]
end

instance : LawfulBEq ReceiverType where
  eq_of_beq h := eq_of_beq _ _ h
  rfl := beq_self _

/-- A type about which nothing was said. -/
instance : Inhabited ReceiverType := ⟨unresolved⟩

/-- Adds one member to the members of a union: a union adds its own members, any
other type is added unless it is there already. -/
def addMember (members : List ReceiverType) : ReceiverType → List ReceiverType
  | union inner => members ++ inner
  | t => if members.contains t then members else members ++ [t]

/-- The union of some types. One member stands for itself, and no member at all
is `never`. -/
def unionOf (types : List ReceiverType) : ReceiverType :=
  match types.foldl addMember [] with
  | [] => never
  | [t] => t
  | members => union members

/-- Whether nothing is known about the class. A union counts as known. -/
def isUnknown : ReceiverType → Bool
  | unresolved | error | anyObject => true
  | _ => false

mutual
/-- The classes that a type names. -/
def classNames : ReceiverType → List String
  | object name => [name]
  | union members => classNamesAll members
  | _ => []
/-- The classes that some types name. -/
def classNamesAll : List ReceiverType → List String
  | [] => []
  | t :: ts => classNames t ++ classNamesAll ts
end

mutual
/-- The written form of a type. -/
def describe : ReceiverType → String
  | object name => name
  | anyObject => "object"
  | unresolved => "mixed"
  | error => "*ERROR*"
  | never => "never"
  | scalar name => name
  | union members => String.intercalate "|" (describeAll members)
/-- The written forms of some types. -/
def describeAll : List ReceiverType → List String
  | [] => []
  | t :: ts => describe t :: describeAll ts
end

end ReceiverType

end UpgradeNotes
