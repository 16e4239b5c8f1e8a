/-!
# JSON texts

Values as they are written into a report: members on lines of their own, two
blanks for each level.
-/

namespace UpgradeNotes

/-- A value to be written. -/
inductive Json where
  | string (s : String)
  | number (n : Nat)
  | array (items : List Json)
  | object (members : List (String × Json))

namespace Json

/-- The digits of a control character. -/
def hex4 (n : Nat) : String :=
  let digits := Nat.toDigits 16 n
  String.ofList (List.replicate (4 - digits.length) '0' ++ digits)

/-- A character within quotes. Only quotes, backslashes and control characters
are escaped. -/
def escapeChar (c : Char) : String :=
  match c with
  | '"' => "\\\""
  | '\\' => "\\\\"
  | '\n' => "\\n"
  | '\r' => "\\r"
  | '\t' => "\\t"
  | '\x08' => "\\b"
  | '\x0c' => "\\f"
  | _ => if c.toNat < 0x20 then "\\u" ++ hex4 c.toNat else c.toString

/-- A text in quotes. -/
def quote (s : String) : String :=
  "\"" ++ String.join (s.toList.map escapeChar) ++ "\""

/-- A new line at a level. -/
def newline (level : Nat) : String :=
  "\n" ++ String.ofList (List.replicate (2 * level) ' ')

mutual

/-- The text of a value at a level. -/
def render (level : Nat) : Json → String
  | string s => quote s
  | number n => toString n
  | array [] => "[]"
  | array (v :: vs) =>
    "[" ++ newline (level + 1) ++ render (level + 1) v ++ renderItems (level + 1) vs ++
      newline level ++ "]"
  | object [] => "\x7b\x7d"
  | object ((k, v) :: rest) =>
    "\x7b" ++ newline (level + 1) ++ quote k ++ ": " ++ render (level + 1) v ++
      renderMembers (level + 1) rest ++ newline level ++ "\x7d"

/-- The further items of an array. -/
def renderItems (level : Nat) : List Json → String
  | [] => ""
  | v :: vs => "," ++ newline level ++ render level v ++ renderItems level vs

/-- The further members of an object. -/
def renderMembers (level : Nat) : List (String × Json) → String
  | [] => ""
  | (k, v) :: rest =>
    "," ++ newline level ++ quote k ++ ": " ++ render level v ++ renderMembers level rest

end

/-- The text of a value. -/
def pretty (v : Json) : String :=
  v.render 0

end Json

end UpgradeNotes
