namespace QuantumCircuit

/-!
# JSON text

A JSON value is written in one line without blanks, or spread over lines with an
indentation of two blanks per level.  The members of an object keep their order.
A number is given by its text, so that its digits are decided elsewhere.
-/

/-- A JSON value. -/
inductive Json where
  | null
  | boolean (value : Bool)
  | number (text : String)
  | string (content : String)
  | array (items : List Json)
  | object (members : List (String × Json))
deriving Repr, Inhabited

namespace Json

/-- A natural number. -/
def natural (n : Nat) : Json := number (toString n)

/-- A value that may be missing. -/
def optional {α : Type} (encode : α → Json) : Option α → Json
  | none => null
  | some value => encode value

/-- The digits `0` to `f` of a number below sixteen. -/
def hexDigit (n : Nat) : Char := Nat.digitChar n

/-- A character between quotes: quotes, backslashes and control characters are escaped. -/
def escape (c : Char) : List Char :=
  if c = '"' then ['\\', '"']
  else if c = '\\' then ['\\', '\\']
  else if c = '\n' then ['\\', 'n']
  else if c = '\r' then ['\\', 'r']
  else if c = '\t' then ['\\', 't']
  else if c = '\x08' then ['\\', 'b']
  else if c = '\x0c' then ['\\', 'f']
  else if c.toNat < 0x20 then
    ['\\', 'u', '0', '0', hexDigit (c.toNat / 16), hexDigit (c.toNat % 16)]
  else [c]

/-- A string between quotes. -/
def quoted (content : String) : List Char :=
  '"' :: content.toList.flatMap escape ++ ['"']

/-- What begins, separates and ends the parts of an array or an object at a level. -/
structure Spacing where
  /-- What stands before the first part and after the comma between two. -/
  before : Nat → List Char
  /-- What stands behind the last part. -/
  behind : Nat → List Char
  /-- What stands between a key and its value. -/
  colon : List Char

/-- A line feed and two blanks per level. -/
def newLine (level : Nat) : List Char := '\n' :: List.replicate (2 * level) ' '

/-- All in one line, without blanks. -/
def Spacing.compact : Spacing := ⟨fun _ => [], fun _ => [], [':']⟩

/-- One part per line. -/
def Spacing.spread : Spacing := ⟨fun level => newLine (level + 1), newLine, [':', ' ']⟩

mutual

/-- Writes a value that stands at a level. -/
def write (spacing : Spacing) (level : Nat) : Json → List Char
  | null => "null".toList
  | boolean value => (if value then "true" else "false").toList
  | number text => text.toList
  | string content => quoted content
  | array [] => ['[', ']']
  | array (item :: items) =>
    '[' :: spacing.before level ++ write spacing (level + 1) item ++
      writeItems spacing level items
  | object [] => ['\x7b', '\x7d']
  | object (member :: members) =>
    '\x7b' :: spacing.before level ++ writeMember spacing level member ++
      writeMembers spacing level members

/-- Writes the items of an array behind the first, and its end. -/
def writeItems (spacing : Spacing) (level : Nat) : List Json → List Char
  | [] => spacing.behind level ++ [']']
  | item :: items =>
    ',' :: spacing.before level ++ write spacing (level + 1) item ++
      writeItems spacing level items

/-- Writes a key and its value. -/
def writeMember (spacing : Spacing) (level : Nat) : String × Json → List Char
  | (key, value) => quoted key ++ spacing.colon ++ write spacing (level + 1) value

/-- Writes the members of an object behind the first, and its end. -/
def writeMembers (spacing : Spacing) (level : Nat) : List (String × Json) → List Char
  | [] => spacing.behind level ++ ['\x7d']
  | member :: members =>
    ',' :: spacing.before level ++ writeMember spacing level member ++
      writeMembers spacing level members

end

/-- The text of a value in one line. -/
def compact (value : Json) : String := String.ofList (write .compact 0 value)

/-- The text of a value over several lines. -/
def pretty (value : Json) : String := String.ofList (write .spread 0 value)

end Json

end QuantumCircuit
