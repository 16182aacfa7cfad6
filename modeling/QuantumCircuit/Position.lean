namespace QuantumCircuit

/-!
# Places in a text

A place is a line and a column, both counted from 1 and both counted in
characters.  Only a line feed starts a new line; a carriage return, a tab and a
character outside ASCII are one column each, like any other character.

The counters are words of 32 bits.  Behind the largest word a counter goes on with
zero; a build with overflow checks stops there instead.
-/

/-- A counter is the number that it shows. -/
instance coeCounterNat : Coe UInt32 Nat := ⟨UInt32.toNat⟩

/-- A number is counted up to the size of a word. -/
instance coeNatCounter : Coe Nat UInt32 := ⟨UInt32.ofNat⟩

/-- The sum of two counters, or the largest word if the sum is larger. -/
def saturatingCount (first second : UInt32) : UInt32 :=
  if first + second < first then 4294967295 else first + second

/-- A place in a text. -/
structure Position where
  line : UInt32
  column : UInt32
deriving DecidableEq, Repr, Inhabited

namespace Position

/-- The first place of every text. -/
def start : Position := ⟨1, 1⟩

/-- The place of a tree that was not read from a text. -/
def unplaced : Position := ⟨0, 0⟩

/-- The place that follows a character standing at `place`. -/
def advance (place : Position) (c : Char) : Position :=
  if c = '\n' then ⟨place.line + 1, 1⟩ else ⟨place.line, place.column + 1⟩

/-- The place that follows `text` when `text` begins at `place`. -/
def after (place : Position) (text : List Char) : Position :=
  text.foldl advance place

@[simp]
theorem after_nil (place : Position) : place.after [] = place := rfl

@[simp]
theorem after_cons (place : Position) (c : Char) (text : List Char) :
    place.after (c :: text) = (place.advance c).after text := rfl

@[simp]
theorem after_append (place : Position) (first second : List Char) :
    place.after (first ++ second) = (place.after first).after second := by
  simp [after, List.foldl_append]

/-- Is there no word left for the line or the column behind a character standing at `place`? -/
def overflows (place : Position) (c : Char) : Bool :=
  if c = '\n' then place.line + 1 = 0 else place.column + 1 = 0

/-- Does a counter overflow on the way from `place` over `text`? -/
def overflowsOver (place : Position) : List Char → Bool
  | [] => false
  | c :: text => place.overflows c || (place.advance c).overflowsOver text

/-- A place is written as its line and its column with a colon between them. -/
def text (place : Position) : String :=
  toString place.line ++ ":" ++ toString place.column

end Position

end QuantumCircuit
