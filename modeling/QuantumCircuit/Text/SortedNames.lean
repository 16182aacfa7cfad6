namespace QuantumCircuit

/-!
# Sorted lists of names

Names are ordered by their characters' code points, which is also the order of
their bytes.  A sorted list of names holds each name once.
-/

/-- Puts a name at its place in a sorted list that may hold it already. -/
def insertName (name : String) : List String → List String
  | [] => [name]
  | first :: rest =>
    if name < first then name :: first :: rest
    else if name = first then first :: rest
    else first :: insertName name rest

/-- The given names in order, each once. -/
def sortNames (names : List String) : List String :=
  names.foldr insertName []

@[simp]
theorem mem_insertName (name other : String) (names : List String) :
    other ∈ insertName name names ↔ other = name ∨ other ∈ names := by
  induction names with
  | nil => simp [insertName]
  | cons first rest ih =>
    simp only [insertName]
    split
    · simp
    · split
      · rename_i h; subst h; simp
      · simp only [List.mem_cons, ih]
        constructor <;> rintro (h | h | h) <;> simp [h]

@[simp]
theorem mem_sortNames (name : String) (names : List String) :
    name ∈ sortNames names ↔ name ∈ names := by
  induction names with
  | nil => simp [sortNames]
  | cons first rest ih =>
    simpa [sortNames] using or_congr_right ih

end QuantumCircuit
