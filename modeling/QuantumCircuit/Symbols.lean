import QuantumCircuit.Program.Basic

namespace QuantumCircuit

/-!
# Symbol tables

A symbol table holds the gates and the registers that a program declares, each
name once: a name that is there already is not entered again.  A scope puts the table
of a program behind that of a library: both are looked up, and only the program's own
table grows.
-/

/-- How a gate is to be called. -/
structure GateSignature where
  params : Nat
  qubits : Nat
  /-- Was the gate declared without a body? -/
  isOpaque : Bool
deriving DecidableEq, Repr, Inhabited

/-- The kind and the size of a register. -/
structure RegisterShape where
  kind : RegisterKind
  size : UInt64
deriving DecidableEq, Repr, Inhabited

/-- The names that a program declares, the latest first. -/
structure SymbolTable where
  gates : List (String × GateSignature)
  registers : List (String × RegisterShape)
deriving DecidableEq, Repr, Inhabited

/-- Pairs in the order of their names. -/
def sortedByName {α : Type} (entries : List (String × α)) : List (String × α) :=
  entries.mergeSort fun first second => first.1 ≤ second.1

/-- The sum of two words, or the largest word if the sum is larger. -/
def saturatingAdd (first second : UInt64) : UInt64 :=
  if first.toNat + second.toNat < Nat.pow 2 64 then first + second
  else UInt64.ofNat (Nat.pow 2 64 - 1)

namespace SymbolTable

/-- A table without names. -/
def empty : SymbolTable := ⟨[], []⟩

/-- The signature of a gate. -/
def gate? (table : SymbolTable) (name : String) : Option GateSignature :=
  table.gates.lookup name

/-- The shape of a register. -/
def register? (table : SymbolTable) (name : String) : Option RegisterShape :=
  table.registers.lookup name

/-- The table with one more gate. -/
def addGate (table : SymbolTable) (name : String) (signature : GateSignature) : SymbolTable :=
  ⟨(name, signature) :: table.gates, table.registers⟩

/-- The table with one more register. -/
def addRegister (table : SymbolTable) (name : String) (shape : RegisterShape) : SymbolTable :=
  ⟨table.gates, (name, shape) :: table.registers⟩

/-- Enters a gate, unless the table has one of this name. -/
def insertGate? (table : SymbolTable) (name : String) (signature : GateSignature) :
    Option SymbolTable :=
  if (table.gate? name).isSome then none else some (table.addGate name signature)

/-- Enters a register, unless the table has one of this name. -/
def insertRegister? (table : SymbolTable) (name : String) (shape : RegisterShape) :
    Option SymbolTable :=
  if (table.register? name).isSome then none else some (table.addRegister name shape)

/-- The gates in the order of their names. -/
def sortedGates (table : SymbolTable) : List (String × GateSignature) :=
  sortedByName table.gates

/-- The registers in the order of their names. -/
def sortedRegisters (table : SymbolTable) : List (String × RegisterShape) :=
  sortedByName table.registers

/-- The number of gates. -/
def gateCount (table : SymbolTable) : Nat := table.gates.length

/-- The sizes of all registers of a kind, added up to at most the largest word. -/
def totalSize (table : SymbolTable) (kind : RegisterKind) : UInt64 :=
  (table.registers.filter fun entry => entry.2.kind = kind).foldl
    (fun total entry => saturatingAdd total entry.2.size) 0

/-- The number of qubits. -/
def qubitCount (table : SymbolTable) : UInt64 := table.totalSize .quantum

/-- The number of classical bits. -/
def bitCount (table : SymbolTable) : UInt64 := table.totalSize .classical

end SymbolTable

/-- The names that are visible at a statement. -/
structure Scope where
  library : Option SymbolTable
  own : SymbolTable
deriving Repr, Inhabited

namespace Scope

/-- The scope of the first statement. -/
def initial (library : Option SymbolTable) : Scope := ⟨library, .empty⟩

/-- Is a gate of this name in the library? -/
def isLibraryGate (scope : Scope) (name : String) : Bool :=
  (scope.library.bind fun table => table.gate? name).isSome

/-- The signature of a visible gate. -/
def gate? (scope : Scope) (name : String) : Option GateSignature :=
  match scope.own.gate? name with
  | some signature => some signature
  | none => scope.library.bind fun table => table.gate? name

/-- The shape of a visible register. -/
def register? (scope : Scope) (name : String) : Option RegisterShape :=
  match scope.own.register? name with
  | some shape => some shape
  | none => scope.library.bind fun table => table.register? name

/-- The scope with one more gate of the program. -/
def addGate (scope : Scope) (name : String) (signature : GateSignature) : Scope :=
  ⟨scope.library, scope.own.addGate name signature⟩

/-- The scope with one more register of the program. -/
def addRegister (scope : Scope) (name : String) (shape : RegisterShape) : Scope :=
  ⟨scope.library, scope.own.addRegister name shape⟩

/-- Enters a gate, unless one of this name is visible. -/
def insertGate? (scope : Scope) (name : String) (signature : GateSignature) : Option Scope :=
  if (scope.gate? name).isSome then none
  else (scope.own.insertGate? name signature).map fun own => ⟨scope.library, own⟩

/-- Enters a register, unless one of this name is visible. -/
def insertRegister? (scope : Scope) (name : String) (shape : RegisterShape) : Option Scope :=
  if (scope.register? name).isSome then none
  else (scope.own.insertRegister? name shape).map fun own => ⟨scope.library, own⟩

/-- A visible name is one of the program, or else one of the library. -/
theorem gate?_eq_or (scope : Scope) (name : String) :
    scope.gate? name =
      (scope.own.gate? name).or (scope.library.bind fun table => table.gate? name) := by
  rw [gate?]
  cases scope.own.gate? name <;> rfl

theorem register?_eq_or (scope : Scope) (name : String) :
    scope.register? name =
      (scope.own.register? name).or (scope.library.bind fun table => table.register? name) := by
  rw [register?]
  cases scope.own.register? name <;> rfl

/-- What is not visible is not in the table of the program, which does not refuse it either. -/
theorem insertGate?_eq (scope : Scope) (name : String) (signature : GateSignature) :
    scope.insertGate? name signature =
      if (scope.gate? name).isSome then none else some (scope.addGate name signature) := by
  rw [insertGate?, SymbolTable.insertGate?, gate?_eq_or]
  cases scope.own.gate? name <;> rfl

theorem insertRegister?_eq (scope : Scope) (name : String) (shape : RegisterShape) :
    scope.insertRegister? name shape =
      if (scope.register? name).isSome then none else some (scope.addRegister name shape) := by
  rw [insertRegister?, SymbolTable.insertRegister?, register?_eq_or]
  cases scope.own.register? name <;> rfl

end Scope

end QuantumCircuit
