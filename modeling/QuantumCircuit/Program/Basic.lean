import QuantumCircuit.Expr.Basic
import QuantumCircuit.Position

namespace QuantumCircuit

/-!
# Programs

A program is a list of statements.  Every statement, every gate call and every
reference to a register carries the place of its first token.  Register sizes,
indices and compared values are words of 64 bits, version numbers words of 32
bits: a text with a larger number is refused when it is read.
-/

/-- A register holds qubits or classical bits. -/
inductive RegisterKind where
  | quantum
  | classical
deriving DecidableEq, Repr, Inhabited

/-- The keyword that declares a register. -/
def RegisterKind.keyword : RegisterKind → String
  | quantum => "qreg"
  | classical => "creg"

/-- A reference to a register, or to one element of it. -/
structure RegisterRef where
  register : String
  /-- The element; none for the whole register. -/
  index : Option UInt64
  position : Position
deriving DecidableEq, Repr, Inhabited

namespace RegisterRef

/-- A reference to a whole register that is not taken from a text. -/
def whole (register : String) : RegisterRef := ⟨register, none, .unplaced⟩

/-- A reference to one element that is not taken from a text. -/
def element (register : String) (index : UInt64) : RegisterRef :=
  ⟨register, some index, .unplaced⟩

/-- Does the reference mean the whole register? -/
def isWhole (reference : RegisterRef) : Bool := reference.index.isNone

/-- A reference is written as the register's name, with an index in brackets if it has one. -/
def text (reference : RegisterRef) : String :=
  match reference.index with
  | some index => reference.register ++ "[" ++ toString index.toNat ++ "]"
  | none => reference.register

end RegisterRef

/-- The application of a gate to parameters and qubits. -/
structure GateCall where
  name : String
  params : List Expr
  qubits : List RegisterRef
  position : Position
deriving DecidableEq, Repr, Inhabited

/-- The name of a declared gate and its formal parameters and qubits. -/
structure GateHeader where
  name : String
  params : List String
  qubits : List String
deriving DecidableEq, Repr, Inhabited

/-- A gate that is defined by calls of other gates. -/
structure GateDefinition where
  header : GateHeader
  body : List GateCall
  position : Position
deriving DecidableEq, Repr, Inhabited

/-- A statement. -/
inductive Statement where
  | version (major minor : UInt32) (position : Position)
  | inclusion (path : String) (position : Position)
  | register (kind : RegisterKind) (name : String) (size : UInt64) (position : Position)
  | gate (definition : GateDefinition)
  | opaqueGate (header : GateHeader) (position : Position)
  | call (application : GateCall)
  | measure (source target : RegisterRef) (position : Position)
  | reset (target : RegisterRef) (position : Position)
  | barrier (targets : List RegisterRef) (position : Position)
  | condition (register : String) (value : UInt64) (application : GateCall) (position : Position)
deriving DecidableEq, Repr, Inhabited

/-- The place of a statement's first token. -/
def Statement.position : Statement → Position
  | version _ _ position => position
  | inclusion _ position => position
  | register _ _ _ position => position
  | gate definition => definition.position
  | opaqueGate _ position => position
  | call application => application.position
  | measure _ _ position => position
  | reset _ position => position
  | barrier _ position => position
  | condition _ _ _ position => position

/-- A program: statements in the order of the text. -/
structure Program where
  statements : List Statement
deriving DecidableEq, Repr, Inhabited

/-- The path under which the preloaded gate library is included. -/
def standardLibraryPath : String := "qelib1.inc"

namespace Program

/-- The number of statements. -/
def length (program : Program) : Nat := program.statements.length

/-- Has the program no statements? -/
def isEmpty (program : Program) : Bool := program.statements.isEmpty

/-- The numbers of the first version declaration. -/
def version? (program : Program) : Option (UInt32 × UInt32) :=
  program.statements.findSome? fun
    | .version major minor _ => some (major, minor)
    | _ => none

/-- The paths of all inclusions in order. -/
def includes (program : Program) : List String :=
  program.statements.filterMap fun
    | .inclusion path _ => some path
    | _ => none

/-- The included paths other than that of the preloaded library; their files are never read. -/
def unresolvedIncludes (program : Program) : List String :=
  program.includes.filter fun path => path ≠ standardLibraryPath

/-- The gate calls outside gate bodies in order, those under a condition among them. -/
def gateCalls (program : Program) : List GateCall :=
  program.statements.filterMap fun
    | .call application => some application
    | .condition _ _ application _ => some application
    | _ => none

end Program

end QuantumCircuit
