import QuantumCircuit.Parsing
import QuantumCircuit.Validity.Check

namespace QuantumCircuit

/-!
# Gate libraries

A library is a text that declares gates and nothing else.  It is read and checked
once; programs are then checked against its table.
-/

/-- A library that was read and checked. -/
structure Library where
  /-- The declarations in the order of the text. -/
  program : Program
  symbols : SymbolTable
deriving Repr

/-- Checks a program and turns a fault into a diagnostic. -/
def Program.validate (library : Option SymbolTable) (program : Program) :
    Except Diagnostic SymbolTable :=
  (program.check library).mapError fun fault => .semantic fault.report

namespace Library

/-- Reads and checks the text of a library. -/
def load (text : String) : Except Diagnostic Library := do
  let program ← Program.parse .library text
  let symbols ← program.validate none
  return ⟨program, symbols⟩

/-- The definition of a gate with a body; none for other names. -/
def definition? (library : Library) (name : String) : Option GateDefinition :=
  library.program.statements.findSome? fun
    | .gate definition => if definition.header.name = name then some definition else none
    | _ => none

end Library

end QuantumCircuit
