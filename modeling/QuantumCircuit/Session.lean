import QuantumCircuit.Library.Basic
import QuantumCircuit.Library.Standard

namespace QuantumCircuit

/-!
# Sessions

A session loads the gate library once, unless it is asked not to, and then reads
any number of programs against it.  A program leaves no trace in the session.
-/

/-- What a session is asked for. -/
structure Options where
  /-- Is the gate library preloaded? -/
  core : Bool
deriving DecidableEq, Repr

/-- By default the gate library is preloaded. -/
def Options.standard : Options := ⟨true⟩

/-- The options of a session and the library that it preloaded. -/
structure Session where
  options : Options
  library : Option Library
deriving Repr

/-- A program that was read and checked, with the names that it declares itself. -/
structure CheckedProgram where
  program : Program
  symbols : SymbolTable
deriving Repr

namespace Session

/-- Starts a session. -/
def start (options : Options) : Except Diagnostic Session :=
  if options.core then
    match Library.load standardText with
    | .ok library => .ok ⟨options, some library⟩
    | .error fault => .error (.libraryFault fault)
  else .ok ⟨options, none⟩

/-- The table of the preloaded library. -/
def librarySymbols (session : Session) : Option SymbolTable :=
  session.library.map Library.symbols

/-- The signature of a preloaded gate. -/
def gateSignature? (session : Session) (name : String) : Option GateSignature :=
  session.librarySymbols.bind fun table => table.gate? name

/-- The definition of a preloaded gate. -/
def definition? (session : Session) (name : String) : Option GateDefinition :=
  session.library.bind fun library => library.definition? name

/-- Reads and checks a program. -/
def parse (session : Session) (source : String) : Except Diagnostic CheckedProgram := do
  if source.isEmpty then .error (.missingArgument "circuit")
  else
    let program ← Program.parse .circuit source
    let symbols ← program.validate session.librarySymbols
    return ⟨program, symbols⟩

end Session

end QuantumCircuit
