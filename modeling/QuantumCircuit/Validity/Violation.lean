import QuantumCircuit.Diagnostic
import QuantumCircuit.Program.Basic

namespace QuantumCircuit

/-!
# Violations

A violation names the rule that a statement breaks and what breaks it.  Its kind
is the code that callers branch on, and its detail is the wording for readers.
-/

/-- A broken rule. -/
inductive Violation where
  /-- A version declaration is not the first statement. -/
  | misplacedVersion
  | unsupportedVersion (major minor : UInt32)
  | emptyRegister (name : String)
  | duplicateRegister (name : String)
  | libraryGate (name : String)
  | duplicateGate (name : String)
  | duplicateFormal (name : String)
  | unknownGate (name : String)
  | arity (name : String) (params qubits givenParams givenQubits : Nat)
  /-- An identifier stands in a call outside gate bodies. -/
  | unboundParameter (name : String)
  /-- An identifier in a gate body is none of the gate's formal parameters. -/
  | foreignParameter (name : String)
  | indexedFormal (argument : RegisterRef)
  | foreignQubit (name : String)
  | unknownRegister (name : String)
  | wrongKind (name : String) (actual expected : RegisterKind)
  | outOfRange (index : UInt64) (name : String) (size : UInt64)
  | unequalSizes (first : String) (firstSize : UInt64) (second : String) (secondSize : UInt64)
  | overlap (later earlier : RegisterRef)
  | quantumCondition (name : String)
  | unequalMeasurement (source : String) (sourceSize : UInt64) (target : String)
      (targetSize : UInt64)
  /-- A whole register is measured into a single bit, or the other way round. -/
  | mixedMeasurement (source target : RegisterRef)
deriving DecidableEq, Repr

/-- A violation and the place where it is reported. -/
structure Fault where
  violation : Violation
  position : Position
deriving DecidableEq, Repr

namespace Violation

/-- The rule that is broken. -/
def kind : Violation → SemanticKind
  | misplacedVersion => .misplacedVersion
  | unsupportedVersion _ _ => .unsupportedVersion
  | emptyRegister _ => .invalidRegisterSize
  | duplicateRegister _ | libraryGate _ | duplicateGate _ | duplicateFormal _ =>
    .duplicateDeclaration
  | unknownGate _ => .unknownGate
  | arity _ _ _ _ _ => .arityMismatch
  | unboundParameter _ | foreignParameter _ => .unknownParameter
  | indexedFormal _ => .invalidGateBody
  | foreignQubit _ | unknownRegister _ => .unknownRegister
  | wrongKind _ _ _ | quantumCondition _ => .registerKindMismatch
  | outOfRange _ _ _ => .indexOutOfRange
  | unequalSizes _ _ _ _ | unequalMeasurement _ _ _ _ | mixedMeasurement _ _ =>
    .broadcastMismatch
  | overlap _ _ => .overlappingArguments

/-- A name between single quotes. -/
def quote (name : String) : String := "'" ++ name ++ "'"

/-- A register's name and its size. -/
def sized (name : String) (size : UInt64) : String :=
  .join [quote name, " (size ", toString size.toNat, ")"]

/-- What breaks the rule, in words. -/
def detail : Violation → String
  | misplacedVersion => "OPENQASM declaration must be the first statement and appear once"
  | unsupportedVersion major minor =>
    .join ["version ", toString major.toNat, ".", toString minor.toNat, " is not supported"]
  | emptyRegister name => .join ["register ", quote name, " must have at least one element"]
  | duplicateRegister name => .join ["register ", quote name, " is already declared"]
  | libraryGate name => .join ["gate ", quote name, " shadows a standard library gate"]
  | duplicateGate name => .join ["gate ", quote name, " is already declared"]
  | duplicateFormal name => .join ["formal ", quote name, " is declared twice"]
  | unknownGate name => .join ["gate ", quote name, " is not declared"]
  | arity name params qubits givenParams givenQubits =>
    .join ["gate ", quote name, " takes ", toString params, " parameters and ",
      toString qubits, " qubits, got ", toString givenParams, " and ", toString givenQubits]
  | unboundParameter name =>
    .join ["parameter ", quote name, " is not defined outside a gate body"]
  | foreignParameter name => .join [quote name, " is not a parameter of the enclosing gate"]
  | indexedFormal argument =>
    .join ["indexed argument ", quote argument.text, " is not allowed inside a gate body"]
  | foreignQubit name => .join [quote name, " is not a qubit argument of the enclosing gate"]
  | unknownRegister name => .join ["register ", quote name, " is not declared"]
  | wrongKind name actual expected =>
    .join [quote name, " is a ", actual.keyword, ", expected a ", expected.keyword]
  | outOfRange index name size =>
    .join ["index ", toString index.toNat, " out of range for register ", quote name,
      " of size ", toString size.toNat]
  | unequalSizes first firstSize second secondSize =>
    .join ["registers ", sized first firstSize, " and ", sized second secondSize,
      " differ in size"]
  | overlap later earlier =>
    .join [quote later.text, " overlaps earlier argument ", quote earlier.text]
  | quantumCondition name =>
    .join ["condition on ", quote name, " requires a creg, found a qreg"]
  | unequalMeasurement source sourceSize target targetSize =>
    .join ["cannot measure ", sized source sourceSize, " into ", sized target targetSize]
  | mixedMeasurement source target =>
    .join ["cannot measure ", quote source.text, " into ", quote target.text,
      ": register and single bit mixed"]

end Violation

/-- The report of a fault. -/
def Fault.report (fault : Fault) : SemanticError :=
  ⟨fault.violation.kind, fault.position, fault.violation.detail⟩

end QuantumCircuit
