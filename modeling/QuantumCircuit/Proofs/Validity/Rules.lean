import Mathlib.Tactic.MkIffOfInductiveProp
import QuantumCircuit.Library.Basic

/-!
# The rules of a program

The rules are stated about a program as it stands.  What is declared at a statement is declared
in the library or by a statement in front of it; no table is filled, nothing is looked up in an
order, and nothing is reported.

* `Statement.Lawful` : the rules of one statement among those in front of it.
* `Context.Distinct` : the rules about declared names.
* `Program.Lawful` : the rules of a program.
-/

namespace QuantumCircuit

/-! ### Declarations -/

/-- How a gate with the header is called. -/
def GateHeader.signature (header : GateHeader) (isOpaque : Bool) : GateSignature :=
  ⟨header.params.length, header.qubits.length, isOpaque⟩

/-- The gate that a statement declares, if it does. -/
def Statement.declaredGate? : Statement → Option (String × GateSignature)
  | .gate definition => some (definition.header.name, definition.header.signature false)
  | .opaqueGate header _ => some (header.name, header.signature true)
  | _ => none

/-- The register that a statement declares, if it does. -/
def Statement.declaredRegister? : Statement → Option (String × RegisterShape)
  | .register kind name size _ => some (name, ⟨kind, size⟩)
  | _ => none

/-- The gates that statements declare, in their order. -/
def declaredGates (statements : List Statement) : List (String × GateSignature) :=
  statements.filterMap Statement.declaredGate?

/-- The registers that statements declare, in their order. -/
def declaredRegisters (statements : List Statement) : List (String × RegisterShape) :=
  statements.filterMap Statement.declaredRegister?

/-- What statements declare as a table, with one entry for each declaration. -/
def declaredTable (statements : List Statement) : SymbolTable :=
  ⟨(declaredGates statements).reverse, (declaredRegisters statements).reverse⟩

/-- The table of a library that was loaded from a text. -/
def SymbolTable.IsLoaded (table : SymbolTable) : Prop :=
  ∃ text library, Library.load text = .ok library ∧ library.symbols = table

/-! ### Names at a statement -/

/-- The place of a statement in a program: a library, and the statements in front of it. -/
structure Context where
  library : Option SymbolTable
  before : List Statement

namespace Context

/-- The gate is declared, in the library or by a statement in front. -/
def HasGate (context : Context) (name : String) (signature : GateSignature) : Prop :=
  (∃ table, context.library = some table ∧ table.gate? name = some signature) ∨
    (name, signature) ∈ declaredGates context.before

/-- The register is declared by a statement in front. -/
def HasRegister (context : Context) (name : String) (shape : RegisterShape) : Prop :=
  (name, shape) ∈ declaredRegisters context.before

/-- Gates have different names, none of them that of a library gate, and registers of both
kinds have different names, too. -/
@[mk_iff]
structure Distinct (context : Context) : Prop where
  gates : ((declaredGates context.before).map Prod.fst).Nodup
  foreign : ∀ table, context.library = some table →
    ∀ name ∈ (declaredGates context.before).map Prod.fst, table.gate? name = none
  registers : ((declaredRegisters context.before).map Prod.fst).Nodup

/-- The reference means a declared register of a kind and a size, and an element in range. -/
@[mk_iff]
structure Refers (context : Context) (kind : RegisterKind) (reference : RegisterRef)
    (size : UInt64) : Prop where
  register : context.HasRegister reference.register ⟨kind, size⟩
  range : ∀ index, reference.index = some index → index < size

/-- The called gate is declared and takes as many parameters and qubits as are given. -/
def Knows (context : Context) (call : GateCall) : Prop :=
  ∃ signature, context.HasGate call.name signature ∧
    call.params.length = signature.params ∧ call.qubits.length = signature.qubits

end Context

/-! ### Calls -/

/-- The reference means the element, as the only one or among all of the register. -/
def RegisterRef.Means (reference : RegisterRef) (element : UInt64) : Prop :=
  ∀ index, reference.index = some index → index = element

/-- Two references share an element. -/
def RegisterRef.Meets (first second : RegisterRef) : Prop :=
  first.register = second.register ∧ ∃ element, first.Means element ∧ second.Means element

/-- The rules of a call outside gate bodies. -/
@[mk_iff]
structure GateCall.Lawful (context : Context) (call : GateCall) : Prop where
  known : context.Knows call
  closed : ∀ e ∈ call.params, e.names = []
  qubits : ∀ reference ∈ call.qubits, ∃ size, context.Refers .quantum reference size
  /-- Whole registers have one size. -/
  sizes : ∃ size, ∀ reference ∈ call.qubits, reference.index = none →
    context.Refers .quantum reference size
  apart : call.qubits.Pairwise fun first second => ¬ first.Meets second

/-- The rules of a call in the body of a gate. -/
@[mk_iff]
structure GateCall.LawfulWithin (context : Context) (header : GateHeader) (call : GateCall) :
    Prop where
  known : context.Knows call
  closed : ∀ e ∈ call.params, ∀ name ∈ e.names, name ∈ header.params
  formal : ∀ reference ∈ call.qubits,
    reference.index = none ∧ reference.register ∈ header.qubits
  apart : (call.qubits.map RegisterRef.register).Nodup

/-! ### Statements -/

/-- Formal parameters and qubits have different names. -/
def GateHeader.Lawful (header : GateHeader) : Prop := (header.params ++ header.qubits).Nodup

/-- The rules of a statement, but for the names that it declares. -/
def Statement.Lawful (context : Context) : Statement → Prop
  | .version major _ _ => context.before = [] ∧ major = 2
  | .inclusion _ _ => True
  | .register _ _ size _ => 1 ≤ size
  | .gate definition =>
    definition.header.Lawful ∧
      ∀ call ∈ definition.body, call.LawfulWithin context definition.header
  | .opaqueGate header _ => header.Lawful
  | .call application => application.Lawful context
  | .measure source target _ =>
    ∃ sourceSize targetSize, context.Refers .quantum source sourceSize ∧
      context.Refers .classical target targetSize ∧
      (source.index ≠ none ∧ target.index ≠ none ∨
        source.index = none ∧ target.index = none ∧ sourceSize = targetSize)
  | .reset target _ => ∃ size, context.Refers .quantum target size
  | .barrier targets _ => ∀ target ∈ targets, ∃ size, context.Refers .quantum target size
  | .condition name _ application _ =>
    (∃ size, context.HasRegister name ⟨.classical, size⟩) ∧ application.Lawful context

/-- The rules of a program: its names differ, and every statement follows the rules at its
place. -/
@[mk_iff]
structure Program.Lawful (library : Option SymbolTable) (program : Program) : Prop where
  distinct : Context.Distinct ⟨library, program.statements⟩
  statements : ∀ before statement after, program.statements = before ++ statement :: after →
    statement.Lawful ⟨library, before⟩

end QuantumCircuit
