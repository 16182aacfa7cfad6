import QuantumCircuit.Program.Basic
import QuantumCircuit.Proofs.Printing.Expression

/-!
# Programs that can be written down

A program is legible if its parts have the shape that a text gives them: names are names, paths
stay on their line, numbers are finite and have no sign, and nothing is applied to no qubit at
all.  Legibility does not ask whether the program is valid.

The places of a tree depend on the text it was read from.  `erased` forgets them, so that trees
of different texts can be compared.
-/

namespace QuantumCircuit

/-! ### Trees without places -/

/-- A reference without its place. -/
def RegisterRef.erased (reference : RegisterRef) : RegisterRef :=
  ⟨reference.register, reference.index, .unplaced⟩

/-- A gate call without places. -/
def GateCall.erased (call : GateCall) : GateCall :=
  ⟨call.name, call.params, call.qubits.map RegisterRef.erased, .unplaced⟩

/-- A gate definition without places. -/
def GateDefinition.erased (definition : GateDefinition) : GateDefinition :=
  ⟨definition.header, definition.body.map GateCall.erased, .unplaced⟩

/-- A statement without places. -/
def Statement.erased : Statement → Statement
  | .version major minor _ => .version major minor .unplaced
  | .inclusion path _ => .inclusion path .unplaced
  | .register kind name size _ => .register kind name size .unplaced
  | .gate definition => .gate definition.erased
  | .opaqueGate header _ => .opaqueGate header .unplaced
  | .call application => .call application.erased
  | .measure source target _ => .measure source.erased target.erased .unplaced
  | .reset target _ => .reset target.erased .unplaced
  | .barrier targets _ => .barrier (targets.map RegisterRef.erased) .unplaced
  | .condition name value application _ => .condition name value application.erased .unplaced

/-- A program without places. -/
def Program.erased (program : Program) : Program :=
  ⟨program.statements.map Statement.erased⟩

/-! ### Legible trees -/

/-- A header with names for everything and at least one qubit. -/
structure GateHeader.Legible (header : GateHeader) : Prop where
  name : IsName header.name
  params : ∀ name ∈ header.params, IsName name
  qubits : ∀ name ∈ header.qubits, IsName name
  qubits_ne_nil : header.qubits ≠ []

/-- A call of a name with legible parameters and at least one qubit. -/
structure GateCall.Legible (call : GateCall) : Prop where
  name : IsName call.name
  params : ∀ e ∈ call.params, e.Legible
  qubits : ∀ reference ∈ call.qubits, IsName reference.register
  qubits_ne_nil : call.qubits ≠ []

/-- A statement that can be written down. -/
def Statement.Legible : Statement → Prop
  | .version _ _ _ => True
  | .inclusion path _ => ∀ c ∈ path.toList, isStringChar c = true
  | .register _ name _ _ => IsName name
  | .gate definition => definition.header.Legible ∧ ∀ call ∈ definition.body, call.Legible
  | .opaqueGate header _ => header.Legible
  | .call application => application.Legible
  | .measure source target _ => IsName source.register ∧ IsName target.register
  | .reset target _ => IsName target.register
  | .barrier targets _ => targets ≠ [] ∧ ∀ target ∈ targets, IsName target.register
  | .condition name _ application _ => IsName name ∧ application.Legible

/-- A program that can be written down. -/
def Program.Legible (program : Program) : Prop := ∀ s ∈ program.statements, s.Legible

/-! ### Parameters -/

/-- The gate calls of a statement, those of a gate body among them. -/
def Statement.calls : Statement → List GateCall
  | .gate definition => definition.body
  | .call application => [application]
  | .condition _ _ application _ => [application]
  | _ => []

/-- The parameter expressions of a statement. -/
def Statement.parameters (statement : Statement) : List Expr :=
  statement.calls.flatMap GateCall.params

/-- The parameter expressions of a program. -/
def Program.parameters (program : Program) : List Expr :=
  program.statements.flatMap Statement.parameters

theorem Program.forall_parameters {program : Program} {P : Expr → Prop} :
    (∀ e ∈ program.parameters, P e) ↔
      ∀ s ∈ program.statements, ∀ call ∈ s.calls, ∀ e ∈ call.params, P e := by
  simp only [Program.parameters, Statement.parameters, List.mem_flatMap]
  constructor
  · intro h s hs call hCall e he
    exact h e ⟨s, hs, call, hCall, he⟩
  · rintro h e ⟨s, hs, call, hCall, he⟩
    exact h s hs call hCall e he

theorem Statement.parameters_erased (statement : Statement) :
    statement.erased.parameters = statement.parameters := by
  cases statement with
  | gate definition =>
      simp only [Statement.parameters, Statement.calls, Statement.erased,
        GateDefinition.erased, List.flatMap_map]
      rfl
  | _ => rfl

/-- The parameters have no places. -/
theorem Program.parameters_erased (program : Program) :
    program.erased.parameters = program.parameters := by
  simp only [Program.parameters, Program.erased, List.flatMap_map, Statement.parameters_erased]

/-- The text of the expression stays within the limits of the grammar. -/
structure Expr.Readable (e : Expr) : Prop where
  cost : e.cost < Grammar.nestingLimit
  height : e.height ≤ Grammar.nestingLimit

/-- Half of the nesting limit is enough, whatever parentheses the printer chooses. -/
theorem Expr.readable_of_height {e : Expr} (h : e.height ≤ 128) : e.Readable := by
  have hCost := e.cost_lt
  have hLimit : Grammar.nestingLimit = 256 := rfl
  exact ⟨by omega, by omega⟩

end QuantumCircuit
