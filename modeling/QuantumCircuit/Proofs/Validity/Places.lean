import QuantumCircuit.Proofs.Program.Legible
import QuantumCircuit.Proofs.Validity.Check

/-!
# Places do not matter

The rules look at the parts of a program, not at the places of their first tokens.  A program
follows the rules exactly if it does so without its places, and both declare the same names.
-/

namespace QuantumCircuit

/-! ### Declarations -/

@[simp]
theorem Statement.declaredGate?_erased (statement : Statement) :
    statement.erased.declaredGate? = statement.declaredGate? := by
  cases statement <;> rfl

@[simp]
theorem Statement.declaredRegister?_erased (statement : Statement) :
    statement.erased.declaredRegister? = statement.declaredRegister? := by
  cases statement <;> rfl

@[simp]
theorem declaredGates_erased (statements : List Statement) :
    declaredGates (statements.map Statement.erased) = declaredGates statements := by
  simp [declaredGates, List.filterMap_map]

@[simp]
theorem declaredRegisters_erased (statements : List Statement) :
    declaredRegisters (statements.map Statement.erased) = declaredRegisters statements := by
  simp [declaredRegisters, List.filterMap_map]

theorem declaredTable_erased (statements : List Statement) :
    declaredTable (statements.map Statement.erased) = declaredTable statements := by
  simp [declaredTable]

/-! ### Rules of one statement -/

namespace Context

variable (context : Context)

/-- The context without places. -/
def erased (context : Context) : Context :=
  ⟨context.library, context.before.map Statement.erased⟩

@[simp]
theorem hasGate_erased (name : String) (signature : GateSignature) :
    context.erased.HasGate name signature ↔ context.HasGate name signature := by
  simp [HasGate, erased]

@[simp]
theorem hasRegister_erased (name : String) (shape : RegisterShape) :
    context.erased.HasRegister name shape ↔ context.HasRegister name shape := by
  simp [HasRegister, erased]

@[simp]
theorem refers_erased (kind : RegisterKind) (reference : RegisterRef) (size : UInt64) :
    context.erased.Refers kind reference.erased size ↔ context.Refers kind reference size := by
  simp only [refers_iff, hasRegister_erased, RegisterRef.erased]

@[simp]
theorem knows_erased (call : GateCall) : context.erased.Knows call.erased ↔ context.Knows call := by
  simp [Knows, GateCall.erased]

theorem distinct_erased : context.erased.Distinct ↔ context.Distinct := by
  simp only [distinct_iff, erased, declaredGates_erased, declaredRegisters_erased]

end Context

@[simp]
theorem RegisterRef.meets_erased (first second : RegisterRef) :
    first.erased.Meets second.erased ↔ first.Meets second := Iff.rfl

@[simp]
theorem RegisterRef.index_erased (reference : RegisterRef) :
    reference.erased.index = reference.index := rfl

variable {context : Context}

@[simp]
theorem GateCall.lawful_erased (call : GateCall) :
    call.erased.Lawful context.erased ↔ call.Lawful context := by
  simp only [GateCall.lawful_iff, Context.knows_erased]
  simp only [GateCall.erased, List.forall_mem_map, List.pairwise_map, Context.refers_erased,
    RegisterRef.meets_erased]
  rfl

@[simp]
theorem GateCall.lawfulWithin_erased (header : GateHeader) (call : GateCall) :
    call.erased.LawfulWithin context.erased header ↔ call.LawfulWithin context header := by
  simp only [GateCall.lawfulWithin_iff, Context.knows_erased]
  simp only [GateCall.erased, List.forall_mem_map, List.map_map]
  rfl

/-- A statement is lawful with or without places. -/
theorem Statement.lawful_erased (context : Context) (statement : Statement) :
    statement.erased.Lawful context.erased ↔ statement.Lawful context := by
  cases statement with
  | version major minor position => simp [Statement.erased, Statement.Lawful, Context.erased]
  | gate definition => simp [Statement.erased, Statement.Lawful, GateDefinition.erased]
  | _ => simp [Statement.erased, Statement.Lawful]

/-! ### Rules of a program -/

/-- A program is lawful with or without places. -/
theorem Program.lawful_erased {library : Option SymbolTable} (program : Program) :
    program.erased.Lawful library ↔ program.Lawful library := by
  rw [Program.lawful_iff, Program.lawful_iff]
  apply and_congr
  · exact Context.distinct_erased ⟨library, program.statements⟩
  constructor
  · intro h before statement after hSplit
    have hErased := h (before.map Statement.erased) statement.erased
      (after.map Statement.erased) (by simp [Program.erased, hSplit])
    exact (Statement.lawful_erased ⟨library, before⟩ statement).mp hErased
  · intro h before statement after hSplit
    -- every part of the list without places comes from a part of the list
    obtain ⟨front, back, hFront, rfl, hBack⟩ := List.map_eq_append_iff.mp hSplit
    obtain ⟨first, rest, rfl, rfl, rfl⟩ := List.map_eq_cons_iff.mp hBack
    exact (Statement.lawful_erased ⟨library, front⟩ first).mpr
      (h front first rest hFront)

/-- Programs that differ in their places only are lawful together. -/
theorem Program.Lawful.of_erased_eq {library : Option SymbolTable} {first second : Program}
    (h : first.Lawful library) (hErased : second.erased = first.erased) :
    second.Lawful library := by
  rw [← Program.lawful_erased, hErased, Program.lawful_erased]
  exact h

/-- They declare the same names. -/
theorem declaredTable_of_erased_eq {first second : Program}
    (hErased : second.erased = first.erased) :
    declaredTable second.statements = declaredTable first.statements := by
  have hStatements : second.statements.map Statement.erased =
      first.statements.map Statement.erased := congrArg Program.statements hErased
  rw [← declaredTable_erased, hStatements, declaredTable_erased]

end QuantumCircuit
