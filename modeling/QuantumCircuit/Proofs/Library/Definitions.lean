import QuantumCircuit.Proofs.Expansion.Application
import QuantumCircuit.Proofs.Library.Layers

/-!
# Definitions and signatures

A name of a library is looked up in two ways: the first definition of that name is found among the
statements, and a signature in the table that the checker has filled.  Names are declared once, so
that both ways lead to the same statement.

* `declarationsOf` : the statements that declare a name.
* `declarationsOf_eq_singleton` : a declaration is the only one of its name.
* `Library.definition?_agrees` : definitions and signatures of a loaded library.
-/

namespace QuantumCircuit

/-! ### Declarations of a name -/

/-- The statements that declare a gate of the name, in their order. -/
def declarationsOf (name : String) (statements : List Statement) : List Statement :=
  statements.filter fun s => s.declaredGate?.map Prod.fst = some name

variable {name : String} {signature : GateSignature} {statements : List Statement} {s : Statement}

theorem mem_declarationsOf :
    s ∈ declarationsOf name statements ↔
      s ∈ statements ∧ ∃ signature, s.declaredGate? = some (name, signature) := by
  simp [declarationsOf]

/-- What declares no gate of the name is passed over. -/
theorem declarationsOf_eq_nil (h : name ∉ (declaredGates statements).map Prod.fst) :
    declarationsOf name statements = [] := by
  rw [List.eq_nil_iff_forall_not_mem]
  intro s hMember
  obtain ⟨hStatement, signature, hDeclares⟩ := mem_declarationsOf.mp hMember
  exact h (List.mem_map_of_mem (List.mem_filterMap.mpr ⟨s, hStatement, hDeclares⟩))

/-- Among gates of different names, a declaration is the only one of its name. -/
theorem declarationsOf_eq_singleton (hNames : ((declaredGates statements).map Prod.fst).Nodup)
    (hMember : s ∈ statements) (hDeclares : s.declaredGate? = some (name, signature)) :
    declarationsOf name statements = [s] := by
  obtain ⟨before, after, rfl⟩ := List.append_of_mem hMember
  rw [declaredGates_append, List.map_append, declaredGates, declaredGates,
    List.filterMap_cons_some hDeclares, List.map_cons, List.nodup_middle, List.nodup_cons,
    List.mem_append, not_or] at hNames
  obtain ⟨⟨hBefore, hAfter⟩, -⟩ := hNames
  have hFirst := declarationsOf_eq_nil hBefore
  have hRest := declarationsOf_eq_nil hAfter
  rw [declarationsOf] at hFirst hRest ⊢
  rw [List.filter_append, List.filter_cons_of_pos (by simp [hDeclares]), hFirst, hRest,
    List.nil_append]

/-- Among gates of different names, no name is declared twice. -/
theorem length_declarationsOf_le (hNames : ((declaredGates statements).map Prod.fst).Nodup) :
    (declarationsOf name statements).length ≤ 1 := by
  cases hFound : declarationsOf name statements with
  | nil => exact Nat.zero_le 1
  | cons s rest =>
      have hMember : s ∈ declarationsOf name statements := by simp [hFound]
      obtain ⟨hStatement, signature, hDeclares⟩ := mem_declarationsOf.mp hMember
      rw [← hFound, declarationsOf_eq_singleton hNames hStatement hDeclares]
      exact Nat.le_refl 1

/-- Every statement of a library text declares a gate. -/
theorem length_declaredGates_of_library (h : ∀ s ∈ statements, Grammar.Mode.library.Allows s) :
    (declaredGates statements).length = statements.length := by
  rw [declaredGates, List.filterMap_length_eq_length]
  intro s hMember
  have hAllows := h s hMember
  cases s with
  | gate | opaqueGate => rfl
  | _ => cases hAllows

/-! ### Definitions of a name -/

theorem Program.definition?_eq_some {program : Program} {definition : GateDefinition}
    (h : program.definition? name = some definition) :
    .gate definition ∈ program.statements ∧ definition.header.name = name := by
  obtain ⟨s, hMember, hFound⟩ := List.exists_of_findSome?_eq_some h
  cases s with
  | gate found =>
      simp only [Option.ite_none_right_eq_some, Option.some.injEq] at hFound
      obtain ⟨hName, rfl⟩ := hFound
      exact ⟨hMember, hName⟩
  | _ => cases hFound

/-- A gate that is not opaque has a definition. -/
theorem Program.exists_definition {program : Program}
    (h : (name, signature) ∈ declaredGates program.statements)
    (hBody : signature.isOpaque = false) :
    ∃ definition, program.definition? name = some definition := by
  rw [declaredGates, List.mem_filterMap] at h
  obtain ⟨s, hMember, hDeclared⟩ := h
  rw [← Option.isSome_iff_exists, Program.definition?, List.findSome?_isSome_iff]
  cases s with
  | gate definition =>
      cases hDeclared
      exact ⟨_, hMember, by simp⟩
  | opaqueGate header position =>
      cases hDeclared
      cases hBody
  | _ => cases hDeclared

namespace Library

variable {text : String} {library : Library}

theorem definition?_eq_program (library : Library) (name : String) :
    library.definition? name = library.program.definition? name := rfl

/-- A declaration in a loaded library is the only one of its name, and the table has its
signature. -/
theorem declared_once (hLoad : Library.load text = .ok library)
    (hMember : s ∈ library.program.statements)
    (hDeclares : s.declaredGate? = some (name, signature)) :
    declarationsOf name library.program.statements = [s] ∧
      library.symbols.gate? name = some signature := by
  have hNames := (Library.load_eq_ok.mp hLoad).2.1.distinct.gates
  refine ⟨declarationsOf_eq_singleton hNames hMember hDeclares, ?_⟩
  rw [Library.gate?_eq_some hLoad]
  exact List.mem_filterMap.mpr ⟨s, hMember, hDeclares⟩

/-- The table of a loaded library has a signature exactly for what a statement declares. -/
theorem gate?_eq_some_iff_exists (hLoad : Library.load text = .ok library) :
    library.symbols.gate? name = some signature ↔
      ∃ s ∈ library.program.statements, s.declaredGate? = some (name, signature) := by
  rw [Library.gate?_eq_some hLoad, declaredGates, List.mem_filterMap]

/-- What is found as the definition of a name is its only declaration, and the table has its
counts. -/
theorem definition?_declared (hLoad : Library.load text = .ok library)
    {definition : GateDefinition} (h : library.definition? name = some definition) :
    declarationsOf name library.program.statements = [.gate definition] ∧
      library.symbols.gate? name =
        some ⟨definition.header.params.length, definition.header.qubits.length, false⟩ := by
  rw [definition?_eq_program] at h
  obtain ⟨hMember, rfl⟩ := Program.definition?_eq_some h
  exact declared_once hLoad hMember rfl

/-- **Definitions and signatures.**  In a loaded library a name has a definition exactly if the
table has a signature with a body for it; the definition is then the only declaration of the name,
and has the counts of the signature.  The table has an opaque signature exactly if the only
declaration of the name is an opaque one with its counts.  No name is declared twice, there are as
many signatures as statements, each of another name, and there are no registers. -/
theorem definition?_agrees (hLoad : Library.load text = .ok library) (name : String) :
    ((library.definition? name).isSome ↔
      ∃ signature, library.symbols.gate? name = some signature ∧ signature.isOpaque = false) ∧
    (∀ definition, library.definition? name = some definition →
      declarationsOf name library.program.statements = [.gate definition] ∧
        library.symbols.gate? name =
          some ⟨definition.header.params.length, definition.header.qubits.length, false⟩) ∧
    (∀ params qubits, library.symbols.gate? name = some ⟨params, qubits, true⟩ ↔
      ∃ header position,
        declarationsOf name library.program.statements = [.opaqueGate header position] ∧
          header.params.length = params ∧ header.qubits.length = qubits) ∧
    (declarationsOf name library.program.statements).length ≤ 1 ∧
    library.symbols.gateCount = library.program.length ∧
    (library.symbols.gates.map Prod.fst).Nodup ∧ library.symbols.registers = [] := by
  obtain ⟨hParse, hLawful, hSymbols⟩ := Library.load_eq_ok.mp hLoad
  obtain ⟨lexemes, -, -, hAllows⟩ := Program.isProgram_of_parse hParse
  have hNames := hLawful.distinct.gates
  refine ⟨?_, fun definition => definition?_declared hLoad, fun params qubits => ?_,
    length_declarationsOf_le hNames, ?_, ?_, Library.registers_eq_nil hLoad⟩
  · rw [Option.isSome_iff_exists]
    constructor
    · rintro ⟨definition, hDefinition⟩
      exact ⟨_, (definition?_declared hLoad hDefinition).2, rfl⟩
    · rintro ⟨signature, hGate, hBody⟩
      exact Program.exists_definition ((Library.gate?_eq_some hLoad).mp hGate) hBody
  · constructor
    · intro hGate
      obtain ⟨s, hMember, hDeclares⟩ := (gate?_eq_some_iff_exists hLoad).mp hGate
      obtain ⟨hOnly, -⟩ := declared_once hLoad hMember hDeclares
      cases s with
      | opaqueGate header position =>
          cases hDeclares
          exact ⟨header, position, hOnly, rfl, rfl⟩
      | _ => cases hDeclares
    · rintro ⟨header, position, hOnly, rfl, rfl⟩
      have hMember :
          .opaqueGate header position ∈ declarationsOf name library.program.statements := by
        simp [hOnly]
      obtain ⟨hStatement, signature, hDeclares⟩ := mem_declarationsOf.mp hMember
      cases hDeclares
      exact (declared_once hLoad hStatement rfl).2
  · rw [hSymbols, SymbolTable.gateCount, declaredTable, List.length_reverse]
    exact length_declaredGates_of_library hAllows
  · rw [hSymbols, declaredTable, List.map_reverse, List.nodup_reverse]
    exact hNames

/-- The library of rotations defines `turn` and declares `CX`. -/
theorem definition?_agrees_rotations :
    ∃ library, Library.load Program.rotations.text = .ok library ∧
      (library.definition? "turn").isSome ∧
      (∃ header position,
        declarationsOf "CX" library.program.statements = [.opaqueGate header position] ∧
          header.params.length = 0 ∧ header.qubits.length = 2) ∧
      library.definition? "CX" = none ∧ library.symbols.gateCount = 3 := by
  obtain ⟨library, hLoad, -, hSymbols⟩ := Library.load_rotations
  obtain ⟨hTurn, -⟩ := Library.definition?_agrees hLoad "turn"
  obtain ⟨hDefined, -, hPrimitive, -⟩ := Library.definition?_agrees hLoad "CX"
  rw [hSymbols] at hTurn hDefined hPrimitive
  refine ⟨library, hLoad, hTurn.mpr ⟨⟨1, 1, false⟩, by decide, rfl⟩,
    (hPrimitive 0 2).mp (by decide), ?_, by rw [hSymbols]; decide⟩
  rw [← Option.not_isSome_iff_eq_none, hDefined]
  rintro ⟨signature, hGate, hBody⟩
  have hSame : (declaredTable Program.rotations.statements).gate? "CX" = some ⟨0, 2, true⟩ := by
    decide
  rw [hSame] at hGate
  cases hGate
  cases hBody

end Library

end QuantumCircuit
