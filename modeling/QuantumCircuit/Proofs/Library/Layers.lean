import QuantumCircuit.Proofs.Library.Load

/-!
# A library in front of a program

The gates that a program can use are those of the library and its own ones.  They are the gates
that are declared by the statements of the library with those of the program behind them, so
that one list of statements can stand for both layers.

* `hasGate_layered` : a gate is declared in two layers exactly if it is declared in one list.
* `GatesLawful` : the rules about gates for one list.
* `gatesLawful_layered` : a loaded library and a lawful program follow them together.
-/

namespace QuantumCircuit

/-- The statements of a library, if there is one, and of a program behind them. -/
def layered (library : Option Library) (program : Program) : List Statement :=
  (library.elim [] fun loaded => loaded.program.statements) ++ program.statements

/-- The library was loaded from a text, if there is one. -/
def IsLoaded (library : Option Library) : Prop :=
  ∀ loaded, library = some loaded → ∃ text, Library.load text = .ok loaded

/-- Gates are declared once, and every definition follows the rules among what stands in front
of it. -/
structure GatesLawful (statements : List Statement) : Prop where
  distinct : ((declaredGates statements).map Prod.fst).Nodup
  definitions : ∀ before definition after, statements = before ++ .gate definition :: after →
    definition.header.Lawful ∧
      ∀ call ∈ definition.body, call.LawfulWithin ⟨none, before⟩ definition.header

/-! ### Two layers and one -/

/-- A loaded library has no registers. -/
theorem IsLoaded.registers_eq_nil {library : Option Library} (h : IsLoaded library) :
    ∀ table, library.map Library.symbols = some table → table.registers = [] := by
  intro table hTable
  obtain ⟨loaded, hLoaded, rfl⟩ := Option.map_eq_some_iff.mp hTable
  obtain ⟨text, hLoad⟩ := h loaded hLoaded
  exact Library.registers_eq_nil hLoad

theorem declaredGates_append (first second : List Statement) :
    declaredGates (first ++ second) = declaredGates first ++ declaredGates second :=
  List.filterMap_append

theorem hasGate_none {statements : List Statement} {name : String} {signature : GateSignature} :
    Context.HasGate ⟨none, statements⟩ name signature ↔
      (name, signature) ∈ declaredGates statements := by
  simp [Context.HasGate]

/-- The table of a loaded library shows what the statements of the library declare. -/
theorem Library.gate?_eq_some {text : String} {library : Library}
    (h : Library.load text = .ok library) {name : String} {signature : GateSignature} :
    library.symbols.gate? name = some signature ↔
      (name, signature) ∈ declaredGates library.program.statements := by
  obtain ⟨-, hLawful, hSymbols⟩ := Library.load_eq_ok.mp h
  rw [hSymbols]
  exact declaredTable_gate? hLawful.distinct.gates

/-- A gate is declared in two layers exactly if it is declared in one list. -/
theorem hasGate_layered {library : Option Library} (hLibrary : IsLoaded library)
    {before : List Statement} {name : String} {signature : GateSignature} :
    Context.HasGate ⟨library.map Library.symbols, before⟩ name signature ↔
      (name, signature) ∈ declaredGates (layered library ⟨before⟩) := by
  cases library with
  | none => simp [layered, hasGate_none]
  | some loaded =>
      obtain ⟨text, hLoad⟩ := hLibrary loaded rfl
      simp [layered, Context.HasGate, declaredGates_append, Library.gate?_eq_some hLoad]

/-- A call in a body only depends on the gates that are declared. -/
theorem GateCall.LawfulWithin.mono {first second : Context} {header : GateHeader}
    {call : GateCall}
    (hGates : ∀ name signature, first.HasGate name signature → second.HasGate name signature)
    (h : call.LawfulWithin first header) : call.LawfulWithin second header := by
  obtain ⟨⟨signature, hGate, hCounts⟩, hClosed, hFormal, hApart⟩ := h
  exact ⟨⟨signature, hGates _ _ hGate, hCounts⟩, hClosed, hFormal, hApart⟩

/-- A lawful program without a library follows the rules about gates. -/
theorem gatesLawful_of_lawful {program : Program} (h : program.Lawful none) :
    GatesLawful program.statements := by
  refine ⟨h.distinct.gates, fun before definition after hSplit => ?_⟩
  exact h.statements before (.gate definition) after hSplit

/-- **Layers.**  A loaded library and a program that is lawful behind it follow the rules about
gates together. -/
theorem gatesLawful_layered {library : Option Library} (hLibrary : IsLoaded library)
    {program : Program} (h : program.Lawful (library.map Library.symbols)) :
    GatesLawful (layered library program) := by
  cases library with
  | none => exact gatesLawful_of_lawful h
  | some loaded =>
      obtain ⟨text, hLoad⟩ := hLibrary loaded rfl
      obtain ⟨hNames, hDefinitions⟩ := gatesLawful_of_lawful (Library.load_eq_ok.mp hLoad).2.1
      have hApart : ((declaredGates loaded.program.statements).map Prod.fst).Disjoint
          ((declaredGates program.statements).map Prod.fst) := by
        intro name hFirst hSecond
        obtain ⟨⟨found, signature⟩, hFound, rfl⟩ := List.mem_map.mp hFirst
        have hNone := h.distinct.foreign loaded.symbols rfl found hSecond
        rw [(Library.gate?_eq_some hLoad).mpr hFound] at hNone
        cases hNone
      constructor
      · show ((declaredGates (loaded.program.statements ++ program.statements)).map
          Prod.fst).Nodup
        rw [declaredGates_append, List.map_append]
        exact hNames.append h.distinct.gates hApart
      · intro before definition after hSplit
        -- the definition stands in the library or in the program
        have hCases := List.append_eq_append_iff.mp hSplit
        rcases hCases with ⟨front, rfl, hBack⟩ | ⟨back, hFront, hBack⟩
        · obtain ⟨hHeader, hBody⟩ := h.statements front (.gate definition) after hBack
          refine ⟨hHeader, fun call hCall => (hBody call hCall).mono ?_⟩
          intro name signature hGate
          rw [hasGate_none]
          exact (hasGate_layered hLibrary).mp hGate
        · cases back with
          | nil =>
              rw [List.append_nil] at hFront
              rw [List.nil_append] at hBack
              obtain ⟨hHeader, hBody⟩ := h.statements [] (.gate definition) after hBack.symm
              refine ⟨hHeader, fun call hCall => (hBody call hCall).mono ?_⟩
              intro name signature hGate
              have hLayered := (hasGate_layered hLibrary).mp hGate
              rw [hasGate_none, ← hFront]
              simpa [layered] using hLayered
          | cons first back =>
              cases hBack
              exact hDefinitions before definition back hFront

end QuantumCircuit
