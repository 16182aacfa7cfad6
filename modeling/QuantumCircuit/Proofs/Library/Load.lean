import QuantumCircuit.Proofs.Grammar.Legible
import QuantumCircuit.Proofs.Printing.RoundTrip
import QuantumCircuit.Proofs.Validity.Places

/-!
# Loaded libraries

A library is loaded from a text that holds declarations of gates and nothing else.  Its table has
no registers, so that a program is checked against it by the rules alone.

* `Library.load_eq_ok` : what loading a library amounts to.
* `Library.load_text` : a lawful library can be loaded from its own text.
* `Program.validate_eq_ok_iff` : validation decides the rules.
-/

namespace QuantumCircuit

open Grammar

/-! ### Loading -/

theorem Program.validate_eq_ok {library : Option SymbolTable} {program : Program}
    {symbols : SymbolTable} :
    program.validate library = .ok symbols ↔ program.check library = .ok symbols := by
  rw [Program.validate]
  cases program.check library <;> simp [Except.mapError]

/-- Without a library validation decides the rules. -/
theorem Program.validate_none_eq_ok {program : Program} {symbols : SymbolTable} :
    program.validate none = .ok symbols ↔
      program.Lawful none ∧ symbols = declaredTable program.statements := by
  rw [Program.validate_eq_ok]
  refine Program.check_eq_ok fun table hTable => ?_
  cases hTable

/-- A library is loaded exactly if its text is read as a lawful program of gate declarations. -/
theorem Library.load_eq_ok {text : String} {library : Library} :
    Library.load text = .ok library ↔
      Program.parse .library text = .ok library.program ∧ library.program.Lawful none ∧
        library.symbols = declaredTable library.program.statements := by
  rw [← Program.validate_none_eq_ok, Library.load, except_bind_eq_ok]
  simp only [except_bind_eq_ok, except_pure_eq_ok]
  constructor
  · rintro ⟨program, hParse, symbols, hSymbols, rfl⟩
    exact ⟨hParse, hSymbols⟩
  · rintro ⟨hParse, hSymbols⟩
    exact ⟨library.program, hParse, library.symbols, hSymbols, rfl⟩

/-- A library text declares no registers. -/
theorem declaredRegisters_of_library {statements : List Statement}
    (h : ∀ s ∈ statements, Mode.library.Allows s) : declaredRegisters statements = [] := by
  rw [declaredRegisters, List.filterMap_eq_nil_iff]
  intro s hs
  have hAllows := h s hs
  cases s with
  | register kind name size position => simp [Mode.Allows] at hAllows
  | _ => rfl

theorem Library.registers_eq_nil {text : String} {library : Library}
    (h : Library.load text = .ok library) : library.symbols.registers = [] := by
  obtain ⟨hParse, -, hSymbols⟩ := Library.load_eq_ok.mp h
  obtain ⟨lexemes, -, -, hAllows⟩ := Program.isProgram_of_parse hParse
  rw [hSymbols, declaredTable, declaredRegisters_of_library hAllows, List.reverse_nil]

theorem SymbolTable.IsLoaded.registers_eq_nil {table : SymbolTable} (h : table.IsLoaded) :
    table.registers = [] := by
  obtain ⟨text, library, hLoad, rfl⟩ := h
  exact Library.registers_eq_nil hLoad

/-- A lawful program of gate declarations can be loaded from its own text. -/
theorem Library.load_text {program : Program} (h : program.Legible)
    (hReadable : ∀ e ∈ program.parameters, e.Readable)
    (hAllows : ∀ s ∈ program.statements, Mode.library.Allows s) (hLawful : program.Lawful none) :
    ∃ library, Library.load program.text = .ok library ∧
      library.program.erased = program.erased ∧
      library.symbols = declaredTable program.statements := by
  obtain ⟨found, hParse, hErased⟩ := Program.read_text h hReadable hAllows
  refine ⟨⟨found, declaredTable found.statements⟩, ?_, hErased, declaredTable_of_erased_eq hErased⟩
  rw [Library.load_eq_ok]
  exact ⟨hParse, hLawful.of_erased_eq hErased, rfl⟩

/-- A library with two primitive gates and one that is made of them. -/
def Program.rotations : Program :=
  ⟨[.opaqueGate ⟨"U", ["theta", "phi", "lambda"], ["q"]⟩ .start,
    .opaqueGate ⟨"CX", [], ["a", "b"]⟩ .start,
    .gate ⟨⟨"turn", ["theta"], ["a"]⟩,
      [⟨"U", [.identifier "theta", .number .zero, .neg .pi], [.whole "a"], .start⟩], .start⟩]⟩

theorem Program.lawful_rotations : Program.rotations.Lawful none := by
  have hValid : Program.rotations.validate none =
      .ok (declaredTable Program.rotations.statements) := rfl
  exact (Program.validate_none_eq_ok.mp hValid).1

theorem Library.load_rotations :
    ∃ library, Library.load Program.rotations.text = .ok library ∧
      library.program.erased = Program.rotations.erased ∧
      library.symbols = declaredTable Program.rotations.statements := by
  have hLegible : Program.rotations.Legible := by decide
  have hHeight : ∀ e ∈ Program.rotations.parameters, e.height ≤ 128 := by decide
  refine Library.load_text hLegible (fun e he => Expr.readable_of_height (hHeight e he)) ?_
    Program.lawful_rotations
  simp [Program.rotations, Mode.Allows]

/-! ### Validation -/

/-- **Validation decides the rules.**  Against the table of a loaded library, or without one, a
program is accepted exactly if it is lawful, and the table that is returned then has one entry
for each of its declarations and no other. -/
theorem Program.validate_eq_ok_iff {library : Option SymbolTable}
    (hLibrary : ∀ table, library = some table → table.IsLoaded) (program : Program)
    (symbols : SymbolTable) :
    program.validate library = .ok symbols ↔
      program.Lawful library ∧ symbols = declaredTable program.statements := by
  rw [Program.validate_eq_ok]
  exact Program.check_eq_ok fun table hTable => (hLibrary table hTable).registers_eq_nil

/-- A circuit over the library of rotations. -/
def Program.measuredPair : Program :=
  ⟨[.version 2 0 .start,
    .register .quantum "q" 2 .start,
    .register .classical "c" 2 .start,
    .gate ⟨⟨"pair", ["phi"], ["a", "b"]⟩,
      [⟨"turn", [.binary .div (.identifier "phi") .pi], [.whole "b"], .start⟩,
        ⟨"CX", [], [.whole "b", .whole "a"], .start⟩], .start⟩,
    .call ⟨"pair", [.pi], [.element "q" 0, .element "q" 1], .start⟩,
    .measure (.whole "q") (.whole "c") .start,
    .condition "c" 1 ⟨"turn", [.pi], [.whole "q"], .start⟩ .start]⟩

theorem Program.validate_measuredPair :
    (declaredTable Program.rotations.statements).IsLoaded ∧
      Program.measuredPair.Lawful (some (declaredTable Program.rotations.statements)) := by
  obtain ⟨library, hLoad, -, hSymbols⟩ := Library.load_rotations
  have hLoaded : (declaredTable Program.rotations.statements).IsLoaded :=
    ⟨_, library, hLoad, hSymbols⟩
  have hValid : Program.measuredPair.validate
      (some (declaredTable Program.rotations.statements)) =
        .ok (declaredTable Program.measuredPair.statements) := rfl
  refine ⟨hLoaded, ((Program.validate_eq_ok_iff ?_ _ _).mp hValid).1⟩
  intro table hTable
  rw [← Option.some.inj hTable]
  exact hLoaded

end QuantumCircuit
