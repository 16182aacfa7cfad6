import QuantumCircuit.Proofs.Library.Load
import QuantumCircuit.Proofs.Text.ByteOrder

/-!
# What a symbol table reports

A table keeps its entries in no order that matters.  Its lists are sorted by name, and the names of
an accepted program differ, so that there is only one such list; its totals stop at the largest
word, and stop there in whatever order sizes are added up.

* `toNat_foldl_saturatingAdd` : sizes that are added up one by one.
* `sortedByName_lists`, `ListsByName.unique` : entries of different names are listed in one way.
* `Program.reports_of_validate` : the lists and totals of an accepted program, in any order of the
  entries.
-/

namespace QuantumCircuit

/-! ### Totals -/

theorem toNat_saturatingAdd (first second : UInt64) :
    (saturatingAdd first second).toNat = min (2 ^ 64 - 1) (first.toNat + second.toNat) := by
  have hFirst := first.toNat_lt
  have hSecond := second.toNat_lt
  rw [saturatingAdd]
  split
  · rename_i hFits
    have hSum : first.toNat + second.toNat < 2 ^ 64 := hFits
    rw [UInt64.toNat_add, Nat.mod_eq_of_lt hSum]
    omega
  · rename_i hFits
    have hLarge : 2 ^ 64 ≤ first.toNat + second.toNat := Nat.le_of_not_lt hFits
    show (2 ^ 64 - 1) = _
    omega

/-- The sizes of registers of a kind, added up exactly. -/
def sizeOfKind (kind : RegisterKind) (registers : List (String × RegisterShape)) : Nat :=
  ((registers.filter fun entry => entry.2.kind = kind).map fun entry => entry.2.size.toNat).sum

/-- Sizes that are added up one by one stop at the largest word, or are added up exactly. -/
theorem toNat_foldl_saturatingAdd (registers : List (String × RegisterShape)) (start : UInt64) :
    (registers.foldl (fun total entry => saturatingAdd total entry.2.size) start).toNat =
      min (2 ^ 64 - 1) (start.toNat + (registers.map fun entry => entry.2.size.toNat).sum) := by
  induction registers generalizing start with
  | nil =>
      have hStart := start.toNat_lt
      simp only [List.foldl_nil, List.map_nil, List.sum_nil]
      omega
  | cons entry rest ih =>
      -- a total that has stopped stays where it is
      rw [List.foldl_cons, ih, toNat_saturatingAdd, List.map_cons, List.sum_cons]
      omega

theorem SymbolTable.toNat_totalSize (table : SymbolTable) (kind : RegisterKind) :
    (table.totalSize kind).toNat = min (2 ^ 64 - 1) (sizeOfKind kind table.registers) := by
  rw [SymbolTable.totalSize, toNat_foldl_saturatingAdd, sizeOfKind]
  simp

theorem sizeOfKind_perm {kind : RegisterKind} {first second : List (String × RegisterShape)}
    (h : first.Perm second) : sizeOfKind kind first = sizeOfKind kind second :=
  ((h.filter _).map _).sum_eq

/-! ### Lists -/

variable {α : Type}

/-- Every entry is listed once, and the names are in strictly increasing order of their bytes. -/
structure ListsByName (listed entries : List (String × α)) : Prop where
  increasing : listed.Pairwise fun first second => bytesOf first.1 < bytesOf second.1
  perm : listed.Perm entries

/-- Entries are listed in one way only. -/
theorem ListsByName.unique {first second entries : List (String × α)}
    (hFirst : ListsByName first entries) (hSecond : ListsByName second entries) :
    first = second := by
  refine List.Perm.eq_of_pairwise ?_ hFirst.increasing hSecond.increasing
    (hFirst.perm.trans hSecond.perm.symm)
  intro entry other _ _ hLess hGreater
  exact absurd hGreater (List.lt_asymm hLess)

theorem sortedByName_perm (entries : List (String × α)) : (sortedByName entries).Perm entries :=
  List.mergeSort_perm entries _

/-- Sorted entries of different names are listed by name. -/
theorem sortedByName_lists {entries : List (String × α)}
    (h : (entries.map Prod.fst).Nodup) : ListsByName (sortedByName entries) entries := by
  refine ⟨?_, sortedByName_perm entries⟩
  have hSorted : (sortedByName entries).Pairwise fun first second => first.1 ≤ second.1 := by
    have hMerged : (sortedByName entries).Pairwise fun first second =>
        decide (first.1 ≤ second.1) = true :=
      List.pairwise_mergeSort (fun first second third => by simpa using le_trans)
        (fun first second => by simpa using le_total first.1 second.1) entries
    simpa using hMerged
  have hNames : (sortedByName entries).Pairwise fun first second => first.1 ≠ second.1 :=
    List.pairwise_map.mp (((sortedByName_perm entries).map Prod.fst).nodup_iff.mpr h)
  refine (hSorted.and hNames).imp ?_
  rintro first second ⟨hLess, hDifferent⟩
  exact lt_iff_bytes_lt.mp (lt_of_le_of_ne hLess hDifferent)

/-! ### Reports -/

/-- The table reports what statements declare: their gates and registers by name, and the sizes of
their registers, up to the largest word. -/
structure SymbolTable.Reports (table : SymbolTable) (statements : List Statement) : Prop where
  gates : ListsByName table.sortedGates (declaredGates statements)
  registers : ListsByName table.sortedRegisters (declaredRegisters statements)
  qubits : table.qubitCount.toNat =
    min (2 ^ 64 - 1) (sizeOfKind .quantum (declaredRegisters statements))
  bits : table.bitCount.toNat =
    min (2 ^ 64 - 1) (sizeOfKind .classical (declaredRegisters statements))

/-- Two tables that report what the same statements declare report the same. -/
theorem SymbolTable.Reports.unique {first second : SymbolTable} {statements : List Statement}
    (hFirst : first.Reports statements) (hSecond : second.Reports statements) :
    first.sortedGates = second.sortedGates ∧ first.sortedRegisters = second.sortedRegisters ∧
      first.qubitCount = second.qubitCount ∧ first.bitCount = second.bitCount :=
  ⟨hFirst.gates.unique hSecond.gates, hFirst.registers.unique hSecond.registers,
    UInt64.toNat_inj.mp (hFirst.qubits.trans hSecond.qubits.symm),
    UInt64.toNat_inj.mp (hFirst.bits.trans hSecond.bits.symm)⟩

/-- A table with the declarations of distinct names reports them, in whatever order it has them. -/
theorem SymbolTable.reports_of_perm {context : Context} (hDistinct : context.Distinct)
    {table : SymbolTable}
    (hGates : table.gates.Perm (declaredGates context.before))
    (hRegisters : table.registers.Perm (declaredRegisters context.before)) :
    table.Reports context.before := by
  have hGateNames := (hGates.map Prod.fst).nodup_iff.mpr hDistinct.gates
  have hRegisterNames := (hRegisters.map Prod.fst).nodup_iff.mpr hDistinct.registers
  have hListedGates := sortedByName_lists hGateNames
  have hListedRegisters := sortedByName_lists hRegisterNames
  refine ⟨⟨hListedGates.increasing, hListedGates.perm.trans hGates⟩,
    ⟨hListedRegisters.increasing, hListedRegisters.perm.trans hRegisters⟩, ?_, ?_⟩
  · rw [← sizeOfKind_perm hRegisters]
    exact table.toNat_totalSize .quantum
  · rw [← sizeOfKind_perm hRegisters]
    exact table.toNat_totalSize .classical

/-- **Reports.**  Whatever the order in which the entries of an accepted program's table come, its
lists hold each declared gate and register once and in the order of their names' bytes, its totals
are the exact sums of the declared sizes or the largest word, and all of them are the same as in any
other order. -/
theorem Program.reports_of_validate {library : Option SymbolTable}
    (hLibrary : ∀ table, library = some table → table.IsLoaded) {program : Program}
    {symbols : SymbolTable} (hValid : program.validate library = .ok symbols)
    {yielded : SymbolTable} (hGates : yielded.gates.Perm symbols.gates)
    (hRegisters : yielded.registers.Perm symbols.registers) :
    yielded.Reports program.statements ∧
      yielded.sortedGates = symbols.sortedGates ∧
      yielded.sortedRegisters = symbols.sortedRegisters ∧
      yielded.qubitCount = symbols.qubitCount ∧ yielded.bitCount = symbols.bitCount := by
  rw [Program.validate_eq_ok,
    Program.check_eq_ok fun table hTable => (hLibrary table hTable).registers_eq_nil] at hValid
  obtain ⟨hLawful, rfl⟩ := hValid
  have hOwnGates := List.reverse_perm (declaredGates program.statements)
  have hOwnRegisters := List.reverse_perm (declaredRegisters program.statements)
  have hReports := SymbolTable.reports_of_perm hLawful.distinct (hGates.trans hOwnGates)
    (hRegisters.trans hOwnRegisters)
  exact ⟨hReports,
    hReports.unique (SymbolTable.reports_of_perm hLawful.distinct hOwnGates hOwnRegisters)⟩

/-- A circuit with more qubits than a word can count. -/
def Program.wideRegisters : Program :=
  ⟨[.register .quantum "wide" 18446744073709551615 .start, .register .classical "bits" 3 .start,
    .register .quantum "pair" 2 .start]⟩

/-- The entries of the table in the order of the declarations. -/
def SymbolTable.wideRegisters : SymbolTable :=
  ⟨[], declaredRegisters Program.wideRegisters.statements⟩

theorem Program.reports_of_validate_wideRegisters :
    Program.wideRegisters.validate none = .ok (declaredTable Program.wideRegisters.statements) ∧
      SymbolTable.wideRegisters.registers.Perm
        (declaredTable Program.wideRegisters.statements).registers ∧
      SymbolTable.wideRegisters.sortedRegisters =
        [("bits", ⟨.classical, 3⟩), ("pair", ⟨.quantum, 2⟩),
          ("wide", ⟨.quantum, 18446744073709551615⟩)] ∧
      SymbolTable.wideRegisters.qubitCount.toNat = 2 ^ 64 - 1 ∧
      sizeOfKind .quantum (declaredRegisters Program.wideRegisters.statements) = 2 ^ 64 + 1 ∧
      SymbolTable.wideRegisters.bitCount.toNat = 3 := by
  have hNone : ∀ table, (none : Option SymbolTable) = some table → table.IsLoaded := by
    intro table hTable
    cases hTable
  have hValid : Program.wideRegisters.validate none =
      .ok (declaredTable Program.wideRegisters.statements) := rfl
  have hPerm : SymbolTable.wideRegisters.registers.Perm
      (declaredTable Program.wideRegisters.statements).registers := (List.reverse_perm _).symm
  have hGates : SymbolTable.wideRegisters.gates.Perm
      (declaredTable Program.wideRegisters.statements).gates := .refl _
  obtain ⟨hReports, -⟩ := Program.reports_of_validate hNone hValid hGates hPerm
  have hListed : ListsByName [("bits", ⟨.classical, 3⟩), ("pair", ⟨.quantum, 2⟩),
      ("wide", ⟨.quantum, 18446744073709551615⟩)]
      (declaredRegisters Program.wideRegisters.statements) := by
    refine ⟨?_, by decide⟩
    simp only [List.pairwise_cons, List.forall_mem_cons, ← lt_iff_bytes_lt]
    decide
  exact ⟨hValid, hPerm, hReports.registers.unique hListed, hReports.qubits, by decide,
    hReports.bits⟩

end QuantumCircuit
