import QuantumCircuit.Proofs.Library.Load

/-!
# A library as text in front of a program

A program is checked in two layers, its own table and that of a library behind it.  It could as
well be checked in one table, with the statements of the library in front of its own ones.  The
two checks go side by side: after every statement the one table is that of both layers together.

* `Scope.flattened` : one table in place of two layers, which shows the same names.
* `Scope.check_flattened`, `Scope.checkAll_flattened` : one statement, and a run.
* `Library.validate_inFront` : a program behind a library and behind the library's statements.
-/

namespace QuantumCircuit

/-! ### One table for two layers -/

namespace SymbolTable

/-- The entries of a table in front of those of another one. -/
def inFrontOf (own library : SymbolTable) : SymbolTable :=
  ⟨own.gates ++ library.gates, own.registers ++ library.registers⟩

variable (own library : SymbolTable) (name : String)

@[simp]
theorem gate?_inFrontOf :
    (own.inFrontOf library).gate? name = (own.gate? name).or (library.gate? name) :=
  List.lookup_append

@[simp]
theorem register?_inFrontOf :
    (own.inFrontOf library).register? name = (own.register? name).or (library.register? name) :=
  List.lookup_append

@[simp]
theorem gate?_empty : empty.gate? name = none := rfl

@[simp]
theorem register?_empty : empty.register? name = none := rfl

/-- The table is the disjoint union of two tables: it has the entries of both and shows the names
of both, and no name is in both. -/
structure IsDisjointUnion (all first second : SymbolTable) : Prop where
  gates : all.gates.Perm (first.gates ++ second.gates)
  registers : all.registers.Perm (first.registers ++ second.registers)
  gate : ∀ name signature, all.gate? name = some signature ↔
    first.gate? name = some signature ∨ second.gate? name = some signature
  register : ∀ name shape, all.register? name = some shape ↔
    first.register? name = some shape ∨ second.register? name = some shape
  gates_apart : ∀ name, first.gate? name = none ∨ second.gate? name = none
  registers_apart : ∀ name, first.register? name = none ∨ second.register? name = none

end SymbolTable

/-- Of two answers at most one is given, so that their order does not matter. -/
theorem or_eq_some_of_apart {α : Type} {first second : Option α} (h : first = none ∨ second = none)
    (value : α) : second.or first = some value ↔ first = some value ∨ second = some value := by
  rcases h with rfl | rfl
  · simp
  · simp

/-- A table over another one with other names is their disjoint union. -/
theorem SymbolTable.isDisjointUnion_inFrontOf {own library : SymbolTable}
    (hGates : ∀ name, library.gate? name = none ∨ own.gate? name = none)
    (hRegisters : ∀ name, library.register? name = none ∨ own.register? name = none) :
    (own.inFrontOf library).IsDisjointUnion library own where
  gates := List.perm_append_comm
  registers := List.perm_append_comm
  gate := fun name signature => by
    rw [gate?_inFrontOf]
    exact or_eq_some_of_apart (hGates name) signature
  register := fun name shape => by
    rw [register?_inFrontOf]
    exact or_eq_some_of_apart (hRegisters name) shape
  gates_apart := hGates
  registers_apart := hRegisters

namespace Scope

variable (scope : Scope)

/-- Both layers as the one table of a program without a library. -/
def flattened (scope : Scope) : Scope := ⟨none, scope.own.inFrontOf (scope.library.getD .empty)⟩

@[simp]
theorem gate?_flattened (name : String) : scope.flattened.gate? name = scope.gate? name := by
  obtain ⟨_ | library, own⟩ := scope
  · cases hOwn : own.gate? name <;> simp [flattened, gate?, hOwn]
  · cases hOwn : own.gate? name <;> cases hLibrary : library.gate? name <;>
      simp [flattened, gate?, hOwn, hLibrary]

@[simp]
theorem register?_flattened (name : String) :
    scope.flattened.register? name = scope.register? name := by
  obtain ⟨_ | library, own⟩ := scope
  · cases hOwn : own.register? name <;> simp [flattened, register?, hOwn]
  · cases hOwn : own.register? name <;> cases hLibrary : library.register? name <;>
      simp [flattened, register?, hOwn, hLibrary]

/-! ### Checks that only look names up -/

@[simp]
theorem checkSignature_flattened (call : GateCall) :
    scope.flattened.checkSignature call = scope.checkSignature call := by
  simp only [checkSignature, gate?_flattened]

@[simp]
theorem checkReference_flattened (kind : RegisterKind) (reference : RegisterRef) :
    scope.flattened.checkReference kind reference = scope.checkReference kind reference := by
  simp only [checkReference, register?_flattened]

@[simp]
theorem checkArguments_flattened (position : Position) (first : Option (String × UInt64))
    (references : List RegisterRef) :
    scope.flattened.checkArguments position first references =
      scope.checkArguments position first references := by
  induction references generalizing first with
  | nil => rfl
  | cons argument rest ih => simp only [checkArguments, checkReference_flattened, ih]

@[simp]
theorem checkCall_flattened (call : GateCall) :
    scope.flattened.checkCall call = scope.checkCall call := by
  simp only [checkCall, checkSignature_flattened, checkArguments_flattened]

@[simp]
theorem checkBody_flattened (header : GateHeader) (calls : List GateCall) :
    scope.flattened.checkBody header calls = scope.checkBody header calls := by
  induction calls with
  | nil => rfl
  | cons call rest ih => simp only [checkBody, checkBodyCall, checkSignature_flattened, ih]

@[simp]
theorem checkMeasurement_flattened (source target : RegisterRef) (position : Position) :
    scope.flattened.checkMeasurement source target position =
      scope.checkMeasurement source target position := by
  simp only [checkMeasurement, checkReference_flattened]

@[simp]
theorem checkTargets_flattened (targets : List RegisterRef) :
    scope.flattened.checkTargets targets = scope.checkTargets targets := by
  induction targets with
  | nil => rfl
  | cons target rest ih => simp only [checkTargets, checkReference_flattened, ih]

@[simp]
theorem checkCondition_flattened (name : String) (position : Position) :
    scope.flattened.checkCondition name position = scope.checkCondition name position := by
  simp only [checkCondition, register?_flattened]

end Scope

/-! ### Outcomes that agree -/

/-- Two faults at one place break one rule; they may differ in how a duplicate is worded. -/
structure Fault.Alike (first second : Fault) : Prop where
  position : first.position = second.position
  kind : first.violation.kind = second.violation.kind
  violation : first.violation.kind ≠ .duplicateDeclaration → first.violation = second.violation

theorem Fault.Alike.refl (fault : Fault) : fault.Alike fault := ⟨rfl, rfl, fun _ => rfl⟩

/-- Both checks pass, with values in a relation, or both fail alike. -/
inductive Agree {α β : Type} (related : α → β → Prop) : Except Fault α → Except Fault β → Prop
  | passed {first : α} {second : β} (hRelated : related first second) :
      Agree related (.ok first) (.ok second)
  | failed {first second : Fault} (hAlike : first.Alike second) :
      Agree related (.error first) (.error second)

namespace Agree

variable {α β γ δ : Type} {related : α → β → Prop} {onward : γ → δ → Prop}

theorem of_eq (first : Except Fault α) : Agree Eq first first := by
  cases first with
  | ok value => exact .passed rfl
  | error fault => exact .failed (.refl fault)

/-- Checks one after the other agree if each of them does. -/
theorem bind {first : Except Fault α} {second : Except Fault β} {next : α → Except Fault γ}
    {next' : β → Except Fault δ} (h : Agree related first second)
    (hNext : ∀ value value', related value value' → Agree onward (next value) (next' value')) :
    Agree onward (first >>= next) (second >>= next') := by
  cases h with
  | passed hRelated => exact hNext _ _ hRelated
  | failed hAlike => exact .failed hAlike

/-- The same check in front of two others. -/
theorem bind_same {first : Except Fault α} {next : α → Except Fault γ}
    {next' : α → Except Fault δ} (hNext : ∀ value, Agree onward (next value) (next' value)) :
    Agree onward (first >>= next) (first >>= next') :=
  (of_eq first).bind fun value _ hSame => hSame ▸ hNext value

end Agree

namespace Scope

/-- The second scope is the first one with its layers in one table. -/
def Flattens (first second : Scope) : Prop := second = first.flattened

variable (scope : Scope)

/-- In one table a gate of the library is a gate that was declared already. -/
theorem checkHeader_flattened (header : GateHeader) (position : Position) :
    Agree Eq (scope.checkHeader header position) (scope.flattened.checkHeader header position) := by
  have hLibrary : scope.flattened.isLibraryGate header.name = false := rfl
  simp only [checkHeader, gate?_flattened, hLibrary, Bool.false_eq_true, if_false]
  split
  · split
    · exact .failed ⟨rfl, rfl, fun hKind => absurd rfl hKind⟩
    · exact .of_eq _
  · exact .of_eq _

theorem declareRegister_flattened (kind : RegisterKind) (name : String) (size : UInt64)
    (position : Position) :
    Agree Flattens (scope.declareRegister kind name size position)
      (scope.flattened.declareRegister kind name size position) := by
  simp only [declareRegister, insertRegister?_eq, register?_flattened]
  split
  · exact .failed (.refl _)
  cases (scope.register? name).isSome with
  | true => exact .failed (.refl _)
  | false => exact .passed rfl

theorem declareGate_flattened (header : GateHeader) (isOpaque : Bool) :
    Flattens (scope.declareGate header isOpaque) (scope.flattened.declareGate header isOpaque) := by
  simp only [Flattens, declareGate, insertGate?_eq, gate?_flattened]
  cases (scope.gate? header.name).isSome with
  | true => rfl
  | false => rfl

/-- **One statement.**  A statement that is no version declaration is checked alike in two layers
and in one table, wherever it stands. -/
theorem check_flattened {statement : Statement}
    (hVersion : ∀ major minor position, statement ≠ .version major minor position)
    (isFirst isFirst' : Bool) :
    Agree Flattens (scope.check isFirst statement) (scope.flattened.check isFirst' statement) := by
  have hHere : Flattens scope scope.flattened := rfl
  cases statement with
  | version major minor position => exact absurd rfl (hVersion major minor position)
  | inclusion path position => exact .passed hHere
  | register kind name size position =>
      exact scope.declareRegister_flattened kind name size position
  | gate definition =>
      refine (scope.checkHeader_flattened _ _).bind fun _ _ _ => ?_
      rw [checkBody_flattened]
      exact .bind_same fun _ => .passed (scope.declareGate_flattened _ false)
  | opaqueGate header position =>
      exact (scope.checkHeader_flattened _ _).bind fun _ _ _ =>
        .passed (scope.declareGate_flattened header true)
  | call application =>
      simp only [check, checkCall_flattened]
      exact .bind_same fun _ => .passed hHere
  | measure source target position =>
      simp only [check, checkMeasurement_flattened]
      exact .bind_same fun _ => .passed hHere
  | reset target position =>
      simp only [check, checkReference_flattened]
      exact .bind_same fun _ => .passed hHere
  | barrier targets position =>
      simp only [check, checkTargets_flattened]
      exact .bind_same fun _ => .passed hHere
  | condition name value application position =>
      simp only [check, checkCondition_flattened, checkCall_flattened]
      exact .bind_same fun _ => .bind_same fun _ => .passed hHere

/-- **A run.**  Statements without a version declaration are checked alike in two layers and in
one table. -/
theorem checkAll_flattened {statements : List Statement}
    (hVersion : ∀ major minor position, Statement.version major minor position ∉ statements)
    (isFirst isFirst' : Bool) :
    Agree Flattens (scope.checkAll isFirst statements)
      (scope.flattened.checkAll isFirst' statements) := by
  induction statements generalizing scope isFirst isFirst' with
  | nil => exact .passed rfl
  | cons statement rest ih =>
      have hFirst : ∀ major minor position, statement ≠ .version major minor position :=
        fun major minor position hSame => hVersion major minor position (hSame ▸ List.mem_cons_self)
      refine (scope.check_flattened hFirst isFirst isFirst').bind fun next next' hNext => ?_
      subst hNext
      exact ih next (fun major minor position hMember =>
        hVersion major minor position (List.mem_cons_of_mem _ hMember)) false false

/-- Statements behind others are checked in the scope that those lead to. -/
theorem checkAll_append (isFirst : Bool) (front back : List Statement) :
    scope.checkAll isFirst (front ++ back) =
      scope.checkAll isFirst front >>= fun next =>
        next.checkAll (isFirst && front.isEmpty) back := by
  induction front generalizing scope isFirst with
  | nil => simp [checkAll, bind, Except.bind]
  | cons statement rest ih =>
      rw [List.cons_append, checkAll, checkAll]
      cases scope.check isFirst statement with
      | error fault => rfl
      | ok next => simpa [bind, Except.bind] using ih next false

end Scope

/-! ### Libraries -/

/-- The statements of a loaded library fill one table with what the library shows. -/
theorem Library.checkAll_eq_ok {text : String} {library : Library}
    (hLoad : Library.load text = .ok library) :
    (Scope.initial none).checkAll true library.program.statements =
      .ok (Scope.initial (some library.symbols)).flattened := by
  obtain ⟨-, hLawful, hSymbols⟩ := Library.load_eq_ok.mp hLoad
  refine (Program.checkAll_eq_ok (fun table hTable => by cases hTable)).mpr ⟨hLawful, ?_⟩
  rw [← hSymbols]
  rfl

/-- A lawful program and the library behind it have no name in common. -/
theorem Library.isDisjointUnion {text : String} {library : Library}
    (hLoad : Library.load text = .ok library) {program : Program}
    (hLawful : program.Lawful (some library.symbols)) :
    ((declaredTable program.statements).inFrontOf library.symbols).IsDisjointUnion library.symbols
      (declaredTable program.statements) := by
  refine SymbolTable.isDisjointUnion_inFrontOf (fun name => ?_) fun name => ?_
  · cases hOwn : (declaredTable program.statements).gate? name with
    | none => exact Or.inr rfl
    | some signature =>
        have hDeclared := (declaredTable_gate? hLawful.distinct.gates).mp hOwn
        exact Or.inl (hLawful.distinct.foreign _ rfl name (List.mem_map_of_mem hDeclared))
  · left
    rw [SymbolTable.register?, Library.registers_eq_nil hLoad]
    rfl

/-- Reports of one rule at one place; a duplicate may be worded in two ways. -/
structure SemanticError.Alike (first second : SemanticError) : Prop where
  kind : first.kind = second.kind
  position : first.position = second.position
  detail : first.kind ≠ .duplicateDeclaration → first.detail = second.detail

theorem Fault.Alike.report {first second : Fault} (h : first.Alike second) :
    first.report.Alike second.report where
  kind := h.kind
  position := h.position
  detail := fun hKind => congrArg Violation.detail (h.violation hKind)

/-- What validating behind a library and in one list of statements have in common: the one table
has the names of the library and those of the program, or both are refused alike. -/
inductive ValidatedAlike (library : SymbolTable) :
    Except Diagnostic SymbolTable → Except Diagnostic SymbolTable → Prop
  | accepted {own all : SymbolTable} (hUnion : all.IsDisjointUnion library own) :
      ValidatedAlike library (.ok own) (.ok all)
  | refused {first second : SemanticError} (hAlike : first.Alike second) :
      ValidatedAlike library (.error (.semantic first)) (.error (.semantic second))

/-- **Text in front.**  A program without a version declaration is validated behind a loaded
library as it is with the statements of the library in front of its own ones. -/
theorem Library.validate_inFront {text : String} {library : Library}
    (hLoad : Library.load text = .ok library) {program : Program}
    (hVersion : ∀ major minor position,
      Statement.version major minor position ∉ program.statements) :
    ValidatedAlike library.symbols (program.validate (some library.symbols))
      (Program.validate none ⟨library.program.statements ++ program.statements⟩) := by
  -- the statements of the library lead to the table from which both runs go side by side
  have hRuns := (Scope.initial (some library.symbols)).checkAll_flattened hVersion true
    (true && library.program.statements.isEmpty)
  have hFlat : (Scope.initial none).checkAll true
      (library.program.statements ++ program.statements) =
        (Scope.initial (some library.symbols)).flattened.checkAll
          (true && library.program.statements.isEmpty) program.statements := by
    rw [Scope.checkAll_append, Library.checkAll_eq_ok hLoad]
    rfl
  rw [← hFlat] at hRuns
  simp only [Program.validate, Program.check]
  generalize hLayered : (Scope.initial (some library.symbols)).checkAll true program.statements =
    layered at hRuns
  generalize (Scope.initial none).checkAll true
    (library.program.statements ++ program.statements) = flat at hRuns
  cases hRuns with
  | failed hAlike => exact .refused hAlike.report
  | @passed final all hFlattens =>
      have hLibrary : ∀ table, some library.symbols = some table → table.registers = [] := by
        rintro table ⟨⟩
        exact Library.registers_eq_nil hLoad
      obtain ⟨hLawful, rfl⟩ := (Program.checkAll_eq_ok hLibrary).mp hLayered
      subst hFlattens
      exact .accepted (Library.isDisjointUnion hLoad hLawful)

/-- A circuit that declares a gate of the library of rotations again. -/
def Program.redeclaredTurn : Program :=
  ⟨Program.measuredPair.statements.tail ++ [.opaqueGate ⟨"turn", ["theta"], ["a"]⟩ .start]⟩

theorem Library.validate_inFront_redeclaredTurn :
    ∃ library, Library.load Program.rotations.text = .ok library ∧
      (∀ major minor position,
        Statement.version major minor position ∉ Program.redeclaredTurn.statements) ∧
      ValidatedAlike library.symbols (Program.redeclaredTurn.validate (some library.symbols))
        (Program.validate none
          ⟨library.program.statements ++ Program.redeclaredTurn.statements⟩) ∧
      Program.redeclaredTurn.validate (some library.symbols) =
        .error (.semantic (Fault.report ⟨.libraryGate "turn", .start⟩)) := by
  obtain ⟨library, hLoad, -, hSymbols⟩ := Library.load_rotations
  have hVersion : ∀ major minor position,
      Statement.version major minor position ∉ Program.redeclaredTurn.statements := by
    simp [Program.redeclaredTurn, Program.measuredPair]
  refine ⟨library, hLoad, hVersion, Library.validate_inFront hLoad hVersion, ?_⟩
  rw [hSymbols]
  rfl

end QuantumCircuit
