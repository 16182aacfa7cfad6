import Mathlib.Logic.Hydra
import Mathlib.Logic.Relation
import QuantumCircuit.Proofs.Expansion.Instances
import QuantumCircuit.Proofs.Library.Definitions

/-!
# Accepted programs can be expanded

The calls in the body of a gate only name gates that are declared in front of it.  The number of
gates in front of a gate is its rank, and a step replaces an application by applications of a
lower rank, so that expansions end.  What a step meets is sound: the gate is declared, it takes
as many parameters and qubits as there are, and no two arguments overlap.

* `Declarations.Accepted` : a loaded library and a program that is valid behind it.
* `Application.Sound` : the invariant of an expansion.
* `Declarations.Accepted.expand_of_sound` : what a sound application stands for.
* `Declarations.Accepted.step_wellFounded` : expansions end.
* `Declarations.Accepted.expandable` : expansions end and only fail by a division by zero.
-/

namespace QuantumCircuit

variable {α : Type}

/-! ### Accepted declarations -/

namespace Declarations

/-- The statements of the library and of the program. -/
def statements (declarations : Declarations) : List Statement :=
  layered declarations.library declarations.program

/-- The library was loaded, and the program was accepted against it. -/
structure Accepted (declarations : Declarations) : Prop where
  library : IsLoaded declarations.library
  program : declarations.program.validate (declarations.library.map Library.symbols) =
    .ok declarations.symbols

variable {declarations : Declarations}

theorem Accepted.lawful (h : declarations.Accepted) :
    declarations.program.Lawful (declarations.library.map Library.symbols) ∧
      declarations.symbols = declaredTable declarations.program.statements := by
  rw [← Program.check_eq_ok h.library.registers_eq_nil, ← Program.validate_eq_ok]
  exact h.program

theorem Accepted.gatesLawful (h : declarations.Accepted) :
    GatesLawful declarations.statements :=
  gatesLawful_layered h.library h.lawful.1

/-- The names behind an accepted program are those of all declarations. -/
theorem Accepted.gate?_eq_some (h : declarations.Accepted) {name : String}
    {signature : GateSignature} :
    declarations.scope.gate? name = some signature ↔
      (name, signature) ∈ declaredGates declarations.statements := by
  obtain ⟨hLawful, hSymbols⟩ := h.lawful
  have hShows := hLawful.distinct.shows h.library.registers_eq_nil
  have hScope : declarations.scope =
      Context.scope ⟨declarations.library.map Library.symbols,
        declarations.program.statements⟩ := by
    rw [Declarations.scope, hSymbols]
    rfl
  rw [hScope, hShows.gate, hasGate_layered h.library]
  rfl

end Declarations

/-! ### Definitions -/

namespace Declarations

variable {declarations : Declarations}

theorem definition?_eq_some {name : String} {definition : GateDefinition}
    (h : declarations.definition? name = some definition) :
    .gate definition ∈ declarations.statements ∧ definition.header.name = name := by
  rw [Declarations.definition?, Option.or_eq_some_iff] at h
  rw [Declarations.statements, layered, List.mem_append]
  rcases h with hProgram | ⟨-, hLibrary⟩
  · obtain ⟨hMember, hName⟩ := Program.definition?_eq_some hProgram
    exact ⟨.inr hMember, hName⟩
  · obtain ⟨loaded, hLoaded, hDefinition⟩ := Option.bind_eq_some_iff.mp hLibrary
    have hFound : loaded.program.definition? name = some definition := hDefinition
    obtain ⟨hMember, hName⟩ := Program.definition?_eq_some hFound
    rw [hLoaded]
    exact ⟨.inl hMember, hName⟩

theorem exists_definition {name : String} {signature : GateSignature}
    (h : (name, signature) ∈ declaredGates declarations.statements)
    (hBody : signature.isOpaque = false) :
    ∃ definition, declarations.definition? name = some definition := by
  rw [Declarations.statements, layered, declaredGates_append, List.mem_append] at h
  rw [← Option.isSome_iff_exists, Declarations.definition?, Option.isSome_or, Bool.or_eq_true,
    Option.isSome_iff_exists, Option.isSome_iff_exists]
  rcases h with hLibrary | hProgram
  · cases hLoaded : declarations.library with
    | none =>
        rw [hLoaded] at hLibrary
        cases hLibrary
    | some loaded =>
        rw [hLoaded] at hLibrary
        exact .inr (Program.exists_definition hLibrary hBody)
  · exact .inl (Program.exists_definition hProgram hBody)

end Declarations

/-! ### Ranks -/

/-- The number of gates that are declared in front of a gate. -/
def rank (statements : List Statement) (name : String) : Nat :=
  ((declaredGates statements).map Prod.fst).idxOf name

/-- What is declared in front of a definition has a lower rank than its gate. -/
theorem GatesLawful.rank_lt {statements before after : List Statement}
    {definition : GateDefinition} (h : GatesLawful statements)
    (hSplit : statements = before ++ .gate definition :: after) {name : String}
    {signature : GateSignature} (hName : (name, signature) ∈ declaredGates before) :
    rank statements name < rank statements definition.header.name := by
  have hNames : (declaredGates statements).map Prod.fst =
      (declaredGates before).map Prod.fst ++
        definition.header.name :: (declaredGates after).map Prod.fst := by
    rw [hSplit, declaredGates_append, List.map_append]
    rfl
  have hBefore : name ∈ (declaredGates before).map Prod.fst := List.mem_map_of_mem hName
  have hDistinct := h.distinct
  rw [hNames, List.nodup_append] at hDistinct
  have hNew : definition.header.name ∉ (declaredGates before).map Prod.fst := by
    intro hMember
    exact hDistinct.2.2 _ hMember _ List.mem_cons_self rfl
  rw [rank, rank, hNames, List.idxOf_append_of_mem hBefore, List.idxOf_append_of_notMem hNew,
    List.idxOf_cons_self]
  have hPlace := List.idxOf_lt_length_of_mem hBefore
  omega

namespace Declarations

variable {declarations : Declarations} {arithmetic : Arithmetic α}

/-- An application is replaced by the instances of a definition. -/
theorem expand_eq_ok_some {application : Application α} {body : List (Application α)}
    (h : declarations.expand arithmetic application = .ok (some body)) :
    ∃ definition, .gate definition ∈ declarations.statements ∧
      definition.header.name = application.name ∧
      definition.instances arithmetic application = .ok body := by
  rw [Declarations.expand] at h
  -- the other answers are errors, and an opaque gate is left as it is
  split at h
  · cases h
  split at h
  · cases h
  split at h
  · cases h
  split at h
  · cases h
  split at h
  · cases h
  rename_i definition hDefinition
  obtain ⟨hMember, hName⟩ := definition?_eq_some hDefinition
  refine ⟨definition, hMember, hName, ?_⟩
  cases hInstances : definition.instances arithmetic application with
  | error fault =>
      rw [hInstances] at h
      cases h
  | ok instances =>
      rw [hInstances] at h
      cases h
      rfl

/-- The ranks of the gates in a list of applications. -/
def ranks (declarations : Declarations) (applications : List (Application α)) : Multiset Nat :=
  applications.map fun application => rank declarations.statements application.name

/-- An application is replaced by applications of a lower rank. -/
theorem Accepted.rank_lt_of_expand (h : declarations.Accepted) {application : Application α}
    {body : List (Application α)}
    (hExpand : declarations.expand arithmetic application = .ok (some body)) :
    ∀ found ∈ body, rank declarations.statements found.name <
      rank declarations.statements application.name := by
  intro found hFound
  obtain ⟨definition, hMember, hName, hInstances⟩ := expand_eq_ok_some hExpand
  obtain ⟨call, hCall, hInstance⟩ := exists_of_mapM_eq_ok hInstances hFound
  obtain ⟨before, after, hSplit⟩ := List.append_of_mem hMember
  obtain ⟨-, hBody⟩ := h.gatesLawful.definitions before definition after hSplit
  obtain ⟨signature, hGate, -⟩ := (hBody call hCall).known
  rw [(GateCall.instantiate_eq_ok hInstance).1, ← hName]
  exact h.gatesLawful.rank_lt hSplit (hasGate_none.mp hGate)

/-- A step takes one rank away and adds lower ones. -/
theorem Accepted.cutExpand_of_step (h : declarations.Accepted)
    {earlier later : List (Application α)} (hStep : declarations.Step arithmetic earlier later) :
    Relation.CutExpand (· < ·) (declarations.ranks later) (declarations.ranks earlier) := by
  obtain ⟨front, back, application, body, hExpand⟩ := hStep
  refine ⟨declarations.ranks body, rank declarations.statements application.name, ?_, ?_⟩
  · intro lower hLower
    rw [ranks, Multiset.mem_coe, List.mem_map] at hLower
    obtain ⟨found, hFound, rfl⟩ := hLower
    exact h.rank_lt_of_expand hExpand found hFound
  · simp only [ranks, List.map_append, List.map_cons, ← Multiset.coe_add, ← Multiset.cons_coe,
      ← Multiset.singleton_add]
    ac_rfl

/-- Every expansion ends, in whatever order applications are replaced. -/
theorem Accepted.step_wellFounded (h : declarations.Accepted) (arithmetic : Arithmetic α) :
    WellFounded fun later earlier => declarations.Step arithmetic earlier later := by
  have hRanks : WellFounded (@Relation.CutExpand Nat (· < ·)) := wellFounded_lt.cutExpand
  refine Subrelation.wf ?_ (InvImage.wf declarations.ranks hRanks)
  intro later earlier hStep
  exact h.cutExpand_of_step hStep

end Declarations

/-! ### Sound applications -/

/-- The gate is declared, it takes as many parameters and qubits as are given, and no two of the
qubits overlap. -/
structure Application.Sound (statements : List Statement) (application : Application α) :
    Prop where
  known : ∃ signature, (application.name, signature) ∈ declaredGates statements ∧
    application.values.length = signature.params ∧ application.qubits.length = signature.qubits
  apart : Apart application.qubits

/-- A definition declares its gate. -/
theorem mem_declaredGates_of_definition {statements : List Statement}
    {definition : GateDefinition} (h : .gate definition ∈ statements) :
    (definition.header.name, definition.header.signature false) ∈ declaredGates statements :=
  List.mem_filterMap.mpr ⟨_, h, rfl⟩

/-- The definition of a gate has the counts of its signature. -/
theorem Application.Sound.fits {statements : List Statement} {application : Application α}
    (h : application.Sound statements) (hGates : GatesLawful statements)
    {definition : GateDefinition} (hMember : .gate definition ∈ statements)
    (hName : definition.header.name = application.name) : definition.header.Fits application := by
  obtain ⟨⟨signature, hGate, hValues, hQubits⟩, hApart⟩ := h
  have hDeclared := mem_declaredGates_of_definition hMember
  rw [hName] at hDeclared
  have hSame := List.inj_on_of_nodup_map hGates.distinct hDeclared hGate rfl
  have hSignature : definition.header.signature false = signature := congrArg Prod.snd hSame
  rw [← hSignature] at hValues hQubits
  exact ⟨hValues, hQubits, hApart⟩

namespace Declarations

variable {declarations : Declarations} {arithmetic : Arithmetic α}

/-- An opaque gate is left as it is; a sound application of another gate stands for the instances
of its definition. -/
theorem Accepted.expand_of_sound (h : declarations.Accepted) {application : Application α}
    (hSound : application.Sound declarations.statements) :
    declarations.expand arithmetic application = .ok none ∨
      ∃ definition, .gate definition ∈ declarations.statements ∧
        definition.header.Fits application ∧
        declarations.expand arithmetic application =
          (definition.instances arithmetic application).map some := by
  obtain ⟨signature, hGate, hValues, hQubits⟩ := hSound.known
  have hCounts : ¬ (application.values.length ≠ signature.params ∨
      application.qubits.length ≠ signature.qubits) := by
    omega
  rw [Declarations.expand, h.gate?_eq_some.mpr hGate]
  simp only [if_neg hCounts, checkOverlap_nil_eq_ok.mpr hSound.apart]
  cases hOpaque : signature.isOpaque with
  | true => exact .inl rfl
  | false =>
      obtain ⟨definition, hDefinition⟩ := exists_definition hGate hOpaque
      obtain ⟨hMember, hName⟩ := definition?_eq_some hDefinition
      refine .inr ⟨definition, hMember, hSound.fits h.gatesLawful hMember hName, ?_⟩
      rw [hDefinition]
      rfl

/-- A sound application only fails by a division by zero. -/
theorem Accepted.expand_error (h : declarations.Accepted) {application : Application α}
    (hSound : application.Sound declarations.statements) {fault : ExpansionFault}
    (hFault : declarations.expand arithmetic application = .error fault) :
    fault.IsDivision := by
  rcases h.expand_of_sound hSound with hOpaque | ⟨definition, hMember, hFits, hExpand⟩
  · rw [hOpaque] at hFault
    cases hFault
  · rw [hExpand] at hFault
    cases hInstances : definition.instances arithmetic application with
    | ok body =>
        rw [hInstances] at hFault
        cases hFault
    | error found =>
        rw [hInstances] at hFault
        cases hFault
        -- the fault is that of a call, which is lawful where the definition stands
        obtain ⟨call, hCall, hInstance⟩ := mapM_eq_error hInstances
        obtain ⟨before, after, hSplit⟩ := List.append_of_mem hMember
        obtain ⟨-, hBody⟩ := h.gatesLawful.definitions before definition after hSplit
        exact (hBody call hCall).instantiate_error hFits hInstance

/-- What a sound application is replaced by is sound. -/
theorem Accepted.sound_of_expand (h : declarations.Accepted) {application : Application α}
    (hSound : application.Sound declarations.statements) {body : List (Application α)}
    (hExpand : declarations.expand arithmetic application = .ok (some body)) :
    ∀ found ∈ body, found.Sound declarations.statements := by
  intro found hFound
  obtain ⟨definition, hMember, hName, hInstances⟩ := expand_eq_ok_some hExpand
  have hFits := hSound.fits h.gatesLawful hMember hName
  obtain ⟨call, hCall, hInstance⟩ := exists_of_mapM_eq_ok hInstances hFound
  obtain ⟨before, after, hSplit⟩ := List.append_of_mem hMember
  obtain ⟨hHeader, hBody⟩ := h.gatesLawful.definitions before definition after hSplit
  have hLawful := hBody call hCall
  obtain ⟨hCallName, hValues, hQubits⟩ := GateCall.instantiate_eq_ok hInstance
  obtain ⟨signature, hGate, hParams, hArguments⟩ := hLawful.known
  have hDeclared : (call.name, signature) ∈ declaredGates declarations.statements := by
    rw [hSplit, declaredGates_append]
    exact List.mem_append_left _ (hasGate_none.mp hGate)
  constructor
  · refine ⟨signature, by rwa [hCallName], by rw [hValues, hParams], ?_⟩
    rw [← hQubits.length_eq, hArguments]
  · exact hLawful.instantiate_apart hHeader hFits hInstance

/-! ### Runs -/

/-- A step keeps a list of applications sound. -/
theorem Accepted.sound_of_step (h : declarations.Accepted)
    {earlier later : List (Application α)} (hStep : declarations.Step arithmetic earlier later)
    (hSound : ∀ application ∈ earlier, application.Sound declarations.statements) :
    ∀ application ∈ later, application.Sound declarations.statements := by
  obtain ⟨front, back, application, body, hExpand⟩ := hStep
  rw [List.forall_mem_append, List.forall_mem_cons] at hSound
  obtain ⟨hFront, hHere, hBack⟩ := hSound
  rw [List.forall_mem_append, List.forall_mem_append]
  exact ⟨⟨hFront, h.sound_of_expand hHere hExpand⟩, hBack⟩

/-- A run keeps a list of applications sound. -/
theorem Accepted.sound_of_run (h : declarations.Accepted)
    {first reached : List (Application α)}
    (hRun : Relation.ReflTransGen (declarations.Step arithmetic) first reached)
    (hSound : ∀ application ∈ first, application.Sound declarations.statements) :
    ∀ application ∈ reached, application.Sound declarations.statements := by
  induction hRun with
  | refl => exact hSound
  | tail _ hStep ih => exact h.sound_of_step hStep ih

/-- From every list of applications a run leads to one without a further step. -/
theorem Accepted.exists_last (h : declarations.Accepted) (arithmetic : Arithmetic α)
    (reached : List (Application α)) :
    ∃ last, Relation.ReflTransGen (declarations.Step arithmetic) reached last ∧
      ∀ later, ¬ declarations.Step arithmetic last later := by
  induction reached using (h.step_wellFounded arithmetic).induction with
  | _ reached ih =>
      by_cases hStep : ∃ later, declarations.Step arithmetic reached later
      · obtain ⟨later, hLater⟩ := hStep
        obtain ⟨last, hRun, hLast⟩ := ih later hLater
        exact ⟨last, hRun.head hLater, hLast⟩
      · exact ⟨reached, .refl, not_exists.mp hStep⟩

/-- Where no further step leads on, every application is opaque or divides by zero. -/
theorem Accepted.expand_of_last (h : declarations.Accepted) {last : List (Application α)}
    (hSound : ∀ application ∈ last, application.Sound declarations.statements)
    (hLast : ∀ later, ¬ declarations.Step arithmetic last later) :
    ∀ application ∈ last, declarations.expand arithmetic application = .ok none ∨
      ∃ fault, declarations.expand arithmetic application = .error fault ∧ fault.IsDivision := by
  intro application hMember
  match hExpand : declarations.expand arithmetic application with
  | .ok none => exact .inl rfl
  | .ok (some body) =>
      -- replacing this application would be a further step
      obtain ⟨front, back, rfl⟩ := List.append_of_mem hMember
      exact absurd (.replace front back application body hExpand) (hLast _)
  | .error fault =>
      exact .inr ⟨fault, rfl, h.expand_error (hSound application hMember) hExpand⟩

/-! ### Calls outside bodies -/

end Declarations

/-- A call outside gate bodies follows the rules at its place. -/
theorem Program.Lawful.gateCall {library : Option SymbolTable} {program : Program}
    (h : program.Lawful library) {call : GateCall} (hCall : call ∈ program.gateCalls) :
    ∃ before after, program.statements = before ++ after ∧ call.Lawful ⟨library, before⟩ := by
  rw [Program.gateCalls, List.mem_filterMap] at hCall
  obtain ⟨s, hMember, hFound⟩ := hCall
  obtain ⟨before, after, hSplit⟩ := List.append_of_mem hMember
  have hLawful := h.statements before s after hSplit
  refine ⟨before, s :: after, hSplit, ?_⟩
  cases s with
  | call application =>
      cases hFound
      exact hLawful
  | condition name value application position =>
      cases hFound
      exact hLawful.2
  | _ => cases hFound

namespace Declarations

variable {declarations : Declarations} {arithmetic : Arithmetic α}

/-- A call outside gate bodies only fails by a division by zero. -/
theorem Accepted.start_error (h : declarations.Accepted) {call : GateCall}
    (hCall : call ∈ declarations.program.gateCalls) {fault : ExpansionFault}
    (hFault : call.start arithmetic = .error fault) : fault.IsDivision := by
  obtain ⟨before, after, -, hLawful⟩ := h.lawful.1.gateCall hCall
  refine GateCall.instantiate_error ?_ ?_ hFault
  · intro e he name hName
    rw [hLawful.closed e he] at hName
    cases hName
  · intro reference _
    exact ⟨reference, rfl⟩

/-- A call outside gate bodies is a sound application. -/
theorem Accepted.sound_of_start (h : declarations.Accepted) {call : GateCall}
    (hCall : call ∈ declarations.program.gateCalls) {first : Application α}
    (hFirst : call.start arithmetic = .ok first) : first.Sound declarations.statements := by
  obtain ⟨before, after, hSplit, hLawful⟩ := h.lawful.1.gateCall hCall
  obtain ⟨hName, hValues, hQubits⟩ := GateCall.instantiate_eq_ok hFirst
  -- outside bodies the arguments are not replaced
  have hSame : first.qubits = call.qubits := by
    have hEqual : List.Forall₂ (· = ·) call.qubits first.qubits :=
      hQubits.imp fun reference argument hPlace => Except.ok.inj hPlace
    exact (List.forall₂_eq_eq_eq ▸ hEqual : call.qubits = first.qubits).symm
  obtain ⟨signature, hGate, hParams, hArguments⟩ := hLawful.known
  have hDeclared : (call.name, signature) ∈ declaredGates declarations.statements := by
    refine (hasGate_layered h.library).mp ?_
    refine hGate.imp id fun hBefore => ?_
    rw [hSplit, declaredGates_append]
    exact List.mem_append_left _ hBefore
  constructor
  · exact ⟨signature, by rwa [hName], by rw [hValues, hParams], by rw [hSame, hArguments]⟩
  · rw [hSame]
    exact hLawful.apart

/-- Every call of a program can be expanded. -/
structure Expandable (declarations : Declarations) (arithmetic : Arithmetic α) : Prop where
  /-- Every expansion ends, in whatever order applications are replaced. -/
  ends : WellFounded fun later earlier => declarations.Step arithmetic earlier later
  /-- A call has values, or it divides by zero. -/
  starts : ∀ call ∈ declarations.program.gateCalls, ∀ fault,
    call.start arithmetic = .error fault → fault.IsDivision
  /-- Whatever has been replaced, an application can be replaced, or a body divides by zero. -/
  safe : ∀ call ∈ declarations.program.gateCalls, ∀ first, call.start arithmetic = .ok first →
    ∀ reached, Relation.ReflTransGen (declarations.Step arithmetic) [first] reached →
      ∀ application ∈ reached, ∀ fault,
        declarations.expand arithmetic application = .error fault → fault.IsDivision
  /-- Whatever has been replaced, the rest can be replaced until only opaque gates and bodies that
  divide by zero are left. -/
  completes : ∀ call ∈ declarations.program.gateCalls, ∀ first,
    call.start arithmetic = .ok first →
      ∀ reached, Relation.ReflTransGen (declarations.Step arithmetic) [first] reached →
        ∃ last, Relation.ReflTransGen (declarations.Step arithmetic) reached last ∧
          ∀ application ∈ last, declarations.expand arithmetic application = .ok none ∨
            ∃ fault, declarations.expand arithmetic application = .error fault ∧ fault.IsDivision

/-- **Expansion.**  Behind a loaded library, or without one, every call of an accepted program
can be expanded: no order of replacements goes on forever, and no step meets a gate that is not
declared, an unequal count, an unbound identifier or two arguments that overlap.  What remains is
a division by zero. -/
theorem Accepted.expandable (h : declarations.Accepted) (arithmetic : Arithmetic α) :
    declarations.Expandable arithmetic := by
  have hRun : ∀ call ∈ declarations.program.gateCalls, ∀ first,
      call.start arithmetic = .ok first → ∀ reached,
        Relation.ReflTransGen (declarations.Step arithmetic) [first] reached →
          ∀ application ∈ reached, application.Sound declarations.statements := by
    intro call hCall first hFirst reached hReached
    refine h.sound_of_run hReached ?_
    rw [List.forall_mem_singleton]
    exact h.sound_of_start hCall hFirst
  constructor
  case ends => exact h.step_wellFounded arithmetic
  case starts =>
      intro call hCall fault hFault
      exact h.start_error hCall hFault
  case safe =>
      intro call hCall first hFirst reached hReached application hMember fault hFault
      exact h.expand_error (hRun call hCall first hFirst reached hReached application hMember)
        hFault
  case completes =>
      intro call hCall first hFirst reached hReached
      obtain ⟨last, hRest, hLast⟩ := h.exists_last arithmetic reached
      have hSound := hRun call hCall first hFirst last (hReached.trans hRest)
      exact ⟨last, hRest, h.expand_of_last hSound hLast⟩

/-- The circuit over the library of rotations calls two gates with bodies, and both calls have
values.  The first one is replaced by two applications. -/
theorem expandable_measuredPair :
    ∃ library, Library.load Program.rotations.text = .ok library ∧
      Program.measuredPair.gateCalls.map (fun call => call.start Arithmetic.binary64) =
        [.ok ⟨"pair", [Arithmetic.binary64.pi], [.element "q" 0, .element "q" 1]⟩,
          .ok ⟨"turn", [Arithmetic.binary64.pi], [.whole "q"]⟩] ∧
      Declarations.Step
        ⟨some library, Program.measuredPair, declaredTable Program.measuredPair.statements⟩
        Arithmetic.binary64
        [⟨"pair", [Arithmetic.binary64.pi], [.element "q" 0, .element "q" 1]⟩]
        [⟨"turn", [Arithmetic.binary64.div Arithmetic.binary64.pi Arithmetic.binary64.pi],
            [.element "q" 1]⟩,
          ⟨"CX", [], [.element "q" 1, .element "q" 0]⟩] ∧
      Declarations.Expandable
        ⟨some library, Program.measuredPair, declaredTable Program.measuredPair.statements⟩
        Arithmetic.binary64 := by
  obtain ⟨library, hLoad, -, hSymbols⟩ := Library.load_rotations
  have hLibrary : IsLoaded (some library) := by
    rintro loaded ⟨⟩
    exact ⟨_, hLoad⟩
  have hValid : Program.measuredPair.validate ((some library).map Library.symbols) =
      .ok (declaredTable Program.measuredPair.statements) := by
    rw [Option.map_some, hSymbols]
    rfl
  have hStep := @Declarations.Step.replace Float
    ⟨some library, Program.measuredPair, declaredTable Program.measuredPair.statements⟩
    Arithmetic.binary64 [] [] ⟨"pair", [Arithmetic.binary64.pi], [.element "q" 0, .element "q" 1]⟩
    _ rfl
  exact ⟨library, hLoad, rfl, hStep, Accepted.expandable ⟨hLibrary, hValid⟩ Arithmetic.binary64⟩

end Declarations

end QuantumCircuit
