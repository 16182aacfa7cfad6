import QuantumCircuit.Proofs.Validity.Check

/-!
# The order of the rules of a call

The rules of a call stand in an order: its gate is declared, the counts agree, its parameters
hold no identifiers, its arguments are good one by one, its whole registers have one size, and no
two arguments overlap.  `Scope.Breaks` says which rule is the first in this order that a call
breaks.

The checker goes through the arguments once and compares the sizes on its way.  Unequal registers
hide the fault of an argument behind them, and apart from that the order is kept.

* `Scope.checkArguments_failsWith` : where the checker stops among the arguments.
* `Scope.checkCall_failsWith` : the kind of the fault that is reported for a call.
-/

namespace QuantumCircuit

/-! ### Failures -/

section Failures

variable {α β : Type} {kind : SemanticKind}

/-- The answer is a fault of a kind. -/
def FailsWith (answer : Except Fault α) (kind : SemanticKind) : Prop :=
  ∃ fault, answer = .error fault ∧ fault.violation.kind = kind

theorem not_failsWith_ok (value : α) : ¬ FailsWith (.ok value) kind := by
  rintro ⟨fault, hFault, -⟩
  cases hFault

theorem failsWith_reject {violation : Violation} {position : Position} :
    FailsWith (reject violation position : Except Fault α) kind ↔ violation.kind = kind := by
  constructor
  · rintro ⟨fault, hFault, hKind⟩
    cases hFault
    exact hKind
  · exact fun hKind => ⟨_, rfl, hKind⟩

/-- Checks in a row fail where the first of them does. -/
theorem failsWith_bind {first : Except Fault α} {next : α → Except Fault β} :
    FailsWith (first >>= next) kind ↔
      FailsWith first kind ∨ ∃ value, first = .ok value ∧ FailsWith (next value) kind := by
  cases first with
  | error fault =>
      constructor
      · rintro ⟨other, hOther, hKind⟩
        cases hOther
        exact Or.inl ⟨fault, rfl, hKind⟩
      · rintro (⟨other, hOther, hKind⟩ | ⟨value, hValue, -⟩)
        · cases hOther
          exact ⟨fault, rfl, hKind⟩
        · cases hValue
  | ok value =>
      constructor
      · exact fun hNext => Or.inr ⟨value, rfl, hNext⟩
      · rintro (hFirst | ⟨other, hOther, hNext⟩)
        · exact absurd hFirst (not_failsWith_ok value)
        · cases hOther
          exact hNext

theorem failsWith_check {first : Except Fault Unit} {next : Unit → Except Fault β} :
    FailsWith (first >>= next) kind ↔
      FailsWith first kind ∨ first = .ok () ∧ FailsWith (next ()) kind := by
  rw [failsWith_bind]
  apply or_congr_right
  constructor
  · rintro ⟨⟨⟩, hPasses, hNext⟩
    exact ⟨hPasses, hNext⟩
  · exact fun hNext => ⟨(), hNext⟩

theorem exists_failsWith {answer : Except Fault α} (h : ∀ value, answer ≠ .ok value) :
    ∃ kind, FailsWith answer kind := by
  cases answer with
  | error fault => exact ⟨_, fault, rfl, rfl⟩
  | ok value => exact absurd rfl (h value)

end Failures

namespace Scope

variable {scope : Scope} {kind : SemanticKind}

/-! ### One argument -/

/-- The reference means no element of a quantum register, for a reason of a kind. -/
inductive Misrefers (scope : Scope) (reference : RegisterRef) : SemanticKind → Prop where
  | unknown (hRegister : scope.register? reference.register = none) :
      Misrefers scope reference .unknownRegister
  | wrongKind {shape : RegisterShape}
      (hRegister : scope.register? reference.register = some shape)
      (hKind : shape.kind ≠ .quantum) : Misrefers scope reference .registerKindMismatch
  | outOfRange {size index : UInt64}
      (hRegister : scope.register? reference.register = some ⟨.quantum, size⟩)
      (hIndex : reference.index = some index) (hRange : ¬ index < size) :
      Misrefers scope reference .indexOutOfRange

theorem checkReference_failsWith {reference : RegisterRef} :
    FailsWith (scope.checkReference .quantum reference) kind ↔ scope.Misrefers reference kind := by
  constructor
  · rw [checkReference]
    intro hFails
    split at hFails
    · rename_i hRegister
      obtain rfl := failsWith_reject.mp hFails
      exact .unknown hRegister
    rename_i shape hRegister
    split at hFails
    · rename_i hKind
      obtain rfl := failsWith_reject.mp hFails
      exact .wrongKind hRegister hKind
    rename_i hKind
    rw [not_not] at hKind
    split at hFails
    · exact absurd hFails (not_failsWith_ok _)
    rename_i index hIndex
    split at hFails
    · exact absurd hFails (not_failsWith_ok _)
    rename_i hRange
    obtain rfl := failsWith_reject.mp hFails
    obtain ⟨shapeKind, size⟩ := shape
    cases hKind
    exact .outOfRange hRegister hIndex hRange
  · rintro (hRegister | ⟨hRegister, hKind⟩ | ⟨hRegister, hIndex, hRange⟩)
    · rw [checkReference, hRegister]
      exact failsWith_reject.mpr rfl
    · rw [checkReference, hRegister]
      simp only [hKind, ne_eq, not_false_eq_true, if_true]
      exact failsWith_reject.mpr rfl
    · rw [checkReference, hRegister, hIndex]
      simp only [hRange, ne_eq, not_true_eq_false, if_false]
      exact failsWith_reject.mpr rfl

theorem Resolves.not_misrefers {reference : RegisterRef} {size : UInt64}
    (h : scope.Resolves .quantum reference size) : ¬ scope.Misrefers reference kind := by
  rw [← checkReference_failsWith, checkReference_eq_ok.mpr h]
  exact not_failsWith_ok size

theorem resolves_or_misrefers (scope : Scope) (reference : RegisterRef) :
    (∃ size, scope.Resolves .quantum reference size) ∨ ∃ kind, scope.Misrefers reference kind := by
  cases hCheck : scope.checkReference .quantum reference with
  | ok size => exact Or.inl ⟨size, checkReference_eq_ok.mp hCheck⟩
  | error fault => exact Or.inr ⟨_, checkReference_failsWith.mp ⟨fault, hCheck, rfl⟩⟩

/-- Arguments are good one by one, or one of them is the first that is not. -/
theorem resolve_or_first_misrefers (scope : Scope) (references : List RegisterRef) :
    (∀ reference ∈ references, ∃ size, scope.Resolves .quantum reference size) ∨
      ∃ front reference rest kind, references = front ++ reference :: rest ∧
        (∀ other ∈ front, ∃ size, scope.Resolves .quantum other size) ∧
        scope.Misrefers reference kind := by
  induction references with
  | nil => exact Or.inl (List.forall_mem_nil _)
  | cons argument others ih =>
      obtain hArgument | ⟨kind, hArgument⟩ := scope.resolves_or_misrefers argument
      · obtain hOthers | ⟨front, reference, rest, kind, rfl, hFront, hReference⟩ := ih
        · exact Or.inl (List.forall_mem_cons.mpr ⟨hArgument, hOthers⟩)
        · exact Or.inr ⟨argument :: front, reference, rest, kind, rfl,
            List.forall_mem_cons.mpr ⟨hArgument, hFront⟩, hReference⟩
      · exact Or.inr ⟨[], argument, others, kind, rfl, List.forall_mem_nil _, hArgument⟩

/-! ### All arguments -/

/-- Fewer whole registers agree, too. -/
theorem SizesAgree.mono {expected : Option UInt64} {references all : List RegisterRef}
    (h : scope.SizesAgree expected all) (hSubset : references ⊆ all) :
    scope.SizesAgree expected references := by
  obtain ⟨size, hExpected, hAll⟩ := h
  exact ⟨size, hExpected, fun reference hReference => hAll reference (hSubset hReference)⟩

/-- The first argument that the checker does not pass: it means no element of a quantum register,
or it is a whole register of another size than those in front. -/
def Stops (scope : Scope) (expected : Option UInt64) (references : List RegisterRef)
    (kind : SemanticKind) : Prop :=
  ∃ front reference rest, references = front ++ reference :: rest ∧
    (∀ other ∈ front, ∃ size, scope.Resolves .quantum other size) ∧
    scope.SizesAgree expected front ∧
    (scope.Misrefers reference kind ∨
      kind = .broadcastMismatch ∧ (∃ size, scope.Resolves .quantum reference size) ∧
        ¬ scope.SizesAgree expected (front ++ [reference]))

variable {expected : Option UInt64} {argument : RegisterRef} {others : List RegisterRef}

theorem not_stops_nil : ¬ scope.Stops expected [] kind := by
  rintro ⟨front, reference, rest, hSplit, -⟩
  cases front <;> cases hSplit

/-- Behind an argument that is passed, the checker goes on with the size that it has then. -/
theorem stops_cons {size : UInt64} {next : Option UInt64}
    (h : scope.Resolves .quantum argument size)
    (hNext : ∀ references, scope.SizesAgree expected (argument :: references) ↔
      scope.SizesAgree next references) :
    scope.Stops expected (argument :: others) kind ↔ scope.Stops next others kind := by
  constructor
  · rintro ⟨front, reference, rest, hSplit, hFront, hSizes, hReference⟩
    cases front with
    | nil =>
        obtain ⟨rfl, -⟩ := List.cons.inj hSplit
        obtain hMisrefers | ⟨-, -, hUnequal⟩ := hReference
        · exact absurd hMisrefers h.not_misrefers
        · exact absurd ((hNext []).mpr (sizesAgree_nil next)) hUnequal
    | cons first front =>
        obtain ⟨rfl, hOthers⟩ := List.cons.inj hSplit
        rw [List.cons_append, hNext] at hReference
        rw [hNext] at hSizes
        exact ⟨front, reference, rest, hOthers, (List.forall_mem_cons.mp hFront).2, hSizes,
          hReference⟩
  · rintro ⟨front, reference, rest, rfl, hFront, hSizes, hReference⟩
    rw [← hNext] at hSizes hReference
    exact ⟨argument :: front, reference, rest, rfl, List.forall_mem_cons.mpr ⟨⟨size, h⟩, hFront⟩,
      hSizes, hReference⟩

/-- An argument of another size stops the checker. -/
theorem stops_unequal {size : UInt64} (h : scope.Resolves .quantum argument size)
    (hUnequal : ¬ scope.SizesAgree expected [argument]) :
    scope.Stops expected (argument :: others) kind ↔ kind = .broadcastMismatch := by
  constructor
  · rintro ⟨front, reference, rest, hSplit, hFront, hSizes, hReference⟩
    cases front with
    | nil =>
        obtain ⟨rfl, -⟩ := List.cons.inj hSplit
        exact (hReference.resolve_left h.not_misrefers).1
    | cons first front =>
        obtain ⟨rfl, -⟩ := List.cons.inj hSplit
        exact absurd (hSizes.mono (by simp)) hUnequal
  · rintro rfl
    exact ⟨[], argument, others, rfl, List.forall_mem_nil _, sizesAgree_nil expected,
      Or.inr ⟨rfl, ⟨size, h⟩, hUnequal⟩⟩

/-- An argument that means no element stops the checker. -/
theorem stops_misrefers {found : SemanticKind} (h : scope.Misrefers argument found) :
    scope.Stops expected (argument :: others) kind ↔ scope.Misrefers argument kind := by
  constructor
  · rintro ⟨front, reference, rest, hSplit, hFront, -, hReference⟩
    cases front with
    | nil =>
        obtain ⟨rfl, -⟩ := List.cons.inj hSplit
        refine hReference.resolve_right fun hSize => ?_
        obtain ⟨-, ⟨size, hResolves⟩, -⟩ := hSize
        exact hResolves.not_misrefers h
    | cons first front =>
        obtain ⟨rfl, -⟩ := List.cons.inj hSplit
        obtain ⟨size, hResolves⟩ := hFront _ (List.mem_cons_self ..)
        exact absurd h hResolves.not_misrefers
  · intro hKind
    exact ⟨[], argument, others, rfl, List.forall_mem_nil _, sizesAgree_nil expected,
      Or.inl hKind⟩

/-- **Arguments.**  The checker fails where it stops, and with the kind of what stops it. -/
theorem checkArguments_failsWith {position : Position} {first : Option (String × UInt64)}
    {references : List RegisterRef} :
    FailsWith (scope.checkArguments position first references) kind ↔
      scope.Stops (first.map Prod.snd) references kind := by
  induction references generalizing first with
  | nil =>
      rw [checkArguments]
      exact iff_of_false (not_failsWith_ok ()) not_stops_nil
  | cons argument rest ih =>
      rw [checkArguments, failsWith_bind, checkReference_failsWith]
      obtain ⟨size, hSize⟩ | ⟨found, hFound⟩ := scope.resolves_or_misrefers argument
      · rw [or_iff_right hSize.not_misrefers, checkReference_eq_ok.mpr hSize]
        simp only [Except.ok.injEq, exists_eq_left']
        cases hIndex : argument.index with
        | some index =>
            have hElement : argument.index ≠ none := by simp [hIndex]
            rw [stops_cons hSize fun references => sizesAgree_element hElement]
            exact ih
        | none =>
            cases first with
            | none =>
                rw [stops_cons hSize fun references => by
                  rw [sizesAgree_whole hIndex hSize]
                  exact and_iff_right (by simp)]
                exact ih
            | some entry =>
                obtain ⟨name, other⟩ := entry
                by_cases hSame : other = size
                · subst hSame
                  rw [stops_cons hSize fun references => by
                    rw [sizesAgree_whole hIndex hSize]
                    exact and_iff_right (by simp)]
                  simp only [Option.isSome_none, Bool.false_eq_true, if_false, if_true]
                  exact ih
                · have hUnequal : ¬ scope.SizesAgree (some other) [argument] := by
                    rw [sizesAgree_whole hIndex hSize]
                    exact fun hAgree => hSame (hAgree.1 other rfl)
                  rw [Option.map_some, stops_unequal hSize hUnequal]
                  simp only [Option.isSome_none, Bool.false_eq_true, if_false, hSame]
                  exact failsWith_reject.trans eq_comm
      · have hNever : ∀ size, scope.checkReference .quantum argument ≠ .ok size :=
          fun size hSize => (checkReference_eq_ok.mp hSize).not_misrefers hFound
        rw [stops_misrefers hFound, or_iff_left]
        rintro ⟨size, hSize, -⟩
        exact hNever size hSize

/-! ### The order -/

/-- The first rule in the order that a call breaks, by the kind of its fault. -/
inductive Breaks (scope : Scope) (call : GateCall) : SemanticKind → Prop where
  | gate (hGate : scope.gate? call.name = none) : Breaks scope call .unknownGate
  | counts {signature : GateSignature} (hGate : scope.gate? call.name = some signature)
      (hCounts : ¬ (call.params.length = signature.params ∧
        call.qubits.length = signature.qubits)) : Breaks scope call .arityMismatch
  | parameters (hTakes : scope.Takes call) (hOpen : ¬ ∀ e ∈ call.params, e.names = []) :
      Breaks scope call .unknownParameter
  | argument {front rest : List RegisterRef} {reference : RegisterRef} {kind : SemanticKind}
      (hTakes : scope.Takes call) (hClosed : ∀ e ∈ call.params, e.names = [])
      (hQubits : call.qubits = front ++ reference :: rest)
      (hFront : ∀ other ∈ front, ∃ size, scope.Resolves .quantum other size)
      (hReference : scope.Misrefers reference kind) : Breaks scope call kind
  | sizes (hTakes : scope.Takes call) (hClosed : ∀ e ∈ call.params, e.names = [])
      (hQubits : ∀ reference ∈ call.qubits, ∃ size, scope.Resolves .quantum reference size)
      (hSizes : ¬ scope.SizesAgree none call.qubits) : Breaks scope call .broadcastMismatch
  | overlap (hTakes : scope.Takes call) (hClosed : ∀ e ∈ call.params, e.names = [])
      (hQubits : ∀ reference ∈ call.qubits, ∃ size, scope.Resolves .quantum reference size)
      (hSizes : scope.SizesAgree none call.qubits)
      (hMeets : ¬ call.qubits.Pairwise fun first second => ¬ first.Meets second) :
      Breaks scope call .overlappingArguments

/-- Unequal registers stand in front of the first argument that means no element of a quantum
register. -/
structure Hides (scope : Scope) (call : GateCall) : Prop where
  takes : scope.Takes call
  closed : ∀ e ∈ call.params, e.names = []
  unequal : ∃ front reference rest kind, call.qubits = front ++ reference :: rest ∧
    (∀ other ∈ front, ∃ size, scope.Resolves .quantum other size) ∧
    ¬ scope.SizesAgree none front ∧ scope.Misrefers reference kind

/-! ### Calls -/

theorem checkSignature_failsWith {call : GateCall} :
    FailsWith (scope.checkSignature call) kind ↔
      (kind = .unknownGate ∧ scope.gate? call.name = none) ∨
        (kind = .arityMismatch ∧ ∃ signature, scope.gate? call.name = some signature ∧
          ¬ (call.params.length = signature.params ∧ call.qubits.length = signature.qubits)) := by
  rw [checkSignature]
  cases hGate : scope.gate? call.name with
  | none => simp [failsWith_reject, Violation.kind, eq_comm]
  | some signature =>
      simp only [reduceCtorEq, and_false, false_or, Option.some.injEq, exists_eq_left',
        not_and_or]
      split
      · rename_i hCounts
        rw [failsWith_reject, Violation.kind, eq_comm]
        exact (and_iff_left hCounts).symm
      · rename_i hCounts
        exact iff_of_false (not_failsWith_ok ()) fun hBroken => hCounts hBroken.2

/-- Overlapping arguments are all that is reported by the check for them. -/
theorem kind_of_checkOverlap {earlier references : List RegisterRef}
    (h : FailsWith (checkOverlap earlier references) kind) : kind = .overlappingArguments := by
  induction references generalizing earlier with
  | nil => exact absurd h (not_failsWith_ok ())
  | cons later rest ih =>
      rw [checkOverlap] at h
      split at h
      · exact (failsWith_reject.mp h).symm
      · exact ih h

theorem checkOverlap_failsWith {references : List RegisterRef} :
    FailsWith (checkOverlap [] references) kind ↔ kind = .overlappingArguments ∧
      ¬ references.Pairwise fun first second => ¬ first.Meets second := by
  rw [← checkOverlap_eq_ok_iff_pairwise]
  constructor
  · intro hFails
    refine ⟨kind_of_checkOverlap hFails, fun hPasses => ?_⟩
    rw [hPasses] at hFails
    exact not_failsWith_ok () hFails
  · rintro ⟨rfl, hRefused⟩
    obtain ⟨found, hFound⟩ := exists_failsWith fun value hValue => hRefused hValue
    obtain rfl := kind_of_checkOverlap hFound
    exact hFound

variable {call : GateCall}

/-- A call of another shape fails for its shape. -/
theorem checkCall_failsWith_of_not_takes (hTakes : ¬ scope.Takes call) :
    FailsWith (scope.checkCall call) kind ↔ scope.Breaks call kind := by
  rw [checkCall, failsWith_check, checkSignature_failsWith, checkSignature_eq_ok]
  constructor
  · rintro ((⟨rfl, hGate⟩ | ⟨rfl, signature, hGate, hCounts⟩) | ⟨hOther, -⟩)
    · exact .gate hGate
    · exact .counts hGate hCounts
    · exact absurd hOther hTakes
  · intro hBreaks
    cases hBreaks with
    | gate hGate => exact Or.inl (Or.inl ⟨rfl, hGate⟩)
    | counts hGate hCounts => exact Or.inl (Or.inr ⟨rfl, _, hGate, hCounts⟩)
    | parameters hOther => exact absurd hOther hTakes
    | argument hOther => exact absurd hOther hTakes
    | sizes hOther => exact absurd hOther hTakes
    | overlap hOther => exact absurd hOther hTakes

theorem Takes.gate_ne_none (h : scope.Takes call) : scope.gate? call.name ≠ none := by
  obtain ⟨signature, hGate, -⟩ := h
  simp [hGate]

theorem Takes.counts (h : scope.Takes call) {signature : GateSignature}
    (hGate : scope.gate? call.name = some signature) :
    call.params.length = signature.params ∧ call.qubits.length = signature.qubits := by
  obtain ⟨found, hFound, hCounts⟩ := h
  obtain rfl := Option.some.inj (hGate.symm.trans hFound)
  exact hCounts

/-- A call of the right shape with an identifier fails for the identifier. -/
theorem checkCall_failsWith_of_open (hTakes : scope.Takes call)
    (hOpen : ¬ ∀ e ∈ call.params, e.names = []) :
    FailsWith (scope.checkCall call) kind ↔ scope.Breaks call kind := by
  rw [checkCall, failsWith_check, checkSignature_eq_ok.mpr hTakes,
    or_iff_right (not_failsWith_ok ()), and_iff_right rfl]
  rw [← head?_identifiers_eq_none] at hOpen
  obtain ⟨name, hName⟩ := Option.ne_none_iff_exists'.mp hOpen
  rw [head?_identifiers_eq_none] at hOpen
  rw [hName, failsWith_reject, Violation.kind]
  constructor
  · rintro rfl
    exact .parameters hTakes hOpen
  · intro hBreaks
    cases hBreaks with
    | gate hGate => exact absurd hGate hTakes.gate_ne_none
    | counts hGate hCounts => exact absurd (hTakes.counts hGate) hCounts
    | parameters => rfl
    | argument _ hClosed => exact absurd hClosed hOpen
    | sizes _ hClosed => exact absurd hClosed hOpen
    | overlap _ hClosed => exact absurd hClosed hOpen

/-- A call of the right shape without identifiers fails where its arguments stop the checker, or
where they overlap. -/
theorem checkCall_failsWith_of_closed (hTakes : scope.Takes call)
    (hClosed : ∀ e ∈ call.params, e.names = []) :
    FailsWith (scope.checkCall call) kind ↔ scope.Stops none call.qubits kind ∨
      ((∀ reference ∈ call.qubits, ∃ size, scope.Resolves .quantum reference size) ∧
        scope.SizesAgree none call.qubits) ∧ kind = .overlappingArguments ∧
        ¬ call.qubits.Pairwise fun first second => ¬ first.Meets second := by
  rw [checkCall, failsWith_check, checkSignature_eq_ok.mpr hTakes,
    or_iff_right (not_failsWith_ok ()), and_iff_right rfl,
    head?_identifiers_eq_none.mpr hClosed, failsWith_check, checkArguments_failsWith,
    checkArguments_eq_ok, checkOverlap_failsWith]
  rfl

/-- Unequal registers stop the checker, whatever stands behind them. -/
theorem stops_of_unequal {front : List RegisterRef}
    (hFront : ∀ reference ∈ front, ∃ size, scope.Resolves .quantum reference size)
    (hUnequal : ¬ scope.SizesAgree none front) (back : List RegisterRef) :
    scope.Stops none (front ++ back) .broadcastMismatch := by
  have hRefused : ∀ value, scope.checkArguments .start none front ≠ .ok value :=
    fun _ hPasses => hUnequal (checkArguments_eq_ok.mp hPasses).2
  obtain ⟨kind, hFails⟩ := exists_failsWith hRefused
  obtain ⟨before, reference, rest, rfl, hBefore, hSizes, hReference⟩ :=
    checkArguments_failsWith.mp hFails
  obtain ⟨size, hSize⟩ := hFront reference (by simp)
  obtain ⟨rfl, hStops⟩ := hReference.resolve_left hSize.not_misrefers
  exact ⟨before, reference, rest ++ back, by simp, hBefore, hSizes, Or.inr ⟨rfl, hStops⟩⟩

/-- Where nothing is hidden, the checker stops at what the call breaks first. -/
theorem stops_iff_of_not_hides (hTakes : scope.Takes call)
    (hClosed : ∀ e ∈ call.params, e.names = []) (hShown : ¬ scope.Hides call) :
    scope.Stops none call.qubits kind ↔
      (∃ front reference rest, call.qubits = front ++ reference :: rest ∧
        (∀ other ∈ front, ∃ size, scope.Resolves .quantum other size) ∧
        scope.Misrefers reference kind) ∨
      kind = .broadcastMismatch ∧
        (∀ reference ∈ call.qubits, ∃ size, scope.Resolves .quantum reference size) ∧
        ¬ scope.SizesAgree none call.qubits := by
  constructor
  · rintro ⟨front, reference, rest, hQubits, hFront, hSizes, hMisrefers | hMismatch⟩
    · exact Or.inl ⟨front, reference, rest, hQubits, hFront, hMisrefers⟩
    obtain ⟨rfl, hReference, hUnequal⟩ := hMismatch
    have hPassed : ∀ other ∈ front ++ [reference],
        ∃ size, scope.Resolves .quantum other size :=
      List.forall_mem_append.mpr ⟨hFront, List.forall_mem_singleton.mpr hReference⟩
    have hSplit : call.qubits = (front ++ [reference]) ++ rest := by simp [hQubits]
    obtain hRest | ⟨between, bad, behind, found, rfl, hBetween, hBad⟩ :=
      scope.resolve_or_first_misrefers rest
    · refine Or.inr ⟨rfl, ?_, fun hAgree => hUnequal (hAgree.mono ?_)⟩
      · rw [hSplit]
        exact List.forall_mem_append.mpr ⟨hPassed, hRest⟩
      · rw [hSplit]
        exact List.subset_append_left _ _
    · -- the unequal registers would hide the argument behind them
      refine absurd ⟨hTakes, hClosed, (front ++ [reference]) ++ between, bad, behind, found, ?_,
        List.forall_mem_append.mpr ⟨hPassed, hBetween⟩, fun hAgree => hUnequal ?_, hBad⟩ hShown
      · rw [hSplit, List.append_assoc _ between]
      · exact hAgree.mono (List.subset_append_left _ _)
  · rintro (⟨front, reference, rest, hQubits, hFront, hMisrefers⟩ | ⟨rfl, hAll, hUnequal⟩)
    · have hSizes : scope.SizesAgree none front := by
        by_contra hUnequal
        exact hShown ⟨hTakes, hClosed, front, reference, rest, kind, hQubits, hFront, hUnequal,
          hMisrefers⟩
      exact ⟨front, reference, rest, hQubits, hFront, hSizes, Or.inl hMisrefers⟩
    · have hStops := stops_of_unequal hAll hUnequal []
      rwa [List.append_nil] at hStops

/-- **The order of the rules.**  A call fails for the first rule in the order that it breaks.  Only
where unequal registers stand in front of an argument that means no element, the registers are
reported in place of the argument. -/
theorem checkCall_failsWith (scope : Scope) (call : GateCall) :
    (¬ scope.Hides call →
      ∀ kind, FailsWith (scope.checkCall call) kind ↔ scope.Breaks call kind) ∧
    (scope.Hides call → FailsWith (scope.checkCall call) .broadcastMismatch ∧
      ∃ kind ≠ .broadcastMismatch, scope.Breaks call kind) := by
  constructor
  · intro hShown kind
    by_cases hTakes : scope.Takes call
    · by_cases hClosed : ∀ e ∈ call.params, e.names = []
      · rw [checkCall_failsWith_of_closed hTakes hClosed,
          stops_iff_of_not_hides hTakes hClosed hShown]
        constructor
        · rintro ((⟨front, reference, rest, hQubits, hFront, hMisrefers⟩ | ⟨rfl, hAll, hSizes⟩) |
            ⟨⟨hAll, hSizes⟩, rfl, hMeets⟩)
          · exact .argument hTakes hClosed hQubits hFront hMisrefers
          · exact .sizes hTakes hClosed hAll hSizes
          · exact .overlap hTakes hClosed hAll hSizes hMeets
        · intro hBreaks
          cases hBreaks with
          | gate hGate => exact absurd hGate hTakes.gate_ne_none
          | counts hGate hCounts => exact absurd (hTakes.counts hGate) hCounts
          | parameters _ hOpen => exact absurd hClosed hOpen
          | argument _ _ hQubits hFront hMisrefers =>
              exact Or.inl (Or.inl ⟨_, _, _, hQubits, hFront, hMisrefers⟩)
          | sizes _ _ hAll hSizes => exact Or.inl (Or.inr ⟨rfl, hAll, hSizes⟩)
          | overlap _ _ hAll hSizes hMeets => exact Or.inr ⟨⟨hAll, hSizes⟩, rfl, hMeets⟩
      · exact checkCall_failsWith_of_open hTakes hClosed
    · exact checkCall_failsWith_of_not_takes hTakes
  · rintro ⟨hTakes, hClosed, front, reference, rest, kind, hQubits, hFront, hUnequal, hMisrefers⟩
    constructor
    · rw [checkCall_failsWith_of_closed hTakes hClosed, hQubits]
      exact Or.inl (stops_of_unequal hFront hUnequal _)
    · refine ⟨kind, ?_, .argument hTakes hClosed hQubits hFront hMisrefers⟩
      rintro rfl
      cases hMisrefers

/-- A scope with an opaque gate on three qubits, and registers of two and of three qubits. -/
def unequalRegisters : Scope :=
  ⟨none, ⟨[("g", ⟨0, 3, true⟩)], [("b", ⟨.quantum, 3⟩), ("a", ⟨.quantum, 2⟩)]⟩⟩

/-- The call `g a, b, r[0];`, where `r` is not declared. -/
def unequalThenUnknown : GateCall :=
  ⟨"g", [], [.whole "a", .whole "b", .element "r" 0], .start⟩

/-- The last argument means nothing, and the registers in front of it are reported. -/
theorem checkCall_unequalThenUnknown :
    unequalRegisters.Breaks unequalThenUnknown .unknownRegister ∧
      unequalRegisters.checkCall unequalThenUnknown =
        .error ⟨.unequalSizes "a" 2 "b" 3, .start⟩ ∧
      ¬ ∀ (scope : Scope) (call : GateCall) (kind : SemanticKind),
        scope.Breaks call kind → FailsWith (scope.checkCall call) kind := by
  have hTakes : unequalRegisters.Takes unequalThenUnknown := ⟨⟨0, 3, true⟩, rfl, rfl, rfl⟩
  have hFront : ∀ other ∈ [RegisterRef.whole "a", .whole "b"],
      ∃ size, unequalRegisters.Resolves .quantum other size := by
    rw [List.forall_mem_cons, List.forall_mem_singleton]
    exact ⟨⟨2, rfl, nofun⟩, ⟨3, rfl, nofun⟩⟩
  have hBreaks : unequalRegisters.Breaks unequalThenUnknown .unknownRegister :=
    .argument hTakes (List.forall_mem_nil _) rfl hFront (.unknown rfl)
  have hFault : unequalRegisters.checkCall unequalThenUnknown =
      .error ⟨.unequalSizes "a" 2 "b" 3, .start⟩ := rfl
  refine ⟨hBreaks, hFault, fun hOrder => ?_⟩
  obtain ⟨fault, hFound, hKind⟩ := hOrder _ _ _ hBreaks
  rw [hFault] at hFound
  cases hFound
  cases hKind

end Scope
end QuantumCircuit
