import QuantumCircuit.Proofs.Validity.Check

/-!
# Broadcast calls

A call on whole registers stands for as many applications as the registers have qubits: in the
application of number `k` a whole register is its qubit `k`.  The checker looks at the arguments
as they are written, once, whatever the size of the registers is.

* `Scope.Spans.meets_iff` : arguments meet exactly if they are one qubit in some application.
* `Scope.checkCall_broadcast` : the checker is right about all applications.
-/

namespace QuantumCircuit

/-- The qubit that a reference means in the application of a number. -/
def RegisterRef.qubit (number : UInt64) (reference : RegisterRef) : String × UInt64 :=
  (reference.register, reference.index.getD number)

namespace Scope

/-- The references are about quantum registers that are not empty, the whole registers among them
have `count` qubits each, and `count` is one if there are none. -/
structure Spans (scope : Scope) (references : List RegisterRef) (count : UInt64) : Prop where
  declared : ∀ reference ∈ references, ∃ size, 1 ≤ size ∧
    scope.register? reference.register = some ⟨.quantum, size⟩
  whole : ∀ reference ∈ references, reference.index = none →
    scope.register? reference.register = some ⟨.quantum, count⟩
  single : (∀ reference ∈ references, reference.index ≠ none) → count = 1

/-- A visible quantum register has the qubit. -/
def HasQubit (scope : Scope) (qubit : String × UInt64) : Prop :=
  ∃ size, scope.register? qubit.1 = some ⟨.quantum, size⟩ ∧ qubit.2 < size

variable {scope : Scope} {references : List RegisterRef} {count : UInt64}

namespace Spans

variable (h : scope.Spans references count)

include h

/-- There is an application. -/
theorem pos : 0 < count := by
  by_cases hElements : ∀ reference ∈ references, reference.index ≠ none
  · rw [h.single hElements]
    decide
  · push Not at hElements
    obtain ⟨reference, hReference, hWhole⟩ := hElements
    obtain ⟨size, hSize, hRegister⟩ := h.declared reference hReference
    have hSame := (h.whole reference hReference hWhole).symm.trans hRegister
    obtain rfl : count = size := by
      cases hSame
      rfl
    exact UInt64.lt_of_lt_of_le (by decide) hSize

/-- An element of a whole register has the number of an application. -/
theorem index_lt {whole element : RegisterRef} (hWhole : whole ∈ references)
    (hIndex : whole.index = none) (hRegister : whole.register = element.register)
    {size index : UInt64} (hSize : scope.Resolves .quantum element size)
    (hElement : element.index = some index) : index < count := by
  have hCount := h.whole whole hWhole hIndex
  rw [hRegister, hSize.register] at hCount
  cases hCount
  exact hSize.range index hElement

/-- **Meeting.**  Arguments meet exactly if they are the same qubit in some application. -/
theorem meets_iff {first second : RegisterRef} (hFirst : first ∈ references)
    (hSecond : second ∈ references) (hFirstSize : ∃ size, scope.Resolves .quantum first size)
    (hSecondSize : ∃ size, scope.Resolves .quantum second size) :
    first.Meets second ↔ ∃ number < count, first.qubit number = second.qubit number := by
  obtain ⟨firstSize, hFirstSize⟩ := hFirstSize
  obtain ⟨secondSize, hSecondSize⟩ := hSecondSize
  constructor
  · rintro ⟨hRegister, element, hFirstMeans, hSecondMeans⟩
    cases hFirstIndex : first.index with
    | none =>
        cases hSecondIndex : second.index with
        | none =>
            exact ⟨0, h.pos, by simp [RegisterRef.qubit, hRegister, hFirstIndex, hSecondIndex]⟩
        | some index =>
            exact ⟨index, h.index_lt hFirst hFirstIndex hRegister hSecondSize hSecondIndex,
              by simp [RegisterRef.qubit, hRegister, hFirstIndex, hSecondIndex]⟩
    | some index =>
        obtain rfl := hFirstMeans index hFirstIndex
        cases hSecondIndex : second.index with
        | none =>
            exact ⟨index, h.index_lt hSecond hSecondIndex hRegister.symm hFirstSize hFirstIndex,
              by simp [RegisterRef.qubit, hRegister, hFirstIndex, hSecondIndex]⟩
        | some other =>
            obtain rfl := hSecondMeans other hSecondIndex
            exact ⟨0, h.pos, by simp [RegisterRef.qubit, hRegister, hFirstIndex, hSecondIndex]⟩
  · rintro ⟨number, -, hQubit⟩
    obtain ⟨hRegister, hElement⟩ := Prod.mk.inj hQubit
    refine ⟨hRegister, first.index.getD number, ?_, ?_⟩
    · intro index hIndex
      rw [hIndex, Option.getD_some]
    · intro index hIndex
      rw [hElement, hIndex, Option.getD_some]

/-- No arguments meet exactly if every application is on different qubits. -/
theorem apart_iff
    (hResolve : ∀ reference ∈ references, ∃ size, scope.Resolves .quantum reference size) :
    (references.Pairwise fun first second => ¬ first.Meets second) ↔
      ∀ number < count, (references.map (RegisterRef.qubit number)).Nodup := by
  have hMeets : (references.Pairwise fun first second => ¬ first.Meets second) ↔
      references.Pairwise fun first second =>
        ∀ number < count, first.qubit number ≠ second.qubit number := by
    apply List.Pairwise.iff_of_mem
    intro first second hFirst hSecond
    rw [h.meets_iff hFirst hSecond (hResolve first hFirst) (hResolve second hSecond)]
    push Not
    rfl
  simp only [hMeets, List.Nodup, List.pairwise_map]
  simp only [List.pairwise_iff_getElem]
  constructor
  · exact fun hApart number hNumber i j hi hj hij => hApart i j hi hj hij number hNumber
  · exact fun hApart i j hi hj hij number hNumber => hApart number hNumber i j hi hj hij

/-- The arguments are good one by one exactly if every application is on qubits that exist. -/
theorem resolve_iff :
    (∀ reference ∈ references, ∃ size, scope.Resolves .quantum reference size) ↔
      ∀ number < count, ∀ qubit ∈ references.map (RegisterRef.qubit number),
        scope.HasQubit qubit := by
  simp only [List.forall_mem_map]
  constructor
  · intro hResolve number hNumber reference hReference
    obtain ⟨size, hRegister, hRange⟩ := hResolve reference hReference
    cases hIndex : reference.index with
    | none =>
        exact ⟨count, h.whole reference hReference hIndex,
          by simpa [RegisterRef.qubit, hIndex] using hNumber⟩
    | some index =>
        exact ⟨size, hRegister, by simpa [RegisterRef.qubit, hIndex] using hRange index hIndex⟩
  · intro hQubits reference hReference
    obtain ⟨size, hRegister, hRange⟩ := hQubits 0 h.pos reference hReference
    refine ⟨size, hRegister, fun index hIndex => ?_⟩
    simpa [RegisterRef.qubit, hIndex] using hRange

/-- The whole registers have one size. -/
theorem sizesAgree : scope.SizesAgree none references := by
  refine ⟨count, by simp, fun reference hReference hIndex => ?_⟩
  exact ⟨h.whole reference hReference hIndex, fun index hElement => by simp [hIndex] at hElement⟩

end Spans

/-- **Broadcast.**  Arguments that are good one by one do not overlap exactly if every application
is on different qubits, and a call passes exactly if its gate takes it, its parameters hold no
identifiers, and every application is on different qubits that exist. -/
theorem checkCall_broadcast (h : scope.Spans references count) :
    ((∀ reference ∈ references, ∃ size, scope.Resolves .quantum reference size) →
      (checkOverlap [] references = .ok () ↔
        ∀ number < count, (references.map (RegisterRef.qubit number)).Nodup)) ∧
    ∀ call : GateCall, call.qubits = references →
      (scope.checkCall call = .ok () ↔
        scope.Takes call ∧ (∀ e ∈ call.params, e.names = []) ∧
          ∀ number < count, (references.map (RegisterRef.qubit number)).Nodup ∧
            ∀ qubit ∈ references.map (RegisterRef.qubit number), scope.HasQubit qubit) := by
  constructor
  · intro hResolve
    rw [checkOverlap_eq_ok_iff_pairwise, h.apart_iff hResolve]
  · rintro call rfl
    rw [checkCall_eq_ok, h.resolve_iff]
    apply and_congr_right
    intro _
    apply and_congr_right
    intro _
    constructor
    · rintro ⟨hQubits, -, hApart⟩ number hNumber
      rw [h.apart_iff (h.resolve_iff.mpr hQubits)] at hApart
      exact ⟨hApart number hNumber, hQubits number hNumber⟩
    · intro hApplications
      have hQubits := fun number hNumber => (hApplications number hNumber).2
      rw [h.apart_iff (h.resolve_iff.mpr hQubits)]
      exact ⟨hQubits, h.sizesAgree, fun number hNumber => (hApplications number hNumber).1⟩

/-- A scope with an opaque gate on two qubits, and registers of two and of three qubits. -/
def twoRegisters : Scope :=
  ⟨none, ⟨[("pair", ⟨0, 2, true⟩)], [("b", ⟨.quantum, 3⟩), ("a", ⟨.quantum, 2⟩)]⟩⟩

/-- The call `pair a, b[2];` stands for two applications. -/
def wholeAndElement : GateCall :=
  ⟨"pair", [], [.whole "a", .element "b" 2], .start⟩

theorem checkCall_broadcast_wholeAndElement :
    twoRegisters.Spans wholeAndElement.qubits 2 ∧
      twoRegisters.checkCall wholeAndElement = .ok () := by
  have hSpans : twoRegisters.Spans wholeAndElement.qubits 2 := by
    constructor
    · rw [wholeAndElement, List.forall_mem_cons, List.forall_mem_singleton]
      exact ⟨⟨2, by decide, rfl⟩, ⟨3, by decide, rfl⟩⟩
    · rw [wholeAndElement, List.forall_mem_cons, List.forall_mem_singleton]
      exact ⟨fun _ => rfl, nofun⟩
    · intro hElements
      exact absurd rfl (hElements (.whole "a") (List.mem_cons_self ..))
  have hTakes : twoRegisters.Takes wholeAndElement := ⟨⟨0, 2, true⟩, rfl, rfl, rfl⟩
  refine ⟨hSpans, ((checkCall_broadcast hSpans).2 wholeAndElement rfl).mpr
    ⟨hTakes, List.forall_mem_nil _, fun number hNumber => ⟨?_, ?_⟩⟩⟩
  · simp [wholeAndElement, RegisterRef.qubit, RegisterRef.whole, RegisterRef.element]
  · rw [wholeAndElement, List.map_cons, List.forall_mem_cons, List.map_singleton,
      List.forall_mem_singleton]
    exact ⟨⟨2, rfl, hNumber⟩, ⟨3, rfl, show (2 : UInt64) < 3 by decide⟩⟩

end Scope
end QuantumCircuit
