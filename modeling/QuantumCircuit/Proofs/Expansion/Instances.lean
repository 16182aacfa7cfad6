import Mathlib.Data.List.Forall2
import Mathlib.Data.List.Pairwise
import QuantumCircuit.Proofs.Evaluation
import QuantumCircuit.Proofs.Expansion.Application
import QuantumCircuit.Proofs.Validity.Check

/-!
# The calls of a body for one application

A call is instantiated by evaluating its parameters and by placing its arguments.  When its
identifiers are bound and its arguments can be placed, it only fails by a division by zero; and
arguments that are different formal qubits are placed apart, if those of the application are
apart.

* `GateHeader.substitute_apart` : placing keeps arguments apart.
* `GateCall.instantiate_eq_ok`, `GateCall.instantiate_error` : what instantiating a call gives.
-/

namespace QuantumCircuit

variable {α : Type}

/-! ### Values -/

theorem Bindings.bind_isBound {bindings : Bindings α} {name other : String} {value : α}
    (h : name = other ∨ ∃ found, bindings name = some found) :
    ∃ found, bindings.bind other value name = some found := by
  rw [Bindings.bind]
  by_cases hName : name = other
  · exact ⟨value, if_pos hName⟩
  · obtain ⟨found, hFound⟩ := h.resolve_left hName
    exact ⟨found, by rw [if_neg hName, hFound]⟩

/-- The bindings of a list of pairs bind each of their names. -/
theorem Bindings.ofList_isBound {pairs : List (String × α)} {name : String}
    (h : name ∈ pairs.map Prod.fst) : ∃ value, Bindings.ofList pairs name = some value := by
  -- the fold starts with no bindings, but its steps have those of the pairs in front
  have hFold : ∀ bindings : Bindings α,
      (name ∈ pairs.map Prod.fst ∨ ∃ value, bindings name = some value) →
        ∃ value, pairs.foldl (fun found pair => Bindings.bind found pair.1 pair.2) bindings name =
          some value := by
    clear h
    induction pairs with
    | nil =>
        intro bindings hBound
        simpa using hBound
    | cons pair rest ih =>
        intro bindings hBound
        rw [List.map_cons, List.mem_cons] at hBound
        rw [List.foldl_cons]
        refine ih _ ?_
        rcases hBound with (hHere | hRest) | hBefore
        · exact .inr (Bindings.bind_isBound (.inl hHere))
        · exact .inl hRest
        · exact .inr (Bindings.bind_isBound (.inr hBefore))
  exact hFold .empty (.inl h)

/-- Every formal parameter is bound when there is a value for each of them. -/
theorem GateHeader.bindings_isBound {header : GateHeader} {values : List α}
    (hCount : values.length = header.params.length) {name : String}
    (h : name ∈ header.params) : ∃ value, header.bindings values name = some value := by
  refine Bindings.ofList_isBound ?_
  rwa [List.map_fst_zip (by omega)]

/-! ### Qubits -/

/-- References that share no element with each other. -/
def Apart (references : List RegisterRef) : Prop :=
  references.Pairwise fun first second => ¬ first.Meets second

theorem checkOverlap_nil_eq_ok {references : List RegisterRef} :
    checkOverlap [] references = .ok () ↔ Apart references :=
  checkOverlap_eq_ok_iff_pairwise

theorem GateHeader.substitute_eq_ok {header : GateHeader} {qubits : List RegisterRef}
    {reference argument : RegisterRef} :
    header.substitute qubits reference = .ok argument ↔
      reference.index = none ∧
        (header.qubits.zip qubits).lookup reference.register = some argument := by
  rw [GateHeader.substitute]
  cases reference.index <;>
    cases (header.qubits.zip qubits).lookup reference.register <;> simp

/-- There is an argument for each formal qubit. -/
theorem GateHeader.exists_substitute {header : GateHeader} {qubits : List RegisterRef}
    (hCount : qubits.length = header.qubits.length) {reference : RegisterRef}
    (hFormal : reference.index = none ∧ reference.register ∈ header.qubits) :
    ∃ argument, header.substitute qubits reference = .ok argument := by
  obtain ⟨hWhole, hMember⟩ := hFormal
  have hKey : reference.register ∈ (header.qubits.zip qubits).map Prod.fst := by
    rwa [List.map_fst_zip (by omega)]
  have hSome : ((header.qubits.zip qubits).lookup reference.register).isSome := by
    rw [List.lookup_isSome_iff]
    obtain ⟨pair, hPair, hFirst⟩ := List.mem_map.mp hKey
    exact ⟨pair, hPair, by rw [hFirst]; exact beq_self_eq_true _⟩
  obtain ⟨argument, hArgument⟩ := Option.isSome_iff_exists.mp hSome
  exact ⟨argument, GateHeader.substitute_eq_ok.mpr ⟨hWhole, hArgument⟩⟩

/-- Different formal qubits are replaced by arguments that share no element. -/
theorem GateHeader.substitute_apart {header : GateHeader} {qubits : List RegisterRef}
    (hCount : qubits.length = header.qubits.length) (hFormals : header.qubits.Nodup)
    (hApart : Apart qubits) {first second firstArgument secondArgument : RegisterRef}
    (hDifferent : first.register ≠ second.register)
    (hFirst : header.substitute qubits first = .ok firstArgument)
    (hSecond : header.substitute qubits second = .ok secondArgument) :
    ¬ firstArgument.Meets secondArgument := by
  have hNames : ((header.qubits.zip qubits).map Prod.fst).Nodup := by
    rwa [List.map_fst_zip (by omega)]
  have hPairs : (header.qubits.zip qubits).Pairwise fun a b => ¬ a.2.Meets b.2 := by
    have hArguments : (header.qubits.zip qubits).map Prod.snd = qubits :=
      List.map_snd_zip (by omega)
    have hMapped : ((header.qubits.zip qubits).map Prod.snd).Pairwise
        fun first second => ¬ first.Meets second := by
      rw [hArguments]
      exact hApart
    exact List.pairwise_map.mp hMapped
  have hSymmetric : Std.Symm fun a b : String × RegisterRef => ¬ a.2.Meets b.2 :=
    ⟨fun a b hNot hMeets => hNot hMeets.symm⟩
  have hFirstPair := (lookup_eq_some_iff_mem hNames).mp (GateHeader.substitute_eq_ok.mp hFirst).2
  have hSecondPair :=
    (lookup_eq_some_iff_mem hNames).mp (GateHeader.substitute_eq_ok.mp hSecond).2
  refine hPairs.forall hFirstPair hSecondPair fun hSame => ?_
  exact hDifferent (congrArg Prod.fst hSame)

/-! ### Lists of answers -/

theorem mapM_eq_ok {ε β γ : Type} {f : β → Except ε γ} {items : List β} {values : List γ} :
    items.mapM f = .ok values ↔
      List.Forall₂ (fun item value => f item = .ok value) items values := by
  induction items generalizing values with
  | nil => rw [List.mapM_nil, except_pure_eq_ok, List.forall₂_nil_left_iff]
  | cons item rest ih =>
      simp only [List.mapM_cons, except_bind_eq_ok, except_pure_eq_ok, ih,
        List.forall₂_cons_left_iff]
      constructor
      · rintro ⟨value, hValue, others, hOthers, rfl⟩
        exact ⟨value, others, hValue, hOthers, rfl⟩
      · rintro ⟨value, others, hValue, hOthers, rfl⟩
        exact ⟨value, hValue, others, hOthers, rfl⟩

theorem exists_of_mapM_eq_ok {ε β γ : Type} {f : β → Except ε γ} {items : List β}
    {values : List γ} (h : items.mapM f = .ok values) {value : γ} (hValue : value ∈ values) :
    ∃ item ∈ items, f item = .ok value := by
  rw [mapM_eq_ok] at h
  obtain ⟨place, rfl⟩ := List.mem_iff_get.mp hValue
  have hPlace : place.1 < items.length := by
    rw [h.length_eq]
    exact place.2
  exact ⟨_, List.get_mem items ⟨place.1, hPlace⟩, h.get hPlace place.2⟩

theorem mapM_eq_error {ε β γ : Type} {f : β → Except ε γ} {items : List β} {fault : ε}
    (h : items.mapM f = .error fault) : ∃ item ∈ items, f item = .error fault := by
  induction items with
  | nil => cases h
  | cons item rest ih =>
      rw [List.mapM_cons, except_bind_eq_error] at h
      rcases h with hItem | ⟨value, -, hRest⟩
      · exact ⟨item, List.mem_cons_self, hItem⟩
      · rw [except_bind_eq_error] at hRest
        rcases hRest with hRest | ⟨others, -, hPure⟩
        · obtain ⟨found, hFound, hFault⟩ := ih hRest
          exact ⟨found, List.mem_cons_of_mem _ hFound, hFault⟩
        · cases hPure

/-- A relation among items becomes one among their values. -/
theorem forall₂_pairwise {β γ : Type} {R : β → γ → Prop} {P : β → β → Prop} {Q : γ → γ → Prop}
    (hKeep : ∀ {a b c d}, P a b → R a c → R b d → Q c d) {items : List β} {values : List γ}
    (h : List.Forall₂ R items values) (hItems : items.Pairwise P) : values.Pairwise Q := by
  have hLength := h.length_eq
  rw [List.pairwise_iff_get] at hItems ⊢
  intro i j hOrder
  have hFirst : i.1 < items.length := by omega
  have hSecond : j.1 < items.length := by omega
  exact hKeep (hItems ⟨i.1, hFirst⟩ ⟨j.1, hSecond⟩ hOrder) (h.get hFirst i.2)
    (h.get hSecond j.2)

/-! ### Calls -/

/-- What a call is instantiated to. -/
theorem GateCall.instantiate_eq_ok {call : GateCall} {arithmetic : Arithmetic α}
    {bindings : Bindings α} {place : RegisterRef → Except ExpansionFault RegisterRef}
    {application : Application α}
    (h : call.instantiate arithmetic bindings place = .ok application) :
    application.name = call.name ∧ application.values.length = call.params.length ∧
      List.Forall₂ (fun reference argument => place reference = .ok argument) call.qubits
        application.qubits := by
  rw [GateCall.instantiate, except_bind_eq_ok] at h
  obtain ⟨values, hValues, hRest⟩ := h
  rw [except_bind_eq_ok] at hRest
  obtain ⟨qubits, hQubits, hPure⟩ := hRest
  rw [except_pure_eq_ok] at hPure
  subst hPure
  exact ⟨rfl, (mapM_eq_ok.mp hValues).length_eq.symm, mapM_eq_ok.mp hQubits⟩

/-- A call with bound identifiers and with arguments that can be placed only fails by a
division by zero. -/
theorem GateCall.instantiate_error {call : GateCall} {arithmetic : Arithmetic α}
    {bindings : Bindings α} {place : RegisterRef → Except ExpansionFault RegisterRef}
    (hBound : ∀ e ∈ call.params, ∀ name ∈ e.names, ∃ value, bindings name = some value)
    (hPlace : ∀ reference ∈ call.qubits, ∃ argument, place reference = .ok argument)
    {fault : ExpansionFault} (h : call.instantiate arithmetic bindings place = .error fault) :
    fault.IsDivision := by
  rw [GateCall.instantiate, except_bind_eq_error] at h
  rcases h with hValues | ⟨values, -, hRest⟩
  · obtain ⟨e, he, hValue⟩ := mapM_eq_error hValues
    cases hEvaluate : arithmetic.evaluate bindings e with
    | ok value =>
        rw [hEvaluate] at hValue
        cases hValue
    | error error =>
        rw [hEvaluate] at hValue
        cases hValue
        rw [ExpansionFault.IsDivision, arithmetic.evaluate_error (hBound e he) hEvaluate]
  · rw [except_bind_eq_error] at hRest
    rcases hRest with hQubits | ⟨qubits, -, hPure⟩
    · obtain ⟨reference, hReference, hFault⟩ := mapM_eq_error hQubits
      obtain ⟨argument, hArgument⟩ := hPlace reference hReference
      rw [hArgument] at hFault
      cases hFault
    · cases hPure

/-! ### Calls in a body -/

/-- There is a value for each formal parameter and an argument for each formal qubit. -/
structure GateHeader.Fits (header : GateHeader) (application : Application α) : Prop where
  values : application.values.length = header.params.length
  qubits : application.qubits.length = header.qubits.length
  apart : Apart application.qubits

section

variable {context : Context} {header : GateHeader} {call : GateCall}
  {application found : Application α} {arithmetic : Arithmetic α}

/-- A lawful call in a body only fails by a division by zero. -/
theorem GateCall.LawfulWithin.instantiate_error (h : call.LawfulWithin context header)
    (hFits : header.Fits application) {fault : ExpansionFault}
    (hFault : call.instantiate arithmetic (header.bindings application.values)
      (header.substitute application.qubits) = .error fault) : fault.IsDivision := by
  refine GateCall.instantiate_error ?_ ?_ hFault
  · intro e he name hName
    exact GateHeader.bindings_isBound hFits.values (h.closed e he name hName)
  · intro reference hReference
    exact GateHeader.exists_substitute hFits.qubits (h.formal reference hReference)

/-- A lawful call in a body has arguments that share no element. -/
theorem GateCall.LawfulWithin.instantiate_apart (h : call.LawfulWithin context header)
    (hHeader : header.Lawful) (hFits : header.Fits application)
    (hFound : call.instantiate arithmetic (header.bindings application.values)
      (header.substitute application.qubits) = .ok found) : Apart found.qubits := by
  obtain ⟨-, -, hQubits⟩ := GateCall.instantiate_eq_ok hFound
  have hFormals : header.qubits.Nodup := List.Nodup.of_append_right hHeader
  have hDifferent : call.qubits.Pairwise fun first second =>
      first.register ≠ second.register := List.pairwise_map.mp h.apart
  refine forall₂_pairwise ?_ hQubits hDifferent
  intro first second firstArgument secondArgument hNames hFirst hSecond
  exact GateHeader.substitute_apart hFits.qubits hFormals hFits.apart hNames hFirst hSecond

end

end QuantumCircuit
