import QuantumCircuit.Proofs.Program.Alike
import QuantumCircuit.Validity.Check

/-!
# Checks do not look at places

No check of a program decides anything by a place.  Programs that differ in their places only are
both valid, with the same symbols, or break the same rule for the same reason at related places.

* `Fault.AlikeAt` : faults that are reported with the same words.
* `Scope.check_alike` : one statement.
* `Program.check_alike` : a whole program.
-/

namespace QuantumCircuit

variable (Related : Position → Position → Prop)

/-- Faults with the same report at related places. -/
structure Fault.AlikeAt (first second : Fault) : Prop where
  kind : first.violation.kind = second.violation.kind
  detail : first.violation.detail = second.violation.detail
  position : Related first.position second.position

/-- Answers of checks that differ in their places only. -/
abbrev AlikeAnswers {α : Type} : Except Fault α → Except Fault α → Prop :=
  Agreement (Fault.AlikeAt Related) Eq

variable {Related}

theorem Fault.AlikeAt.report {first second : Fault} (h : first.AlikeAt Related second) :
    first.report.AlikeAt Related second.report :=
  ⟨h.kind, h.detail, h.position⟩

theorem reject_alike {α : Type} (violation : Violation) {place other : Position}
    (h : Related place other) :
    AlikeAnswers Related (reject violation place : Except Fault α) (reject violation other) :=
  .error ⟨rfl, rfl, h⟩

/-- Checks one behind the other. -/
theorem check_bind_alike {α β : Type} {first second : Except Fault α}
    {next onward : α → Except Fault β} (h : AlikeAnswers Related first second)
    (hNext : ∀ value, AlikeAnswers Related (next value) (onward value)) :
    AlikeAnswers Related (first >>= next) (second >>= onward) :=
  Agreement.bind h fun value _ _ hSame => hSame ▸ hNext value

/-! ### References -/

theorem RegisterRef.AlikeAt.isWhole_eq {first second : RegisterRef}
    (h : first.AlikeAt Related second) : first.isWhole = second.isWhole := by
  rw [RegisterRef.isWhole, RegisterRef.isWhole, h.index]

theorem RegisterRef.AlikeAt.text_eq {first second : RegisterRef}
    (h : first.AlikeAt Related second) : first.text = second.text := by
  rw [RegisterRef.text, RegisterRef.text, h.register, h.index]

theorem RegisterRef.AlikeAt.overlaps_eq {first second later other : RegisterRef}
    (h : first.AlikeAt Related second) (hLater : later.AlikeAt Related other) :
    first.overlaps later = second.overlaps other := by
  rw [RegisterRef.overlaps, RegisterRef.overlaps, h.register, h.index, hLater.register,
    hLater.index]

variable {references others : List RegisterRef}

theorem checkOverlap_alike {earlier before : List RegisterRef}
    (hEarlier : List.Forall₂ (RegisterRef.AlikeAt Related) earlier before)
    (h : List.Forall₂ (RegisterRef.AlikeAt Related) references others) :
    AlikeAnswers Related (checkOverlap earlier references) (checkOverlap before others) := by
  induction h generalizing earlier before with
  | nil => exact .ok rfl
  | @cons later other rest behind hLater hRest ih =>
      have hFound := find?_rel (fun _ _ hFirst => RegisterRef.AlikeAt.overlaps_eq hFirst hLater)
        hEarlier
      rw [checkOverlap, checkOverlap]
      generalize (earlier.find? fun argument => argument.overlaps later) = left at hFound
      generalize (before.find? fun argument => argument.overlaps other) = right at hFound
      cases hFound with
      | some hArgument =>
          refine .error ⟨rfl, ?_, hLater.position⟩
          simp only [Violation.detail, hLater.text_eq, hArgument.text_eq]
      | none => exact ih (List.rel_append hEarlier (.cons hLater .nil))

theorem checkFormals_alike (header : GateHeader) {place other : Position}
    (h : Related place other) :
    AlikeAnswers Related (checkFormals header place) (checkFormals header other) := by
  rw [checkFormals, checkFormals]
  split
  · exact reject_alike _ h
  · exact .ok rfl

theorem checkFormalQubits_alike (formals : List String)
    (h : List.Forall₂ (RegisterRef.AlikeAt Related) references others) :
    AlikeAnswers Related (checkFormalQubits formals references)
      (checkFormalQubits formals others) := by
  induction h with
  | nil => exact .ok rfl
  | cons hFirst hRest ih =>
      rw [checkFormalQubits, checkFormalQubits, hFirst.index, hFirst.register]
      split
      · refine .error ⟨rfl, ?_, hFirst.position⟩
        simp only [Violation.detail, hFirst.text_eq]
      · split
        · exact ih
        · exact reject_alike _ hFirst.position

theorem checkVersion_alike (isFirst : Bool) (major minor : UInt32) {place other : Position}
    (h : Related place other) :
    AlikeAnswers Related (checkVersion isFirst major minor place)
      (checkVersion isFirst major minor other) := by
  rw [checkVersion, checkVersion]
  split
  · exact reject_alike _ h
  · split
    · exact reject_alike _ h
    · exact .ok rfl

/-! ### Checks in a scope -/

namespace Scope

variable (scope : Scope)

theorem checkReference_alike (kind : RegisterKind) {first second : RegisterRef}
    (h : first.AlikeAt Related second) :
    AlikeAnswers Related (scope.checkReference kind first) (scope.checkReference kind second) := by
  rw [checkReference, checkReference, h.register, h.index]
  split
  · exact reject_alike _ h.position
  · split
    · exact reject_alike _ h.position
    · split
      · exact .ok rfl
      · split
        · exact .ok rfl
        · exact reject_alike _ h.position

theorem checkArguments_alike {place other : Position} (hPlace : Related place other)
    (first : Option (String × UInt64))
    (h : List.Forall₂ (RegisterRef.AlikeAt Related) references others) :
    AlikeAnswers Related (scope.checkArguments place first references)
      (scope.checkArguments other first others) := by
  induction h generalizing first with
  | nil => exact .ok rfl
  | cons hFirst hRest ih =>
      rw [checkArguments, checkArguments, hFirst.index, hFirst.register]
      refine check_bind_alike (scope.checkReference_alike .quantum hFirst) fun size => ?_
      split
      · exact ih first
      · split
        · exact ih _
        · split
          · exact ih _
          · exact reject_alike _ hPlace

variable {call application : GateCall}

theorem checkSignature_alike (h : call.AlikeAt Related application) :
    AlikeAnswers Related (scope.checkSignature call) (scope.checkSignature application) := by
  rw [checkSignature, checkSignature, h.name, h.params, h.qubits.length_eq]
  split
  · exact reject_alike _ h.position
  · split
    · exact reject_alike _ h.position
    · exact .ok rfl

theorem checkCall_alike (h : call.AlikeAt Related application) :
    AlikeAnswers Related (scope.checkCall call) (scope.checkCall application) := by
  refine check_bind_alike (scope.checkSignature_alike h) fun _ => ?_
  rw [h.params]
  split
  · exact reject_alike _ h.position
  · exact check_bind_alike (scope.checkArguments_alike h.position none h.qubits) fun _ =>
      checkOverlap_alike .nil h.qubits

theorem checkBodyCall_alike (header : GateHeader) (h : call.AlikeAt Related application) :
    AlikeAnswers Related (scope.checkBodyCall header call)
      (scope.checkBodyCall header application) := by
  refine check_bind_alike (scope.checkSignature_alike h) fun _ => ?_
  rw [h.params]
  split
  · exact reject_alike _ h.position
  · exact check_bind_alike (checkFormalQubits_alike header.qubits h.qubits) fun _ =>
      checkOverlap_alike .nil h.qubits

theorem checkBody_alike (header : GateHeader) {calls applications : List GateCall}
    (h : List.Forall₂ (GateCall.AlikeAt Related) calls applications) :
    AlikeAnswers Related (scope.checkBody header calls) (scope.checkBody header applications) := by
  induction h with
  | nil => exact .ok rfl
  | cons hFirst hRest ih =>
      exact check_bind_alike (scope.checkBodyCall_alike header hFirst) fun _ => ih

variable {place other : Position}

theorem checkHeader_alike (header : GateHeader) (h : Related place other) :
    AlikeAnswers Related (scope.checkHeader header place) (scope.checkHeader header other) := by
  rw [checkHeader, checkHeader]
  split
  · split
    · exact reject_alike _ h
    · exact reject_alike _ h
  · exact checkFormals_alike header h

theorem declareRegister_alike (kind : RegisterKind) (name : String) (size : UInt64)
    (h : Related place other) :
    AlikeAnswers Related (scope.declareRegister kind name size place)
      (scope.declareRegister kind name size other) := by
  rw [declareRegister, declareRegister]
  split
  · exact reject_alike _ h
  · split
    · exact .ok rfl
    · exact reject_alike _ h

theorem checkMeasurement_alike {source target origin into : RegisterRef}
    (hSource : source.AlikeAt Related origin) (hTarget : target.AlikeAt Related into)
    (h : Related place other) :
    AlikeAnswers Related (scope.checkMeasurement source target place)
      (scope.checkMeasurement origin into other) := by
  refine check_bind_alike (scope.checkReference_alike .quantum hSource) fun sourceSize => ?_
  refine check_bind_alike (scope.checkReference_alike .classical hTarget) fun targetSize => ?_
  rw [hSource.isWhole_eq, hTarget.isWhole_eq, hSource.register, hTarget.register]
  split
  · refine .error ⟨rfl, ?_, h⟩
    simp only [Violation.detail, hSource.text_eq, hTarget.text_eq]
  · split
    · exact reject_alike _ h
    · exact .ok rfl

theorem checkTargets_alike (h : List.Forall₂ (RegisterRef.AlikeAt Related) references others) :
    AlikeAnswers Related (scope.checkTargets references) (scope.checkTargets others) := by
  induction h with
  | nil => exact .ok rfl
  | cons hFirst hRest ih =>
      exact check_bind_alike (scope.checkReference_alike .quantum hFirst) fun _ => ih

theorem checkCondition_alike (name : String) (h : Related place other) :
    AlikeAnswers Related (scope.checkCondition name place) (scope.checkCondition name other) := by
  rw [checkCondition, checkCondition]
  split
  · exact reject_alike _ h
  · split
    · exact .ok rfl
    · exact reject_alike _ h

/-- A statement is checked without regard to its places. -/
theorem check_alike (isFirst : Bool) {first second : Statement} (h : first.AlikeAt Related second) :
    AlikeAnswers Related (scope.check isFirst first) (scope.check isFirst second) := by
  cases h with
  | version major minor hPlace =>
      exact check_bind_alike (checkVersion_alike isFirst major minor hPlace) fun _ => .ok rfl
  | inclusion path hPlace => exact .ok rfl
  | register kind name size hPlace => exact scope.declareRegister_alike kind name size hPlace
  | gate header hBody hPlace =>
      exact check_bind_alike (scope.checkHeader_alike header hPlace) fun _ =>
        check_bind_alike (scope.checkBody_alike header hBody) fun _ => .ok rfl
  | opaqueGate header hPlace =>
      exact check_bind_alike (scope.checkHeader_alike header hPlace) fun _ => .ok rfl
  | call hCall => exact check_bind_alike (scope.checkCall_alike hCall) fun _ => .ok rfl
  | measure hSource hTarget hPlace =>
      exact check_bind_alike (scope.checkMeasurement_alike hSource hTarget hPlace) fun _ => .ok rfl
  | reset hTarget hPlace =>
      exact check_bind_alike (scope.checkReference_alike .quantum hTarget) fun _ => .ok rfl
  | barrier hTargets hPlace =>
      exact check_bind_alike (scope.checkTargets_alike hTargets) fun _ => .ok rfl
  | condition name value hCall hPlace =>
      exact check_bind_alike (scope.checkCondition_alike name hPlace) fun _ =>
        check_bind_alike (scope.checkCall_alike hCall) fun _ => .ok rfl

theorem checkAll_alike (isFirst : Bool) {statements again : List Statement}
    (h : List.Forall₂ (Statement.AlikeAt Related) statements again) :
    AlikeAnswers Related (scope.checkAll isFirst statements) (scope.checkAll isFirst again) := by
  induction h generalizing scope isFirst with
  | nil => exact .ok rfl
  | cons hFirst hRest ih =>
      exact check_bind_alike (scope.check_alike isFirst hFirst) fun next => ih next false

end Scope

/-- **Places do not matter.**  Programs that differ in their places only get the same answer. -/
theorem Program.check_alike (library : Option SymbolTable) {first second : Program}
    (h : first.AlikeAt Related second) :
    AlikeAnswers Related (first.check library) (second.check library) :=
  Agreement.map ((Scope.initial library).checkAll_alike true h) fun _ _ hScope => hScope ▸ rfl

end QuantumCircuit
