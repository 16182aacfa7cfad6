import Mathlib.Data.List.Forall2
import QuantumCircuit.Proofs.Program.Legible
import QuantumCircuit.Validity.Violation

/-!
# Trees and answers at related places

Two texts with the same tokens have trees of the same shape, with other places in them.  What
follows says this for any relation between the places of the one text and those of the other.

* `Statement.AlikeAt`, `Program.AlikeAt` : trees of one shape with related places.
* `Agreement` : two results that are both values or both errors.
* `Diagnostic.AlikeAt` : diagnostics that say the same about related places.
-/

namespace QuantumCircuit

variable (Related : Position → Position → Prop)

/-! ### Trees -/

/-- References to the same register or element. -/
structure RegisterRef.AlikeAt (first second : RegisterRef) : Prop where
  register : first.register = second.register
  index : first.index = second.index
  position : Related first.position second.position

/-- Applications of the same gate. -/
structure GateCall.AlikeAt (first second : GateCall) : Prop where
  name : first.name = second.name
  params : first.params = second.params
  qubits : List.Forall₂ (RegisterRef.AlikeAt Related) first.qubits second.qubits
  position : Related first.position second.position

/-- Statements that differ in their places only. -/
inductive Statement.AlikeAt : Statement → Statement → Prop
  | version (major minor : UInt32) {place other : Position} (hPlace : Related place other) :
      Statement.AlikeAt (.version major minor place) (.version major minor other)
  | inclusion (path : String) {place other : Position} (hPlace : Related place other) :
      Statement.AlikeAt (.inclusion path place) (.inclusion path other)
  | register (kind : RegisterKind) (name : String) (size : UInt64) {place other : Position}
      (hPlace : Related place other) :
      Statement.AlikeAt (.register kind name size place) (.register kind name size other)
  | gate (header : GateHeader) {body calls : List GateCall} {place other : Position}
      (hBody : List.Forall₂ (GateCall.AlikeAt Related) body calls) (hPlace : Related place other) :
      Statement.AlikeAt (.gate ⟨header, body, place⟩) (.gate ⟨header, calls, other⟩)
  | opaqueGate (header : GateHeader) {place other : Position} (hPlace : Related place other) :
      Statement.AlikeAt (.opaqueGate header place) (.opaqueGate header other)
  | call {application call : GateCall} (hCall : application.AlikeAt Related call) :
      Statement.AlikeAt (.call application) (.call call)
  | measure {source target origin into : RegisterRef} {place other : Position}
      (hSource : source.AlikeAt Related origin) (hTarget : target.AlikeAt Related into)
      (hPlace : Related place other) :
      Statement.AlikeAt (.measure source target place) (.measure origin into other)
  | reset {target into : RegisterRef} {place other : Position}
      (hTarget : target.AlikeAt Related into) (hPlace : Related place other) :
      Statement.AlikeAt (.reset target place) (.reset into other)
  | barrier {targets others : List RegisterRef} {place other : Position}
      (hTargets : List.Forall₂ (RegisterRef.AlikeAt Related) targets others)
      (hPlace : Related place other) :
      Statement.AlikeAt (.barrier targets place) (.barrier others other)
  | condition (name : String) (value : UInt64) {application call : GateCall}
      {place other : Position} (hCall : application.AlikeAt Related call)
      (hPlace : Related place other) :
      Statement.AlikeAt (.condition name value application place) (.condition name value call other)

/-- Programs that differ in their places only. -/
def Program.AlikeAt (first second : Program) : Prop :=
  List.Forall₂ (Statement.AlikeAt Related) first.statements second.statements

variable {Related}

theorem RegisterRef.AlikeAt.erased_eq {first second : RegisterRef}
    (h : first.AlikeAt Related second) : first.erased = second.erased := by
  rw [RegisterRef.erased, RegisterRef.erased, h.register, h.index]

/-- Alike trees in a list are the same without their places. -/
theorem map_erased_eq {α : Type} {Alike : α → α → Prop} {erased : α → α}
    (hErased : ∀ first second, Alike first second → erased first = erased second)
    {firsts seconds : List α} (h : List.Forall₂ Alike firsts seconds) :
    firsts.map erased = seconds.map erased := by
  induction h with
  | nil => rfl
  | cons hHead hTail ih => rw [List.map_cons, List.map_cons, hErased _ _ hHead, ih]

/-- In related lists the first element that passes a test is found at the same place. -/
theorem find?_rel {α : Type} {Alike : α → α → Prop} {test again : α → Bool}
    (hTest : ∀ first second, Alike first second → test first = again second)
    {firsts seconds : List α} (h : List.Forall₂ Alike firsts seconds) :
    Option.Rel Alike (firsts.find? test) (seconds.find? again) := by
  induction h with
  | nil => exact .none
  | cons hHead hTail ih =>
      rw [List.find?_cons, List.find?_cons, hTest _ _ hHead]
      split
      · exact .some hHead
      · exact ih

theorem GateCall.AlikeAt.erased_eq {first second : GateCall} (h : first.AlikeAt Related second) :
    first.erased = second.erased := by
  have hQubits := map_erased_eq (fun _ _ hRef => RegisterRef.AlikeAt.erased_eq hRef) h.qubits
  rw [GateCall.erased, GateCall.erased, h.name, h.params, hQubits]

theorem Statement.AlikeAt.erased_eq {first second : Statement} (h : first.AlikeAt Related second) :
    first.erased = second.erased := by
  cases h with
  | gate header hBody hPlace =>
      have hCalls := map_erased_eq (fun _ _ hCall => GateCall.AlikeAt.erased_eq hCall) hBody
      simp only [Statement.erased, GateDefinition.erased, hCalls]
  | call hCall => rw [Statement.erased, Statement.erased, hCall.erased_eq]
  | measure hSource hTarget hPlace =>
      rw [Statement.erased, Statement.erased, hSource.erased_eq, hTarget.erased_eq]
  | reset hTarget hPlace => rw [Statement.erased, Statement.erased, hTarget.erased_eq]
  | barrier hTargets hPlace =>
      have hRefs := map_erased_eq (fun _ _ hRef => RegisterRef.AlikeAt.erased_eq hRef) hTargets
      rw [Statement.erased, Statement.erased, hRefs]
  | condition name value hCall hPlace =>
      rw [Statement.erased, Statement.erased, hCall.erased_eq]
  | _ => rfl

theorem Program.AlikeAt.erased_eq {first second : Program} (h : first.AlikeAt Related second) :
    first.erased = second.erased := by
  have hStatements := map_erased_eq (fun _ _ hAlike => Statement.AlikeAt.erased_eq hAlike) h
  rw [Program.erased, Program.erased, hStatements]

/-! ### A tree and itself -/

/-- The references of a statement, those in its calls among them. -/
def Statement.references : Statement → List RegisterRef
  | .gate definition => definition.body.flatMap GateCall.qubits
  | .call application => application.qubits
  | .measure source target _ => [source, target]
  | .reset target _ => [target]
  | .barrier targets _ => targets
  | .condition _ _ application _ => application.qubits
  | _ => []

theorem RegisterRef.alike_self {reference : RegisterRef}
    (h : Related reference.position reference.position) : reference.AlikeAt Related reference :=
  ⟨rfl, rfl, h⟩

theorem GateCall.alike_self {call : GateCall} (hPlace : Related call.position call.position)
    (hQubits : ∀ reference ∈ call.qubits, Related reference.position reference.position) :
    call.AlikeAt Related call :=
  ⟨rfl, rfl, List.forall₂_same.mpr fun reference hMember =>
    RegisterRef.alike_self (hQubits reference hMember), hPlace⟩

/-- A statement is like itself if each of its places is related to itself. -/
theorem Statement.alike_self {statement : Statement}
    (hPlace : Related statement.position statement.position)
    (hCalls : ∀ call ∈ statement.calls, Related call.position call.position)
    (hReferences : ∀ reference ∈ statement.references,
      Related reference.position reference.position) : statement.AlikeAt Related statement := by
  cases statement with
  | version major minor place => exact .version major minor hPlace
  | inclusion path place => exact .inclusion path hPlace
  | register kind name size place => exact .register kind name size hPlace
  | gate definition =>
      refine .gate definition.header (List.forall₂_same.mpr fun call hCall => ?_) hPlace
      refine GateCall.alike_self (hCalls call hCall) fun reference hReference => ?_
      exact hReferences reference (List.mem_flatMap.mpr ⟨call, hCall, hReference⟩)
  | opaqueGate header place => exact .opaqueGate header hPlace
  | call application => exact .call (GateCall.alike_self hPlace hReferences)
  | measure source target place =>
      exact .measure (RegisterRef.alike_self (hReferences source (by simp [references])))
        (RegisterRef.alike_self (hReferences target (by simp [references]))) hPlace
  | reset target place =>
      exact .reset (RegisterRef.alike_self (hReferences target (by simp [references]))) hPlace
  | barrier targets place =>
      exact .barrier (List.forall₂_same.mpr fun target hTarget =>
        RegisterRef.alike_self (hReferences target hTarget)) hPlace
  | condition name value application place =>
      exact .condition name value
        (GateCall.alike_self (hCalls application (by simp [calls])) hReferences) hPlace

/-! ### Answers -/

/-- Two results that are both values or both errors, and related as such. -/
inductive Agreement {ε α : Type} (Faults : ε → ε → Prop) (Values : α → α → Prop) :
    Except ε α → Except ε α → Prop
  | ok {value other : α} (hValue : Values value other) :
      Agreement Faults Values (.ok value) (.ok other)
  | error {fault other : ε} (hFault : Faults fault other) :
      Agreement Faults Values (.error fault) (.error other)

namespace Agreement

variable {ε α β : Type} {Faults : ε → ε → Prop} {Values : α → α → Prop} {Results : β → β → Prop}

theorem mono {first second : Except ε α} {Wider : ε → ε → Prop} {Weaker : α → α → Prop}
    (h : Agreement Faults Values first second)
    (hFaults : ∀ fault other, Faults fault other → Wider fault other)
    (hValues : ∀ value other, Values value other → Weaker value other) :
    Agreement Wider Weaker first second := by
  cases h with
  | ok hValue => exact .ok (hValues _ _ hValue)
  | error hFault => exact .error (hFaults _ _ hFault)

theorem bind {first second : Except ε α} {next onward : α → Except ε β}
    (h : Agreement Faults Values first second)
    (hNext : ∀ value other, first = .ok value → Values value other →
      Agreement Faults Results (next value) (onward other)) :
    Agreement Faults Results (first >>= next) (second >>= onward) := by
  cases h with
  | ok hValue => exact hNext _ _ rfl hValue
  | error hFault => exact .error hFault

theorem map {first second : Except ε α} {f g : α → β} (h : Agreement Faults Values first second)
    (hMap : ∀ value other, Values value other → Results (f value) (g other)) :
    Agreement Faults Results (first.map f) (second.map g) := by
  cases h with
  | ok hValue => exact .ok (hMap _ _ hValue)
  | error hFault => exact .error hFault

theorem mapError {δ : Type} {Reports : δ → δ → Prop} {first second : Except ε α} {f : ε → δ}
    (h : Agreement Faults Values first second)
    (hReport : ∀ fault other, Faults fault other → Reports (f fault) (f other)) :
    Agreement Reports Values (first.mapError f) (second.mapError f) := by
  cases h with
  | ok hValue => exact .ok hValue
  | error hFault => exact .error (hReport _ _ hFault)

end Agreement

/-! ### Errors -/

variable (Related)

/-- Syntax errors that say the same. -/
structure SyntaxError.AlikeAt (first second : SyntaxError) : Prop where
  expected : first.expected = second.expected
  found : first.found = second.found
  position : Related first.position second.position

/-- Semantic errors that say the same. -/
structure SemanticError.AlikeAt (first second : SemanticError) : Prop where
  kind : first.kind = second.kind
  detail : first.detail = second.detail
  position : Related first.position second.position

/-- Diagnostics of one kind that say the same. -/
inductive Diagnostic.AlikeAt : Diagnostic → Diagnostic → Prop
  | syntactic {first second : SyntaxError} (hError : first.AlikeAt Related second) :
      Diagnostic.AlikeAt (.syntactic first) (.syntactic second)
  | semantic {first second : SemanticError} (hError : first.AlikeAt Related second) :
      Diagnostic.AlikeAt (.semantic first) (.semantic second)

variable {Related}

theorem Diagnostic.AlikeAt.code_eq {first second : Diagnostic} (h : first.AlikeAt Related second) :
    first.code = second.code := by
  cases h with
  | syntactic hError => rfl
  | semantic hError => exact congrArg SemanticKind.code hError.kind

end QuantumCircuit
