import QuantumCircuit.Expr.Evaluation
import QuantumCircuit.Library.Basic

/-!
# Expanding gate calls

A call of a gate that is made of other gates stands for the calls in the body of that gate, with
the arguments of the call in place of the formal qubits and with parameters that are evaluated
under the values of the formal ones.  A call is expanded by such replacements, one at a time and
in any order.

* `Declarations` : the gates that an expansion refers to.
* `Declarations.expand` : the applications that an application stands for.
* `Declarations.Step` : one application in a list is replaced by those it stands for.
-/

namespace QuantumCircuit

/-- A gate that is applied to numbers and qubits. -/
structure Application (α : Type) where
  name : String
  values : List α
  qubits : List RegisterRef

/-- Why a call cannot be expanded. -/
inductive ExpansionFault where
  /-- The gate is not declared. -/
  | unknownGate (name : String)
  /-- The gate takes other numbers of parameters and qubits. -/
  | unequalCounts (name : String)
  /-- Two arguments overlap. -/
  | overlap (fault : Fault)
  /-- The gate is not opaque, but it has no body. -/
  | missingBody (name : String)
  /-- An argument in a body is no formal qubit. -/
  | foreignQubit (reference : RegisterRef)
  /-- A parameter has no value. -/
  | noValue (error : EvaluationError)

/-- The only fault of an expansion that the rules do not exclude. -/
def ExpansionFault.IsDivision (fault : ExpansionFault) : Prop :=
  fault = .noValue .divisionByZero

/-! ### Calls -/

/-- The values of the formal parameters of a gate. -/
def GateHeader.bindings {α : Type} (header : GateHeader) (values : List α) : Bindings α :=
  .ofList (header.params.zip values)

/-- The argument in place of a formal qubit. -/
def GateHeader.substitute (header : GateHeader) (qubits : List RegisterRef)
    (reference : RegisterRef) : Except ExpansionFault RegisterRef :=
  match reference.index, (header.qubits.zip qubits).lookup reference.register with
  | none, some argument => .ok argument
  | _, _ => .error (.foreignQubit reference)

/-- Evaluates the parameters of a call and puts its arguments in place. -/
def GateCall.instantiate {α : Type} (call : GateCall) (arithmetic : Arithmetic α)
    (bindings : Bindings α) (place : RegisterRef → Except ExpansionFault RegisterRef) :
    Except ExpansionFault (Application α) := do
  let values ← call.params.mapM fun e => (arithmetic.evaluate bindings e).mapError .noValue
  let qubits ← call.qubits.mapM place
  return ⟨call.name, values, qubits⟩

/-- The application that a call outside gate bodies is: nothing is bound, and the qubits are
those of registers. -/
def GateCall.start {α : Type} (call : GateCall) (arithmetic : Arithmetic α) :
    Except ExpansionFault (Application α) :=
  call.instantiate arithmetic .empty .ok

/-! ### Gates -/

/-- The definition of a gate with a body; none for other names. -/
def Program.definition? (program : Program) (name : String) : Option GateDefinition :=
  program.statements.findSome? fun
    | .gate definition => if definition.header.name = name then some definition else none
    | _ => none

/-- The calls in the body of a gate, for one application of it. -/
def GateDefinition.instances {α : Type} (definition : GateDefinition)
    (arithmetic : Arithmetic α) (application : Application α) :
    Except ExpansionFault (List (Application α)) :=
  definition.body.mapM fun call =>
    call.instantiate arithmetic (definition.header.bindings application.values)
      (definition.header.substitute application.qubits)

/-- The gates of a program and of a library, if there is one. -/
structure Declarations where
  library : Option Library
  program : Program
  /-- What validation returned for the program. -/
  symbols : SymbolTable

namespace Declarations

/-- The names behind the program. -/
def scope (declarations : Declarations) : Scope :=
  ⟨declarations.library.map Library.symbols, declarations.symbols⟩

/-- The definition of a gate in the program, or else in the library. -/
def definition? (declarations : Declarations) (name : String) : Option GateDefinition :=
  (declarations.program.definition? name).or
    (declarations.library.bind fun library => library.definition? name)

variable {α : Type}

/-- The applications that an application stands for; none if its gate is opaque. -/
def expand (declarations : Declarations) (arithmetic : Arithmetic α)
    (application : Application α) : Except ExpansionFault (Option (List (Application α))) :=
  match declarations.scope.gate? application.name with
  | none => .error (.unknownGate application.name)
  | some signature =>
    if application.values.length ≠ signature.params ∨
        application.qubits.length ≠ signature.qubits then
      .error (.unequalCounts application.name)
    else
      match checkOverlap [] application.qubits with
      | .error fault => .error (.overlap fault)
      | .ok () =>
        if signature.isOpaque then .ok none
        else
          match declarations.definition? application.name with
          | none => .error (.missingBody application.name)
          | some definition => (definition.instances arithmetic application).map some

/-- One application in a list is replaced by those that it stands for. -/
inductive Step (declarations : Declarations) (arithmetic : Arithmetic α) :
    List (Application α) → List (Application α) → Prop
  | replace (front back : List (Application α)) (application : Application α)
      (body : List (Application α))
      (hExpand : declarations.expand arithmetic application = .ok (some body)) :
      Step declarations arithmetic (front ++ application :: back) (front ++ body ++ back)

end Declarations

end QuantumCircuit
