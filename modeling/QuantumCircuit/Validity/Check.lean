import QuantumCircuit.Symbols
import QuantumCircuit.Validity.Violation

namespace QuantumCircuit

/-!
# Checking a program

Statements are checked in order, each in the scope of those before it, and the
first fault is the answer.  A statement enters what it declares into the scope
after it has been checked, so a gate cannot call itself.

The rules of a call are checked in a fixed order: its gate is declared, the counts
agree, its identifiers are bound, its arguments are good one by one, and no two of
them overlap.
-/

/-- Reports a fault. -/
def reject {α : Type} (violation : Violation) (position : Position) : Except Fault α :=
  .error ⟨violation, position⟩

/-- Do two references share an element, given that both are in range? -/
def RegisterRef.overlaps (first second : RegisterRef) : Bool :=
  first.register = second.register &&
    (first.index.isNone || second.index.isNone || first.index = second.index)

/-- No argument overlaps one before it; `earlier` holds those that were passed. -/
def checkOverlap (earlier : List RegisterRef) : List RegisterRef → Except Fault Unit
  | [] => .ok ()
  | later :: rest =>
    match earlier.find? fun argument => argument.overlaps later with
    | some argument => reject (.overlap later argument) later.position
    | none => checkOverlap (earlier ++ [later]) rest

/-- The first name that stands among those before it; `seen` holds those that were passed. -/
def firstRepeated? (seen : List String) : List String → Option String
  | [] => none
  | name :: rest =>
    if name ∈ seen then some name else firstRepeated? (name :: seen) rest

/-- The formal names of a gate differ from each other. -/
def checkFormals (header : GateHeader) (position : Position) : Except Fault Unit :=
  match firstRepeated? [] (header.params ++ header.qubits) with
  | some name => reject (.duplicateFormal name) position
  | none => .ok ()

/-- The arguments of a call in a gate body are formal qubits without an index. -/
def checkFormalQubits (formals : List String) : List RegisterRef → Except Fault Unit
  | [] => .ok ()
  | argument :: rest =>
    if argument.index.isSome then reject (.indexedFormal argument) argument.position
    else if argument.register ∈ formals then checkFormalQubits formals rest
    else reject (.foreignQubit argument.register) argument.position

/-- A version declaration comes first and declares version 2. -/
def checkVersion (isFirst : Bool) (major minor : UInt32) (position : Position) :
    Except Fault Unit :=
  if !isFirst then reject .misplacedVersion position
  else if major ≠ 2 then reject (.unsupportedVersion major minor) position
  else .ok ()

namespace Scope

/-- The gate of a call is declared and takes as many parameters and qubits as are given. -/
def checkSignature (scope : Scope) (call : GateCall) : Except Fault Unit :=
  match scope.gate? call.name with
  | none => reject (.unknownGate call.name) call.position
  | some signature =>
    if call.params.length ≠ signature.params ∨ call.qubits.length ≠ signature.qubits then
      reject (.arity call.name signature.params signature.qubits call.params.length
        call.qubits.length) call.position
    else .ok ()

/-- A reference means a register of the right kind and an element in range; its size is
the answer. -/
def checkReference (scope : Scope) (kind : RegisterKind) (reference : RegisterRef) :
    Except Fault UInt64 :=
  match scope.register? reference.register with
  | none => reject (.unknownRegister reference.register) reference.position
  | some shape =>
    if shape.kind ≠ kind then
      reject (.wrongKind reference.register shape.kind kind) reference.position
    else
      match reference.index with
      | none => .ok shape.size
      | some index =>
        if index < shape.size then .ok shape.size
        else reject (.outOfRange index reference.register shape.size) reference.position

/-- The arguments of a call are good one by one, and its whole registers have one size;
`first` is the first whole register that was passed. -/
def checkArguments (scope : Scope) (position : Position) (first : Option (String × UInt64)) :
    List RegisterRef → Except Fault Unit
  | [] => .ok ()
  | argument :: rest => do
    let size ← scope.checkReference .quantum argument
    if argument.index.isSome then scope.checkArguments position first rest
    else
      match first with
      | none => scope.checkArguments position (some (argument.register, size)) rest
      | some (name, expected) =>
        if expected = size then scope.checkArguments position first rest
        else reject (.unequalSizes name expected argument.register size) position

/-- Checks a call outside gate bodies, where no identifier is bound. -/
def checkCall (scope : Scope) (call : GateCall) : Except Fault Unit := do
  scope.checkSignature call
  match (call.params.flatMap Expr.identifiers).head? with
  | some name => reject (.unboundParameter name) call.position
  | none => do
    scope.checkArguments call.position none call.qubits
    checkOverlap [] call.qubits

/-- Checks a call in a gate body, whose header binds parameters and qubits. -/
def checkBodyCall (scope : Scope) (header : GateHeader) (call : GateCall) :
    Except Fault Unit := do
  scope.checkSignature call
  match (call.params.flatMap Expr.identifiers).find? fun name => name ∉ header.params with
  | some name => reject (.foreignParameter name) call.position
  | none => do
    checkFormalQubits header.qubits call.qubits
    checkOverlap [] call.qubits

/-- Checks the calls of a gate body in order. -/
def checkBody (scope : Scope) (header : GateHeader) : List GateCall → Except Fault Unit
  | [] => .ok ()
  | call :: rest => do
    scope.checkBodyCall header call
    scope.checkBody header rest

/-- The name of a gate that is declared is new, and its formal names differ. -/
def checkHeader (scope : Scope) (header : GateHeader) (position : Position) :
    Except Fault Unit :=
  if (scope.gate? header.name).isSome then
    if scope.isLibraryGate header.name then reject (.libraryGate header.name) position
    else reject (.duplicateGate header.name) position
  else checkFormals header position

/-- Declares a register whose size is not zero and whose name is new. -/
def declareRegister (scope : Scope) (kind : RegisterKind) (name : String) (size : UInt64)
    (position : Position) : Except Fault Scope :=
  if size = 0 then reject (.emptyRegister name) position
  else
    match scope.insertRegister? name ⟨kind, size⟩ with
    | some next => .ok next
    | none => reject (.duplicateRegister name) position

/-- The scope behind the declaration of a gate, whose name was checked before.  A name that is not
new would be left as it is. -/
def declareGate (scope : Scope) (header : GateHeader) (isOpaque : Bool) : Scope :=
  (scope.insertGate? header.name
    ⟨header.params.length, header.qubits.length, isOpaque⟩).getD scope

/-- A new name is entered. -/
theorem declareGate_of_new {scope : Scope} {header : GateHeader}
    (hNew : (scope.gate? header.name).isSome = false) (isOpaque : Bool) :
    scope.declareGate header isOpaque =
      scope.addGate header.name ⟨header.params.length, header.qubits.length, isOpaque⟩ := by
  rw [declareGate, insertGate?_eq, hNew]
  rfl

/-- A measurement goes from a qubit to a bit, or from a register to one of the same size. -/
def checkMeasurement (scope : Scope) (source target : RegisterRef) (position : Position) :
    Except Fault Unit := do
  let sourceSize ← scope.checkReference .quantum source
  let targetSize ← scope.checkReference .classical target
  if source.isWhole ≠ target.isWhole then reject (.mixedMeasurement source target) position
  else if source.isWhole ∧ sourceSize ≠ targetSize then
    reject (.unequalMeasurement source.register sourceSize target.register targetSize) position
  else .ok ()

/-- Checks references to quantum registers in order. -/
def checkTargets (scope : Scope) : List RegisterRef → Except Fault Unit
  | [] => .ok ()
  | target :: rest => do
    let _ ← scope.checkReference .quantum target
    scope.checkTargets rest

/-- A condition compares a classical register. -/
def checkCondition (scope : Scope) (name : String) (position : Position) : Except Fault Unit :=
  match scope.register? name with
  | none => reject (.unknownRegister name) position
  | some shape =>
    if shape.kind = .classical then .ok () else reject (.quantumCondition name) position

/-- Checks a statement and gives the scope behind it. -/
def check (scope : Scope) (isFirst : Bool) : Statement → Except Fault Scope
  | .version major minor position => do
    checkVersion isFirst major minor position
    return scope
  | .inclusion _ _ => .ok scope
  | .register kind name size position => scope.declareRegister kind name size position
  | .gate definition => do
    scope.checkHeader definition.header definition.position
    scope.checkBody definition.header definition.body
    return scope.declareGate definition.header false
  | .opaqueGate header position => do
    scope.checkHeader header position
    return scope.declareGate header true
  | .call application => do
    scope.checkCall application
    return scope
  | .measure source target position => do
    scope.checkMeasurement source target position
    return scope
  | .reset target _ => do
    let _ ← scope.checkReference .quantum target
    return scope
  | .barrier targets _ => do
    scope.checkTargets targets
    return scope
  | .condition name _ application position => do
    scope.checkCondition name position
    scope.checkCall application
    return scope

/-- Checks statements in order; `isFirst` says whether they begin the program. -/
def checkAll (scope : Scope) (isFirst : Bool) : List Statement → Except Fault Scope
  | [] => .ok scope
  | statement :: rest => do
    let next ← scope.check isFirst statement
    next.checkAll false rest

end Scope

/-- Checks a program against the table of a library, if there is one, and gives the names
that the program itself declares. -/
def Program.check (library : Option SymbolTable) (program : Program) :
    Except Fault SymbolTable :=
  ((Scope.initial library).checkAll true program.statements).map Scope.own

end QuantumCircuit
