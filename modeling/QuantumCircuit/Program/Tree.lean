import QuantumCircuit.Program.Basic
import QuantumCircuit.Text.Json
import QuantumCircuit.Decimal.Text

namespace QuantumCircuit

/-!
# Programs as JSON

A program is written as nested objects.  How words of 64 bits and floating-point
numbers are written is left open, since not every reader of JSON keeps them
exactly; `LeafStyle.plain` writes both as JSON numbers.
-/

/-- How the numbers of a tree are written. -/
structure LeafStyle where
  word : UInt64 → Json
  real : Binary64 → Json

/-- JSON numbers; a number that JSON does not have is `null`. -/
def LeafStyle.plain : LeafStyle where
  word value := .natural value.toNat
  real value := if value.isFinite then .number (NumberStyle.json.text value) else .null

/-- An object with a single member, which tells apart the cases of a type. -/
def variant (name : String) (content : Json) : Json := .object [(name, content)]

/-- A list of strings. -/
def stringsTree (strings : List String) : Json := .array (strings.map .string)

/-- The name of a function in a tree. -/
def MathFunction.variantName : MathFunction → String
  | sin => "Sin"
  | cos => "Cos"
  | tan => "Tan"
  | exp => "Exp"
  | ln => "Ln"
  | sqrt => "Sqrt"

/-- The name of an operator in a tree. -/
def Operator.variantName : Operator → String
  | add => "Add"
  | sub => "Sub"
  | mul => "Mul"
  | div => "Div"
  | pow => "Pow"

/-- The name of a kind of register in a tree. -/
def RegisterKind.variantName : RegisterKind → String
  | quantum => "Quantum"
  | classical => "Classical"

/-- The tree of a place. -/
def Position.tree (position : Position) : Json :=
  .object [("line", .natural position.line), ("column", .natural position.column)]

/-- The tree of an expression. -/
def Expr.tree (style : LeafStyle) : Expr → Json
  | number value => variant "Number" (style.real value)
  | pi => .string "Pi"
  | identifier name => variant "Identifier" (.string name)
  | neg operand => variant "Neg" (operand.tree style)
  | binary operator left right =>
    variant "Binary" (.object
      [("op", .string operator.variantName), ("left", left.tree style),
        ("right", right.tree style)])
  | call function argument =>
    variant "Call" (.object
      [("func", .string function.variantName), ("arg", argument.tree style)])

/-- The tree of a reference. -/
def RegisterRef.tree (style : LeafStyle) (reference : RegisterRef) : Json :=
  .object
    [("register", .string reference.register),
      ("index", .optional style.word reference.index),
      ("position", reference.position.tree)]

/-- The tree of a list of references. -/
def referencesTree (style : LeafStyle) (references : List RegisterRef) : Json :=
  .array (references.map (RegisterRef.tree style))

/-- The tree of a gate call. -/
def GateCall.tree (style : LeafStyle) (call : GateCall) : Json :=
  .object
    [("name", .string call.name), ("params", .array (call.params.map (Expr.tree style))),
      ("qargs", referencesTree style call.qubits), ("position", call.position.tree)]

/-- The members of a gate's header. -/
def GateHeader.members (header : GateHeader) : List (String × Json) :=
  [("name", .string header.name), ("params", stringsTree header.params),
    ("qargs", stringsTree header.qubits)]

/-- The tree of a statement. -/
def Statement.tree (style : LeafStyle) : Statement → Json
  | .version major minor position =>
    variant "Version" (.object
      [("major", .natural major.toNat), ("minor", .natural minor.toNat),
        ("position", position.tree)])
  | .inclusion path position =>
    variant "Include" (.object [("path", .string path), ("position", position.tree)])
  | .register kind name size position =>
    variant "Register" (.object
      [("kind", .string kind.variantName), ("name", .string name),
        ("size", style.word size), ("position", position.tree)])
  | .gate definition =>
    variant "GateDecl" (.object
      (definition.header.members ++
        [("body", .array (definition.body.map (GateCall.tree style))),
          ("position", definition.position.tree)]))
  | .opaqueGate header position =>
    variant "Opaque" (.object (header.members ++ [("position", position.tree)]))
  | .call application => variant "GateCall" (application.tree style)
  | .measure source target position =>
    variant "Measure" (.object
      [("source", source.tree style), ("target", target.tree style),
        ("position", position.tree)])
  | .reset target position =>
    variant "Reset" (.object [("target", target.tree style), ("position", position.tree)])
  | .barrier targets position =>
    variant "Barrier" (.object
      [("targets", referencesTree style targets), ("position", position.tree)])
  | .condition name value application position =>
    variant "If" (.object
      [("creg", .string name), ("value", style.word value),
        ("body", application.tree style), ("position", position.tree)])

/-- The tree of a program. -/
def Program.tree (style : LeafStyle) (program : Program) : Json :=
  .object [("statements", .array (program.statements.map (Statement.tree style)))]

end QuantumCircuit
