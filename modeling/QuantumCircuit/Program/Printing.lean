import QuantumCircuit.Expr.Printing
import QuantumCircuit.Program.Basic

namespace QuantumCircuit

/-!
# The text of a program

A program is written with one statement per line.  The calls of a gate body
stand on lines of their own, indented by two blanks, and parentheses that would
be empty are left out.
-/

/-- Items with a comma and a blank between two. -/
def commaList (items : List String) : String := String.intercalate ", " items

/-- A name, parameters in parentheses if there are any, and what the name is applied to. -/
def applied (name : String) (params qubits : List String) : String :=
  name ++ (if params.isEmpty then "" else "(" ++ commaList params ++ ")") ++ " " ++
    commaList qubits

/-- The text of a gate's header. -/
def GateHeader.text (header : GateHeader) : String :=
  applied header.name header.params header.qubits

/-- The text of a gate call without its semicolon. -/
def GateCall.text (call : GateCall) : String :=
  applied call.name (call.params.map Expr.text) (call.qubits.map RegisterRef.text)

/-- The lines of a gate definition. -/
def GateDefinition.lines (definition : GateDefinition) : List String :=
  ["gate " ++ definition.header.text ++ " \x7b"] ++
    definition.body.map (fun call => "  " ++ call.text ++ ";") ++ ["\x7d"]

/-- The lines of a statement. -/
def Statement.lines : Statement → List String
  | .version major minor _ =>
    ["OPENQASM " ++ toString major.toNat ++ "." ++ toString minor.toNat ++ ";"]
  | .inclusion path _ => ["include \"" ++ path ++ "\";"]
  | .register kind name size _ =>
    [kind.keyword ++ " " ++ name ++ "[" ++ toString size.toNat ++ "];"]
  | .gate definition => definition.lines
  | .opaqueGate header _ => ["opaque " ++ header.text ++ ";"]
  | .call application => [application.text ++ ";"]
  | .measure source target _ => ["measure " ++ source.text ++ " -> " ++ target.text ++ ";"]
  | .reset target _ => ["reset " ++ target.text ++ ";"]
  | .barrier targets _ => ["barrier " ++ commaList (targets.map RegisterRef.text) ++ ";"]
  | .condition name value application _ =>
    ["if (" ++ name ++ " == " ++ toString value.toNat ++ ") " ++ application.text ++ ";"]

/-- The text of a program; every line ends with a line feed. -/
def Program.text (program : Program) : String :=
  String.join ((program.statements.flatMap Statement.lines).map fun line => line ++ "\n")

end QuantumCircuit
