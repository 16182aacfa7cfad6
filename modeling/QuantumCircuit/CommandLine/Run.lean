import QuantumCircuit.CommandLine.Action
import QuantumCircuit.CommandLine.Arguments
import QuantumCircuit.CommandLine.Configuration
import QuantumCircuit.Expr.Evaluation
import QuantumCircuit.Program.Printing
import QuantumCircuit.Program.Tree
import QuantumCircuit.Text.WhiteSpace

namespace QuantumCircuit
namespace CommandLine

/-!
# Running a command

A run depends on its arguments and on its surroundings.  It loads its options and
carries out a command: it reads a text, works on it, and prints or writes what it
finds.

Reading arguments and reading a configuration are the work of two libraries.  They
come as `Readers`, of which `Readers.standard` is one instance.
-/

/-- Arguments that are no command: the exit code, and the text that is printed. -/
structure Departure where
  exitCode : UInt32
  output : String
deriving DecidableEq, Repr

/-- How the arguments and a configuration are read. -/
structure Readers where
  arguments : List String → Except Departure Invocation
  options : String → Option Options

/-- Fails with the wording of a diagnostic. -/
def Action.ofChecked {α : Type} : Except Diagnostic α → Action α
  | .ok value => done value
  | .error diagnostic => fail diagnostic.message

namespace Surroundings

/-- The text at a path, if there is a file that holds text. -/
def text? (surroundings : Surroundings) (path : String) : Option String :=
  match surroundings.entry path with
  | .file content => String.fromUTF8? content
  | _ => none

/-- Reads the text of a circuit: from the standard input for `-`, else from a file. -/
def source (surroundings : Surroundings) (input : String) : Action String :=
  if input = "-" then
    .orFail "Failed to read stdin" (surroundings.streams.input.bind String.fromUTF8?)
  else
    match surroundings.entry input with
    | .missing => .fail ("File not found: " ++ input)
    | _ => .orFail ("Failed to read file: " ++ input) (surroundings.text? input)

/-- The options of a run; `noCore` wins over the configuration. -/
def options (surroundings : Surroundings) (readers : Readers) (config : Option String)
    (noCore : Bool) : Action Options := do
  let configured ← match config with
    | none => .done .standard
    | some path => do
      let text ← .orFail ("Failed to read config: " ++ path) (surroundings.text? path)
      .orFail ("Invalid config file: " ++ path) (readers.options text)
  return if noCore then ⟨false⟩ else configured

end Surroundings

/-- Starts the session of a run. -/
def startSession (options : Options) : Action Session :=
  .orFail "Failed to initialise parser" (Session.start options).toOption

/-! ### Commands -/

/-- The members of a diagnostic in JSON. -/
def diagnosticTree (diagnostic : Diagnostic) : Json :=
  .object
    [("message", .string diagnostic.message), ("line", .natural diagnostic.position.line),
      ("column", .natural diagnostic.position.column), ("code", .string diagnostic.code)]

/-- The counts of a checked program in JSON. -/
def summaryTree (checked : CheckedProgram) : Json :=
  .object
    [("valid", .boolean true), ("statements", .natural checked.program.length),
      ("qubits", .natural checked.symbols.qubitCount.toNat),
      ("clbits", .natural checked.symbols.bitCount.toNat),
      ("gate_calls", .natural checked.program.gateCalls.length),
      ("gates_declared", .natural checked.symbols.gateCount)]

/-- The counts of a checked program in words. -/
def summaryLines (input : String) (checked : CheckedProgram) : List String :=
  ["✓ " ++ input ++ " is valid",
    "  Statements: " ++ toString checked.program.length,
    "  Qubits: " ++ toString checked.symbols.qubitCount.toNat ++
      ", Clbits: " ++ toString checked.symbols.bitCount.toNat,
    "  Gate calls: " ++ toString checked.program.gateCalls.length] ++
    (if checked.symbols.gateCount = 0 then []
      else ["  Gates declared: " ++ toString checked.symbols.gateCount]) ++
    checked.program.unresolvedIncludes.map fun path =>
      "  ! include \"" ++ path ++ "\" was not resolved"

/-- Checks a circuit and prints its counts.  In JSON a diagnostic is printed, too. -/
def check (surroundings : Surroundings) (options : Options) (input : String) (json : Bool) :
    Action Unit := do
  let source ← surroundings.source input
  let session ← startSession options
  match session.parse source with
  | .error diagnostic => do
    if json then surroundings.printLine (diagnosticTree diagnostic).pretty
    .fail diagnostic.message
  | .ok checked =>
    if json then surroundings.printLine (summaryTree checked).pretty
    else surroundings.printLines (summaryLines input checked)

/-- Reads and checks a circuit. -/
def checkedProgram (surroundings : Surroundings) (options : Options) (input : String) :
    Action Program := do
  let source ← surroundings.source input
  let session ← startSession options
  let checked ← .ofChecked (session.parse source)
  return checked.program

/-- Prints the tree of a circuit in JSON. -/
def printTree (surroundings : Surroundings) (options : Options) (input : String)
    (pretty : Bool) : Action Unit := do
  let program ← checkedProgram surroundings options input
  let tree := program.tree .plain
  surroundings.printLine (if pretty then tree.pretty else tree.compact)

/-- What is printed when a program is written to a file. -/
def confirmation (program : Program) (path : String) : String :=
  "✓ Formatted " ++ toString program.length ++ " statements to " ++ path

/-- Prints the text of a circuit, or writes it to a file. -/
def format (surroundings : Surroundings) (options : Options) (input : String)
    (output : Option String) : Action Unit := do
  let program ← checkedProgram surroundings options input
  match output with
  | none => surroundings.print program.text
  | some path => do
    surroundings.write ("Failed to write output: " ++ path) ⟨path, program.text⟩
    surroundings.printLine (confirmation program path)

/-- Fills a text with blanks at its end. -/
def padRight (width : Nat) (text : String) : String :=
  text ++ String.ofList (List.replicate (width - text.length) ' ')

/-- Fills a text with blanks at its start. -/
def padLeft (width : Nat) (text : String) : String :=
  String.ofList (List.replicate (width - text.length) ' ') ++ text

/-- A row of the table of gates. -/
def gateRow (name params qubits kind : String) : String :=
  "  " ++ padRight 8 name ++ " " ++ padLeft 6 params ++ " " ++ padLeft 6 qubits ++ "  " ++ kind

/-- Prints the table of the preloaded gates. -/
def listGates (surroundings : Surroundings) (options : Options) : Action Unit := do
  let session ← startSession options
  match session.library with
  | none => surroundings.printLine "Standard library disabled; no gates are preloaded."
  | some library =>
    let gates := library.symbols.sortedGates
    surroundings.printLines
      ((standardLibraryPath ++ " " ++ toString gates.length ++ " preloaded gates:\n") ::
        gateRow "NAME" "PARAMS" "QUBITS" "KIND" ::
        gates.map fun entry =>
          gateRow entry.1 (toString entry.2.params) (toString entry.2.qubits)
            (if entry.2.isOpaque then "opaque" else "composite"))

/-- Reads `name=value`, where the value is an expression without identifiers. -/
def binding (argument : String) : Action (String × Float) := do
  let text := argument.toList
  let name := text.takeWhile (· ≠ '=')
  match text.dropWhile (· ≠ '=') with
  | [] => .fail ("Binding must be NAME=VALUE, got '" ++ argument ++ "'")
  | _ :: behind => do
    let shown := String.ofList name
    let e ← .orFail ("Invalid value for '" ++ shown ++ "'")
      (Expr.parse (String.ofList (trimmed behind))).toOption
    let value ← .orFail ("Value for '" ++ shown ++ "' must be a constant") e.constant?
    return (String.ofList (trimmed name), value)

/-- Reads bindings one behind the other. -/
def bindings : List String → Action (List (String × Float))
  | [] => .done []
  | argument :: arguments => do
    let pair ← binding argument
    let pairs ← bindings arguments
    return pair :: pairs

/-- Prints the value of an expression under bindings. -/
def evaluate (surroundings : Surroundings) (expression : String) (arguments : List String) :
    Action Unit := do
  let pairs ← bindings arguments
  let e ← .ofChecked (Expr.parse expression)
  match e.evaluate (.ofList pairs) with
  | .ok value => surroundings.printLine (NumberStyle.plain.text (.ofFloat value))
  | .error error => .fail error.message

/-- The version number of the program. -/
def releaseNumber : String := "0.4.0"

/-- What the command `version` prints. -/
def releaseLines : List String :=
  ["qasm2 v" ++ releaseNumber ++ " - OpenQASM 2.0 checker and formatter",
    "",
    "Components:",
    "  openqasm2      Lexer, parser and semantic validator",
    "  openqasm2-cli  Command-line interface",
    "",
    "Language:   OpenQASM 2.0 (bundled " ++ standardLibraryPath ++ ")",
    "License:    Apache-2.0"]

/-- Carries out a command. -/
def Command.perform (surroundings : Surroundings) (options : Options) : Command → Action Unit
  | .check input json => CommandLine.check surroundings options input json
  | .tree input pretty => printTree surroundings options input pretty
  | .format input output => CommandLine.format surroundings options input output
  | .gates => listGates surroundings options
  | .evaluate expression arguments => CommandLine.evaluate surroundings expression arguments
  | .release => surroundings.printLines releaseLines

/-! ### Runs -/

/-- Carries out an invocation; the options are loaded first, whatever the command. -/
def Invocation.perform (readers : Readers) (surroundings : Surroundings)
    (invocation : Invocation) : Action Unit := do
  let options ← surroundings.options readers invocation.config invocation.noCore
  invocation.command.perform surroundings options

/-- The outcome for arguments that are no command.  Nobody minds if its text is refused. -/
def Departure.outcome (departure : Departure) (surroundings : Surroundings) : Outcome :=
  ⟨departure.exitCode, (surroundings.print departure.output).effects, none⟩

/-- The outcome of a run with given readers. -/
def runWith (readers : Readers) (surroundings : Surroundings) (arguments : List String) :
    Outcome :=
  match readers.arguments arguments with
  | .error departure => departure.outcome surroundings
  | .ok invocation => (invocation.perform readers surroundings).finish surroundings.streams

/-- The exit code and the text of a refusal.  A complaint about bad usage goes to the standard
error. -/
def Refusal.departure : Refusal → Departure
  | badUsage => ⟨2, ""⟩
  | help => ⟨0, ""⟩
  | release => ⟨0, "qasm2 " ++ releaseNumber ++ "\n"⟩

/-- The readers of the program itself. -/
def Readers.standard : Readers :=
  ⟨fun arguments => (Invocation.ofArguments arguments).mapError Refusal.departure,
    Configuration.read⟩

/-- The outcome of a run. -/
def run (surroundings : Surroundings) (arguments : List String) : Outcome :=
  runWith .standard surroundings arguments

end CommandLine
end QuantumCircuit
