import QuantumCircuit.CommandLine.Run

/-!
# The program

The program reads what its arguments name, lets `CommandLine.run` decide what
happens, and carries that out.
-/

namespace QuantumCircuit
namespace CommandLine

/-- Reads a stream to its end. -/
partial def readToEnd (stream : IO.FS.Stream) (before : ByteArray) : IO ByteArray := do
  let more ← stream.read 65536
  if more.isEmpty then return before else readToEnd stream (before ++ more)

/-- Reads what stands behind a handle.  A directory can be opened, but not read. -/
def readHandle (handle : IO.FS.Handle) : IO Entry := do
  try
    return .file (← handle.readBinToEnd)
  catch _ =>
    return .unreadable

/-- Looks at a path. -/
def readEntry (path : String) : IO Entry := do
  try
    readHandle (← IO.FS.Handle.mk path .read)
  catch
    | .noFileOrDirectory .. | .inappropriateType .. => return .missing
    | _ => return .unreadable

/-- Reads what the arguments name; until it is tried, every effect is taken to be possible. -/
def readSurroundings (arguments : List String) : IO Surroundings := do
  match Invocation.ofArguments arguments with
  | .error _ => return ⟨fun _ => .missing, fun _ => true, .usual .empty⟩
  | .ok invocation =>
    let input := invocation.command.input?
    let standardInput ← if input = some "-" then readToEnd (← IO.getStdin) .empty
      else pure .empty
    let entries ← (invocation.config.toList ++ input.toList).mapM fun path => do
      return (path, ← readEntry path)
    return ⟨fun path => (entries.lookup path).getD .missing, fun _ => true, .usual standardInput⟩

/-- The surroundings in which an effect is not possible. -/
def Surroundings.refusing (surroundings : Surroundings) : Effect → Surroundings
  | .print text =>
    let streams := surroundings.streams
    { surroundings with
      streams := { streams with prints := fun other => other ≠ text && streams.prints other } }
  | .write file =>
    { surroundings with
      accepts := fun path => path ≠ file.path && surroundings.accepts path }

/-- Has an effect, if it is possible. -/
def Effect.tried : Effect → IO Bool
  | .print text => do
    try
      IO.print text
      (← IO.getStdout).flush
      return true
    catch _ =>
      return false
  | .write file => do
    try
      IO.FS.writeFile file.path file.content
      return true
    catch _ =>
      return false

/-- Has effects in order, and gives the first one that is not possible. -/
def firstRefused : List Effect → IO (Option Effect)
  | [] => return none
  | effect :: effects => do
    if ← effect.tried then firstRefused effects else return some effect

/-- Runs the arguments.  An effect that is not possible ends the run as it does in surroundings
that refuse it. -/
def perform (arguments : List String) : IO Outcome := do
  let surroundings ← readSurroundings arguments
  let outcome := run surroundings arguments
  match ← firstRefused outcome.effects with
  | none => return outcome
  | some effect => return run (surroundings.refusing effect) arguments

end CommandLine
end QuantumCircuit

/-- Runs the arguments and ends with the exit code of the outcome. -/
def main (arguments : List String) : IO UInt32 := do
  let outcome ← QuantumCircuit.CommandLine.perform arguments
  if let some message := outcome.error then
    IO.eprintln ("Error: " ++ message)
  if outcome.exitCode = 2 then
    IO.eprintln "error: the arguments do not make up a command"
  return outcome.exitCode
