namespace QuantumCircuit
namespace CommandLine

/-!
# Actions

A run acts on its surroundings step by step: it prints texts and writes files.  A step
may fail, and then the run ends; what was done before stays done.  So an action keeps
a record of what it has done, in order, whether it gives a value or fails.

What a run can see are the files, as they are when it begins, and the standard streams:
no command reads a file after it has written one.  A file may turn out not to be
writable, and a stream may refuse a text.
-/

/-- A file to be written. -/
structure WrittenFile where
  path : String
  content : String
deriving DecidableEq, Repr

/-- What is done to the surroundings. -/
inductive Effect where
  | print (text : String)
  | write (file : WrittenFile)
deriving DecidableEq, Repr

namespace Effect

/-- The text that is printed. -/
def text? : Effect → Option String
  | print text => some text
  | write _ => none

/-- The file that is written. -/
def file? : Effect → Option WrittenFile
  | print _ => none
  | write file => some file

end Effect

/-- Why a run ends before its time. -/
inductive Failure where
  | reported (message : String)
  /-- The standard output refused a text. -/
  | panicked
deriving DecidableEq, Repr

/-- A part of a run: what it does, in order, and the value that it gives, or why it fails. -/
structure Action (α : Type) where
  effects : List Effect
  result : Except Failure α

namespace Action

/-- Does nothing and gives a value. -/
def done {α : Type} (value : α) : Action α := ⟨[], .ok value⟩

/-- Goes on with the value of an action.  What the action did stays done if it failed. -/
def andThen {α β : Type} (action : Action α) (next : α → Action β) : Action β :=
  match action.result with
  | .ok value => ⟨action.effects ++ (next value).effects, (next value).result⟩
  | .error failure => ⟨action.effects, .error failure⟩

instance : Monad Action where
  pure := done
  bind := andThen

/-- Fails with a message. -/
def fail {α : Type} (message : String) : Action α := ⟨[], .error (.reported message)⟩

/-- Puts a message in place of a value that is missing. -/
def orFail {α : Type} (message : String) : Option α → Action α
  | some value => done value
  | none => fail message

end Action

/-- What stands at a path. -/
inductive Entry where
  | missing
  /-- Something that cannot be read as a file, such as a directory. -/
  | unreadable
  | file (content : ByteArray)

/-- The standard streams. -/
structure Streams where
  /-- The standard input, unless it cannot be read. -/
  input : Option ByteArray
  /-- Does the standard output take the text? -/
  prints : String → Bool
  /-- Does the standard error take the message? -/
  reports : String → Bool

/-- The streams with something on the standard input, where all that is printed is taken. -/
def Streams.usual (input : ByteArray) : Streams := ⟨some input, fun _ => true, fun _ => true⟩

/-- What a run can see. -/
structure Surroundings where
  entry : String → Entry
  /-- Can a file be written at the path? -/
  accepts : String → Bool
  streams : Streams

namespace Surroundings

/-- Prints a text. -/
def print (surroundings : Surroundings) (text : String) : Action Unit :=
  if surroundings.streams.prints text then ⟨[.print text], .ok ()⟩ else ⟨[], .error .panicked⟩

/-- Prints a text with a line feed at its end. -/
def printLine (surroundings : Surroundings) (line : String) : Action Unit :=
  surroundings.print (line ++ "\n")

/-- Prints lines one behind the other. -/
def printLines (surroundings : Surroundings) : List String → Action Unit
  | [] => .done ()
  | line :: lines => do
    surroundings.printLine line
    surroundings.printLines lines

/-- Writes a file, or fails with a message and leaves the file as it was. -/
def write (surroundings : Surroundings) (message : String) (file : WrittenFile) : Action Unit :=
  if surroundings.accepts file.path then ⟨[.write file], .ok ()⟩ else .fail message

end Surroundings

/-- How a run ends, and what it has done. -/
structure Outcome where
  exitCode : UInt32
  effects : List Effect
  error : Option String
deriving DecidableEq, Repr

namespace Outcome

/-- All that was printed. -/
def output (outcome : Outcome) : String := .join (outcome.effects.filterMap Effect.text?)

/-- The files that were written, in order. -/
def writes (outcome : Outcome) : List WrittenFile := outcome.effects.filterMap Effect.file?

/-- The file that was written last. -/
def written (outcome : Outcome) : Option WrittenFile := outcome.writes.getLast?

end Outcome

/-- The outcome of an action.  A message that the standard error refuses ends the run in the same
way as a text that the standard output refuses. -/
def Action.finish (action : Action Unit) (streams : Streams) : Outcome :=
  match action.result with
  | .ok _ => ⟨0, action.effects, none⟩
  | .error (.reported message) =>
    if streams.reports message then ⟨1, action.effects, some message⟩
    else ⟨101, action.effects, none⟩
  | .error .panicked => ⟨101, action.effects, none⟩

end CommandLine
end QuantumCircuit
