import QuantumCircuit.CommandLine.Directory
import QuantumCircuit.Proofs.CommandLine.Action
import QuantumCircuit.Proofs.CommandLine.Arguments

/-!
# Runs of the commands

The commands that read a circuit succeed and fail together, with the same message.  The only
command that writes a file does so after all that can fail but the line that confirms it, and so a
run that fails leaves the files of a tree as they are.

How arguments and a configuration are read is left open: what is said here holds for all readers.

* `runWith_endsLike` : commands that read the same place under the same options end alike.
* `runWith_cases` : what a run writes.
* `FileTree.run_effects` : how runs end and what they leave behind.
-/

namespace QuantumCircuit
namespace CommandLine

variable {readers : Readers} {surroundings : Surroundings} {arguments others : List String}

/-! ### How a run ends -/

/-- The same exit code and the same message. -/
def Outcome.EndsLike (first second : Outcome) : Prop :=
  first.exitCode = second.exitCode ∧ first.error = second.error

/-- Actions that fail alike end alike. -/
theorem Action.finish_endsLike {first second : Action Unit}
    (h : first.failure? = second.failure?) (streams : Streams) :
    (first.finish streams).EndsLike (second.finish streams) := by
  obtain ⟨effects, result⟩ := first
  obtain ⟨effects', result'⟩ := second
  cases result with
  | ok value =>
      cases result' with
      | ok value' => exact ⟨rfl, rfl⟩
      | error failure' => cases h
  | error failure =>
      cases result' with
      | ok value' => cases h
      | error failure' =>
          obtain rfl : failure = failure' := Option.some.inj h
          cases failure with
          | panicked => exact ⟨rfl, rfl⟩
          | reported message =>
              simp only [Outcome.EndsLike, finish]
              split <;> exact ⟨rfl, rfl⟩

section Commands

variable (hOutput : surroundings.streams.TakesOutput) (options : Options) (input : String)
include hOutput

theorem failure?_check (json : Bool) :
    (check surroundings options input json).failure? =
      (checkedProgram surroundings options input).failure? := by
  refine Action.failure?_bind _ fun source => Action.failure?_bind _ fun session => ?_
  cases session.parse source with
  | ok checked =>
      cases json with
      | false => exact Surroundings.failure?_printLines hOutput _
      | true => exact Surroundings.failure?_print hOutput _
  | error diagnostic =>
      cases json with
      | false => rfl
      | true =>
          -- the diagnostic is printed before the command fails
          have hPrinted (text : String) : (surroundings.print text).result = .ok () := by
            rw [Surroundings.result_print, if_pos (hOutput text)]
          rw [Action.failure?, Action.failure?]
          simp only [if_true, Surroundings.printLine, Action.result_bind, hPrinted]
          rfl

theorem failure?_printTree (pretty : Bool) :
    (printTree surroundings options input pretty).failure? =
      (checkedProgram surroundings options input).failure? :=
  Action.failure?_bind_none _ fun _ => Surroundings.failure?_print hOutput _

theorem failure?_format :
    (format surroundings options input none).failure? =
      (checkedProgram surroundings options input).failure? :=
  Action.failure?_bind_none _ fun _ => Surroundings.failure?_print hOutput _

end Commands

/-- The command reads a circuit at the place and prints what it finds. -/
inductive Command.Prints (input : String) : Command → Prop
  | check (json : Bool) : Command.Prints input (.check input json)
  | tree (pretty : Bool) : Command.Prints input (.tree input pretty)
  | format : Command.Prints input (.format input none)

theorem ReadingCommand.prints (reading : ReadingCommand) (input : String) :
    (reading.command input).Prints input := by
  cases reading with
  | check json => exact .check json
  | tree pretty => exact .tree pretty
  | format => exact .format

/-- A command fails exactly if the circuit cannot be read, and for the same reason. -/
theorem Command.Prints.failure?_perform {command : Command} {input : String}
    (h : command.Prints input) (hOutput : surroundings.streams.TakesOutput) (options : Options) :
    (command.perform surroundings options).failure? =
      (checkedProgram surroundings options input).failure? := by
  cases h with
  | check json => exact failure?_check hOutput options input json
  | tree pretty => exact failure?_printTree hOutput options input pretty
  | format => exact failure?_format hOutput options input

theorem runWith_of_invocation {invocation : Invocation}
    (h : readers.arguments arguments = .ok invocation) :
    runWith readers surroundings arguments =
      (invocation.perform readers surroundings).finish surroundings.streams := by
  rw [runWith, h]

theorem runWith_of_departure {departure : Departure}
    (h : readers.arguments arguments = .error departure) :
    runWith readers surroundings arguments = departure.outcome surroundings := by
  rw [runWith, h]

/-- **Agreement.**  Commands that read the same place under the same options end alike. -/
theorem runWith_endsLike (hOutput : surroundings.streams.TakesOutput) {first second : Invocation}
    {input : String} (hFirst : readers.arguments arguments = .ok first)
    (hSecond : readers.arguments others = .ok second)
    (hConfig : first.config = second.config) (hNoCore : first.noCore = second.noCore)
    (hPrints : first.command.Prints input) (hOther : second.command.Prints input) :
    (runWith readers surroundings arguments).EndsLike (runWith readers surroundings others) := by
  rw [runWith_of_invocation hFirst, runWith_of_invocation hSecond]
  apply Action.finish_endsLike
  rw [Invocation.perform, Invocation.perform, hConfig, hNoCore]
  refine Action.failure?_bind _ fun options => ?_
  rw [hPrints.failure?_perform hOutput, hOther.failure?_perform hOutput]

/-- The arguments of the commands that read a circuit are read alike: they mean what they say, or
they are refused with the same exit code. -/
def Readers.ReadsAlike (readers : Readers) : Prop :=
  ∀ (config : Option String) (noCore : Bool) (input : String),
    (∃ exitCode, ∀ reading : ReadingCommand, ∃ output,
      readers.arguments (reading.arguments config noCore input) = .error ⟨exitCode, output⟩) ∨
    ∀ reading : ReadingCommand,
      readers.arguments (reading.arguments config noCore input) =
        .ok ⟨noCore, config, reading.command input⟩

theorem Readers.standard_readsAlike : Readers.standard.ReadsAlike := by
  intro config noCore input
  rcases ReadingCommand.ofArguments_arguments config noCore input with ⟨refusal, hRefused⟩ | hRead
  · refine Or.inl ⟨refusal.departure.exitCode, fun reading => ⟨refusal.departure.output, ?_⟩⟩
    change (Invocation.ofArguments _).mapError Refusal.departure = _
    rw [hRefused reading]
    rfl
  · refine Or.inr fun reading => ?_
    change (Invocation.ofArguments _).mapError Refusal.departure = _
    rw [hRead reading]
    rfl

/-- Whatever the place is, the commands end alike when they are written in the same way. -/
theorem Readers.ReadsAlike.runWith_endsLike (h : readers.ReadsAlike)
    (hOutput : surroundings.streams.TakesOutput) (first second : ReadingCommand)
    (config : Option String) (noCore : Bool) (input : String) :
    (runWith readers surroundings (first.arguments config noCore input)).EndsLike
      (runWith readers surroundings (second.arguments config noCore input)) := by
  rcases h config noCore input with ⟨exitCode, hRefused⟩ | hRead
  · obtain ⟨output, hFirst⟩ := hRefused first
    obtain ⟨output', hSecond⟩ := hRefused second
    rw [runWith_of_departure hFirst, runWith_of_departure hSecond]
    exact ⟨rfl, rfl⟩
  · exact CommandLine.runWith_endsLike hOutput (hRead first) (hRead second) rfl rfl
      (first.prints input) (second.prints input)

/-! ### What a run writes -/

/-- The program that an invocation reads at a place. -/
inductive Surroundings.Reads (surroundings : Surroundings) (readers : Readers)
    (invocation : Invocation) (input : String) : Program → Prop
  | mk {options : Options} {source : String} {session : Session} {checked : CheckedProgram}
      (hOptions :
        (surroundings.options readers invocation.config invocation.noCore).result = .ok options)
      (hSource : (surroundings.source input).result = .ok source)
      (hSession : Session.start options = .ok session)
      (hParse : session.parse source = .ok checked) :
      Surroundings.Reads surroundings readers invocation input checked.program

theorem keepsFiles_bindings (arguments : List String) : (bindings arguments).KeepsFiles := by
  induction arguments with
  | nil => exact Action.keepsFiles_pure _
  | cons argument arguments ih =>
      have hFirst : (binding argument).KeepsFiles := by
        rw [binding]
        split
        · exact Action.keepsFiles_fail _
        · exact (Action.keepsFiles_orFail ..).bind fun _ =>
            (Action.keepsFiles_orFail ..).bind fun _ => Action.keepsFiles_pure _
      exact hFirst.bind fun _ => ih.bind fun _ => Action.keepsFiles_pure _

/-- All commands but one write no file. -/
theorem Command.keepsFiles_perform {command : Command} (options : Options)
    (hOther : ∀ input path, command ≠ .format input (some path)) :
    (command.perform surroundings options).KeepsFiles := by
  have hLine (line : String) : (surroundings.printLine line).KeepsFiles :=
    surroundings.keepsFiles_print _
  have hLines := surroundings.keepsFiles_printLines
  cases command with
  | check input json =>
      refine (keepsFiles_source surroundings input).bind fun source =>
        (keepsFiles_startSession options).bind fun session => ?_
      cases session.parse source with
      | error diagnostic =>
          cases json with
          | false => exact Action.keepsFiles_fail _
          | true => exact (hLine _).bind fun _ => Action.keepsFiles_fail _
      | ok checked =>
          cases json with
          | false => exact hLines _
          | true => exact hLine _
  | tree input pretty =>
      exact (keepsFiles_checkedProgram surroundings options input).bind fun _ => hLine _
  | format input output =>
      cases output with
      | some path => exact absurd rfl (hOther input path)
      | none =>
          exact (keepsFiles_checkedProgram surroundings options input).bind fun program =>
            surroundings.keepsFiles_print program.text
  | gates =>
      refine (keepsFiles_startSession options).bind fun session => ?_
      cases session.library with
      | none => exact hLine _
      | some library => exact hLines _
  | evaluate expression arguments =>
      refine (keepsFiles_bindings arguments).bind fun pairs =>
        (Action.keepsFiles_ofChecked _).bind fun e => ?_
      cases e.evaluate (.ofList pairs) with
      | ok value => exact hLine _
      | error error => exact Action.keepsFiles_fail _
  | release => exact hLines _

/-- That one fails before it writes, or it has read a program, writes it, and prints a line. -/
theorem format_cases (surroundings : Surroundings) (options : Options) (input path : String) :
    (∃ failure, (format surroundings options input (some path)).result = .error failure ∧
      (format surroundings options input (some path)).KeepsFiles) ∨
    ∃ program, (checkedProgram surroundings options input).result = .ok program ∧
      surroundings.accepts path = true ∧
      (format surroundings options input (some path)).writes = [⟨path, program.text⟩] ∧
      (format surroundings options input (some path)).result =
        (surroundings.printLine (confirmation program path)).result := by
  have hRead := keepsFiles_checkedProgram surroundings options input
  cases hProgram : (checkedProgram surroundings options input).result with
  | error failure =>
      refine Or.inl ⟨failure, ?_, ?_⟩
      · rw [format, Action.result_bind, hProgram]
        rfl
      · rw [format, Action.KeepsFiles, Action.writes_bind_of_error hProgram]
        exact hRead
  | ok program =>
      by_cases hAccepts : surroundings.accepts path = true
      · refine Or.inr ⟨program, rfl, hAccepts, ?_, ?_⟩
        · have hLine : (surroundings.printLine (confirmation program path)).KeepsFiles :=
            surroundings.keepsFiles_print _
          have hWrite (message : String) :
              surroundings.write message ⟨path, program.text⟩ =
                ⟨[.write ⟨path, program.text⟩], .ok ()⟩ := if_pos hAccepts
          rw [format, Action.writes_bind_of_ok hProgram, hRead, List.nil_append]
          simp only [hWrite]
          rw [Action.writes_bind_of_ok rfl, hLine]
          rfl
        · simp only [format, Action.result_bind, hProgram, Surroundings.write, if_pos hAccepts]
          rfl
      · refine Or.inl ⟨.reported ("Failed to write output: " ++ path), ?_, ?_⟩
        · simp only [format, Action.result_bind, hProgram, Surroundings.write, if_neg hAccepts]
          rfl
        · have hWrite (message : String) :
              surroundings.write message ⟨path, program.text⟩ = .fail message := if_neg hAccepts
          rw [format, Action.KeepsFiles, Action.writes_bind_of_ok hProgram, hRead]
          simp only [hWrite]
          rfl

/-- An invocation of another command writes no file. -/
theorem Invocation.keepsFiles_perform {invocation : Invocation}
    (hOther : ∀ input path, invocation.command ≠ .format input (some path)) :
    (invocation.perform readers surroundings).KeepsFiles :=
  (keepsFiles_options surroundings readers _ _).bind fun options =>
    Command.keepsFiles_perform options hOther

/-- An invocation of that one reads its options first, and may fail there, too. -/
theorem Invocation.perform_cases {invocation : Invocation} {input path : String}
    (hCommand : invocation.command = .format input (some path)) :
    (∃ failure, (invocation.perform readers surroundings).result = .error failure ∧
      (invocation.perform readers surroundings).KeepsFiles) ∨
    ∃ program, surroundings.Reads readers invocation input program ∧
      surroundings.accepts path = true ∧
      (invocation.perform readers surroundings).writes = [⟨path, program.text⟩] ∧
      (invocation.perform readers surroundings).result =
        (surroundings.printLine (confirmation program path)).result := by
  have hKeeps := keepsFiles_options surroundings readers invocation.config invocation.noCore
  rw [perform, hCommand]
  cases hOptions : (surroundings.options readers invocation.config invocation.noCore).result with
  | error failure =>
      refine Or.inl ⟨failure, ?_, ?_⟩
      · rw [Action.result_bind, hOptions]
        rfl
      · rw [Action.KeepsFiles, Action.writes_bind_of_error hOptions, hKeeps]
  | ok options =>
      have hWrites := Action.writes_bind_of_ok hOptions
        fun options => (Command.format input (some path)).perform surroundings options
      rw [hKeeps, List.nil_append] at hWrites
      have hResult := Action.result_bind
        (surroundings.options readers invocation.config invocation.noCore)
        fun options => (Command.format input (some path)).perform surroundings options
      rw [hOptions] at hResult
      rw [Action.KeepsFiles, hWrites, hResult]
      rcases format_cases surroundings options input path with
        ⟨failure, hFailed, hNone⟩ | ⟨program, hProgram, hAccepts, hFile, hEnd⟩
      · exact Or.inl ⟨failure, hFailed, hNone⟩
      · obtain ⟨source, session, checked, hSource, hSession, hParse, rfl⟩ :=
          checkedProgram_eq_ok.mp hProgram
        exact Or.inr ⟨checked.program, .mk hOptions hSource hSession hParse, hAccepts, hFile,
          hEnd⟩

theorem Action.writes_finish (action : Action Unit) (streams : Streams) :
    (action.finish streams).writes = action.writes := by
  obtain ⟨effects, result⟩ := action
  cases result with
  | ok value => rfl
  | error failure =>
      cases failure with
      | panicked => rfl
      | reported message =>
          simp only [finish]
          split <;> rfl

theorem Action.exitCode_finish_of_error {action : Action Unit}
    (h : ∃ failure, action.result = .error failure) (streams : Streams) :
    (action.finish streams).exitCode ≠ 0 := by
  obtain ⟨failure, hFailed⟩ := h
  rw [finish, hFailed]
  cases failure with
  | panicked => exact (by decide : (101 : UInt32) ≠ 0)
  | reported message =>
      simp only
      split
      · exact (by decide : (1 : UInt32) ≠ 0)
      · exact (by decide : (101 : UInt32) ≠ 0)

theorem Action.exitCode_finish_of_none {action : Action Unit} (h : action.failure? = none)
    (streams : Streams) : (action.finish streams).exitCode = 0 := by
  obtain ⟨effects, result⟩ := action
  cases result with
  | ok value => rfl
  | error failure => cases h

/-- An action that ends as the printing of a text does. -/
theorem Action.exitCode_finish_of_print {action : Action Unit} {text : String}
    (h : action.result = (surroundings.print text).result) (streams : Streams) :
    (action.finish streams).exitCode = if surroundings.streams.prints text then 0 else 101 := by
  rw [finish, h, Surroundings.result_print]
  cases surroundings.streams.prints text <;> rfl

/-- A run is to format a circuit to a file. -/
def Readers.Formats (readers : Readers) (arguments : List String) (invocation : Invocation)
    (input path : String) : Prop :=
  readers.arguments arguments = .ok invocation ∧ invocation.command = .format input (some path)

/-- A run writes no file, and fails if it is to format a circuit to a file; or it does so.  Then
the exit code is zero, unless the line that confirms it is refused. -/
theorem runWith_cases (readers : Readers) (surroundings : Surroundings)
    (arguments : List String) :
    ((runWith readers surroundings arguments).writes = [] ∧
      ∀ invocation input path, readers.Formats arguments invocation input path →
        (runWith readers surroundings arguments).exitCode ≠ 0) ∨
    ∃ invocation input path program, readers.Formats arguments invocation input path ∧
      surroundings.Reads readers invocation input program ∧ surroundings.accepts path = true ∧
      (runWith readers surroundings arguments).writes = [⟨path, program.text⟩] ∧
      (runWith readers surroundings arguments).exitCode =
        if surroundings.streams.prints (confirmation program path ++ "\n") then 0 else 101 := by
  cases hArguments : readers.arguments arguments with
  | error departure =>
      rw [runWith_of_departure hArguments]
      refine Or.inl ⟨surroundings.keepsFiles_print _, fun invocation input path hFormats => ?_⟩
      rw [Readers.Formats, hArguments] at hFormats
      cases hFormats.1
  | ok invocation =>
      rw [runWith_of_invocation hArguments, Action.writes_finish]
      by_cases hCommand : ∃ input path, invocation.command = .format input (some path)
      · obtain ⟨input, path, hCommand⟩ := hCommand
        rcases @Invocation.perform_cases readers surroundings _ _ _ hCommand with
          ⟨failure, hFailed, hNone⟩ | ⟨program, hReads, hAccepts, hWrites, hEnd⟩
        · exact Or.inl ⟨hNone, fun _ _ _ _ => Action.exitCode_finish_of_error ⟨failure, hFailed⟩ _⟩
        · exact Or.inr ⟨invocation, input, path, program, ⟨hArguments, hCommand⟩, hReads, hAccepts,
            hWrites, Action.exitCode_finish_of_print hEnd _⟩
      · refine Or.inl ⟨Invocation.keepsFiles_perform fun input path hFormat =>
          hCommand ⟨input, path, hFormat⟩, fun other input path hFormats => ?_⟩
        obtain rfl := Except.ok.inj (hArguments.symm.trans hFormats.1)
        exact absurd ⟨input, path, hFormats.2⟩ hCommand

/-! ### Trees of files -/

namespace FileTree

/-- What is accepted as an output has names. -/
theorem exists_names_of_accepts {tree : FileTree} {path : String}
    (h : tree.accepts path = true) : ∃ names, tree.resolve path = some names := by
  rw [accepts] at h
  cases hNames : tree.resolve path with
  | some names => exact ⟨names, rfl⟩
  | none =>
      rw [hNames] at h
      cases h

theorem node_put (tree : FileTree) (names other : List String) (content : ByteArray) :
    (tree.put names content).node other =
      if other = names then .file content else tree.node other := rfl

theorem after_of_none {tree : FileTree} {outcome : Outcome} (h : outcome.writes = []) :
    tree.after outcome = tree := by
  rw [after, h]
  rfl

theorem after_of_one {tree : FileTree} {outcome : Outcome} {written : WrittenFile}
    {names : List String} (h : outcome.writes = [written])
    (hNames : tree.resolve written.path = some names) :
    tree.after outcome = tree.put names written.content.toUTF8 := by
  rw [after, h, List.foldl_cons, List.foldl_nil, store, hNames]

/-- The outcome of a run in a tree. -/
def run (tree : FileTree) (readers : Readers) (streams : Streams) (arguments : List String) :
    Outcome :=
  runWith readers (tree.surroundings streams) arguments

section Run

variable {tree : FileTree} {streams : Streams}

/-- A run that fails changes no file, unless the line that confirms the change is refused. -/
theorem after_of_failed (hExit : (tree.run readers streams arguments).exitCode ≠ 0) :
    tree.after (tree.run readers streams arguments) = tree ∨
      (tree.run readers streams arguments).exitCode = 101 ∧
        ∃ program path, streams.prints (confirmation program path ++ "\n") = false := by
  rcases runWith_cases readers (tree.surroundings streams) arguments with
    ⟨hNone, -⟩ | ⟨invocation, input, path, program, -, -, -, -, hEnd⟩
  · exact Or.inl (after_of_none hNone)
  · refine Or.inr ?_
    rw [run] at hExit ⊢
    rw [hEnd] at hExit ⊢
    cases hPrinted : (tree.surroundings streams).streams.prints
        (confirmation program path ++ "\n") with
    | true =>
        rw [hPrinted] at hExit
        exact absurd rfl hExit
    | false => exact ⟨rfl, program, path, hPrinted⟩

/-- A run that is not to format a circuit to a file changes no file. -/
theorem after_of_other
    (hOther : ∀ invocation input path, ¬readers.Formats arguments invocation input path) :
    tree.after (tree.run readers streams arguments) = tree := by
  rcases runWith_cases readers (tree.surroundings streams) arguments with
    ⟨hNone, -⟩ | ⟨invocation, input, path, program, hFormats, -⟩
  · exact after_of_none hNone
  · exact absurd hFormats (hOther invocation input path)

/-- A run that is to do so, and succeeds, puts the text of the program at the path. -/
theorem after_of_formats {invocation : Invocation} {input path : String}
    (hFormats : readers.Formats arguments invocation input path)
    (hExit : (tree.run readers streams arguments).exitCode = 0) :
    ∃ names program, tree.resolve path = some names ∧
      (tree.surroundings streams).Reads readers invocation input program ∧
      tree.after (tree.run readers streams arguments) =
        tree.put names program.text.toUTF8 := by
  rcases runWith_cases readers (tree.surroundings streams) arguments with
    ⟨-, hFails⟩ | ⟨other, input', path', program, hOther, hReads, hAccepts, hWrites, -⟩
  · exact absurd hExit (hFails invocation input path hFormats)
  · -- the invocation is the one that was read, and so are its paths
    obtain rfl := Except.ok.inj (hOther.1.symm.trans hFormats.1)
    have hPaths := hOther.2.symm.trans hFormats.2
    rw [Command.format.injEq, Option.some.injEq] at hPaths
    obtain ⟨rfl, rfl⟩ := hPaths
    obtain ⟨names, hNames⟩ := exists_names_of_accepts hAccepts
    exact ⟨names, program, hNames, hReads, after_of_one hWrites hNames⟩

end Run

/-- A directory with one circuit. -/
def oneCircuit : FileTree := Directory.tree ⟨[⟨["c"], "creg c[1];".toUTF8⟩]⟩

/-- Nothing is on the standard input. -/
def emptyInput : Streams := .usual .empty

theorem source_oneCircuit :
    ((oneCircuit.surroundings emptyInput).source "/work/c").result = .ok "creg c[1];" := by
  have hEntry : (oneCircuit.surroundings emptyInput).entry "/work/c" =
      .file "creg c[1];".toUTF8 := rfl
  rw [Surroundings.source, hEntry, Surroundings.text?, hEntry]
  rfl

/-- The text of the program of a text, without the library. -/
def formatted? (source : String) : Option String :=
  match Session.start ⟨false⟩ with
  | .ok session => (session.parse source).toOption.map fun checked => checked.program.text
  | .error _ => none

theorem formatted?_oneCircuit : formatted? "creg c[1];" = some "creg c[1];\n" := by
  decide +kernel

/-- The invocation that formats the circuit in its own place. -/
def formatInPlace : Invocation := ⟨true, none, .format "/work/c" (some "../work/c")⟩

theorem reads_oneCircuit {program : Program}
    (h : (oneCircuit.surroundings emptyInput).Reads .standard formatInPlace "/work/c" program) :
    program.text = "creg c[1];\n" := by
  obtain @⟨options, source, session, checked, hOptions, hSource, hSession, hParse⟩ := h
  obtain rfl : (⟨false⟩ : Options) = options := Except.ok.inj hOptions
  obtain rfl : "creg c[1];" = source := Except.ok.inj (source_oneCircuit.symm.trans hSource)
  have hText := formatted?_oneCircuit
  rw [formatted?, hSession] at hText
  simp only [hParse] at hText
  exact Option.some.inj hText

theorem exitCode_formatInPlace :
    (oneCircuit.run .standard emptyInput
      ["--no-core", "fmt", "/work/c", "-o", "../work/c"]).exitCode = 0 := by
  have hInvocation : Readers.standard.arguments ["--no-core", "fmt", "/work/c", "-o", "../work/c"] =
      .ok formatInPlace := rfl
  have hRead : (checkedProgram (oneCircuit.surroundings emptyInput) ⟨false⟩ "/work/c").failure? =
      none := by
    rw [Action.failure?, checkedProgram, Action.result_bind, source_oneCircuit]
    decide +kernel
  have hFormat : (format (oneCircuit.surroundings emptyInput) ⟨false⟩ "/work/c"
      (some "../work/c")).failure? = none := by
    have hAccepts : oneCircuit.accepts "../work/c" = true := rfl
    refine (Action.failure?_bind_none _ fun program => ?_).trans hRead
    simp only [surroundings, Surroundings.write, hAccepts, if_true]
    rfl
  rw [run, runWith_of_invocation hInvocation]
  exact Action.exitCode_finish_of_none hFormat _

theorem exitCode_format_missing :
    (oneCircuit.run .standard emptyInput ["fmt", "d", "-o", "c"]).exitCode = 1 := by rfl

end FileTree

end CommandLine
end QuantumCircuit
