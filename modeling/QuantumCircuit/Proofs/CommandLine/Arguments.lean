import Mathlib.Tactic.Common
import QuantumCircuit.CommandLine.Arguments

/-!
# Arguments of the commands that read a circuit

Three commands read a circuit from a place that is named by one argument.  Whatever this argument
is, either all of them take it for the place, or all of them refuse it for the same reason.

* `asksForHelp` : the arguments that ask for help in place of a circuit.
* `ReadingCommand` : the commands, without an output file.
* `ReadingCommand.ofArguments_arguments` : how their arguments are read.
-/

namespace QuantumCircuit
namespace CommandLine

/-! ### One argument -/

/-- The argument is no switch on any side of the name of a command. -/
def IsOperand (argument : String) : Prop :=
  argument ≠ "--" ∧ ∀ level : Level, level.look false argument = .operand

/-- What an argument looks like is the same on all sides, unless it may be a free form. -/
theorem Level.look_false (level other : Level) (argument : String) :
    level.look false argument = other.look false argument := rfl

/-- Do letters behind one hyphen ask for help?  The only other letter that all commands have, and
that asks for no value, is that of `verbose`. -/
def lettersAskForHelp : List Char → Bool
  | [] => false
  | letter :: letters => letter = 'h' || letter = 'v' && lettersAskForHelp letters

/-- Does an argument ask for help? -/
def asksForHelp (argument : String) : Bool :=
  match Level.outer.look false argument with
  | .operand => false
  | .named name value => name = "help" && value.isNone
  | .lettered letters => lettersAskForHelp letters

/-- Why an argument is refused that is no place to read from. -/
def helpOr (asked : Bool) : Refusal := if asked then .help else .badUsage

/-- Either the arguments are refused, and help is given if it is asked for, or those that are no
switches are the same as before. -/
def KeepsOperands {α : Type} (gathered : Gathered) (asked : Bool)
    (result : Except Refusal (Gathered × α)) : Prop :=
  result = .error (helpOr asked) ∨
    asked = false ∧ ∃ noted value, result = .ok (noted, value) ∧
      noted.operands = gathered.operands

variable {level : Level} {gathered : Gathered}

theorem Gathered.record_verbose (value : String) :
    gathered.record .verbose value =
      .ok ⟨gathered.settings ++ [(.verbose, value)], gathered.operands⟩ := by
  simp [Gathered.record, Switch.repeats]

theorem Gathered.record_cases {switch : Switch} (hRelease : switch ≠ .release)
    (hHelp : switch ≠ .help) (value : String) :
    gathered.record switch value = .error .badUsage ∨
      ∃ noted, gathered.record switch value = .ok noted ∧
        noted.operands = gathered.operands := by
  rw [Gathered.record, if_neg hRelease, if_neg hHelp]
  split
  · exact Or.inl rfl
  · exact Or.inr ⟨_, rfl, rfl⟩

/-- Noting one use of a switch keeps what is no switch. -/
theorem keepsOperands_record {next : Option Switch} {used : Switch}
    (hRelease : used ≠ .release) (hHelp : used ≠ .help) (value : String) :
    KeepsOperands gathered false
      (gathered.record used value >>= fun noted => .ok (noted, next)) := by
  rcases gathered.record_cases hRelease hHelp value with hBad | ⟨noted, hNoted, hOperands⟩
  · rw [hBad]
    exact Or.inl rfl
  · rw [hNoted]
    exact Or.inr ⟨rfl, noted, next, rfl, hOperands⟩

/-- A level that takes one argument behind its switches, and gives help. -/
structure Level.TakesOne (level : Level) : Prop where
  capacity : level.capacity = 1
  fixedForm : level.freeForm = false
  behind : level.namesCommand = false
  noRelease : Switch.release ∉ level.switches
  help : Switch.help ∈ level.switches
  verbose : Switch.verbose ∈ level.switches

namespace Level

variable (hLevel : level.TakesOne)
include hLevel

theorem named?_eq_help {name : String} : level.named? name = some .help ↔ name = "help" := by
  constructor
  · intro h
    have hName := List.find?_some h
    exact (of_decide_eq_true hName).symm
  · rintro rfl
    obtain ⟨switch, hSwitch⟩ : ∃ switch, level.named? "help" = some switch :=
      Option.isSome_iff_exists.mp (List.find?_isSome.mpr ⟨.help, hLevel.help, by decide⟩)
    have hName := List.find?_some hSwitch
    rw [hSwitch]
    cases switch <;> first | rfl | exact absurd hName (by decide)

theorem named?_ne_release {name : String} {switch : Switch}
    (h : level.named? name = some switch) : switch ≠ .release := by
  rintro rfl
  exact hLevel.noRelease (List.mem_of_find?_eq_some h)

/-- The letters that ask for no value are those of `help` and `verbose`. -/
theorem lettered?_flag {letter : Char} {switch : Switch}
    (h : level.lettered? letter = some switch) (hFlag : switch.takesValue = false) :
    letter = 'h' ∧ switch = .help ∨ letter = 'v' ∧ switch = .verbose := by
  have hLetter := List.find?_some h
  have hMember := List.mem_of_find?_eq_some h
  cases switch with
  | help => exact Or.inl ⟨by simpa [Switch.letter?, eq_comm] using hLetter, rfl⟩
  | verbose => exact Or.inr ⟨by simpa [Switch.letter?, eq_comm] using hLetter, rfl⟩
  | release => exact absurd hMember hLevel.noRelease
  | output => cases hFlag
  | bind => cases hFlag
  | _ => simp [Switch.letter?] at hLetter

theorem lettered?_isFlag {letter : Char} (h : letter = 'h' ∨ letter = 'v') :
    ∃ switch, level.lettered? letter = some switch ∧ switch.takesValue = false := by
  have hSome : (level.lettered? letter).isSome = true := by
    rcases h with rfl | rfl
    · exact List.find?_isSome.mpr ⟨.help, hLevel.help, by decide⟩
    · exact List.find?_isSome.mpr ⟨.verbose, hLevel.verbose, by decide⟩
  obtain ⟨switch, hSwitch⟩ := Option.isSome_iff_exists.mp hSome
  have hLetter := List.find?_some hSwitch
  refine ⟨switch, hSwitch, ?_⟩
  rcases h with rfl | rfl
  · cases switch <;> first | rfl | exact absurd hLetter (by decide)
  · cases switch <;> first | rfl | exact absurd hLetter (by decide)

theorem useName_keeps (name : String) (value : Option String) :
    KeepsOperands gathered (name = "help" && value.isNone) (level.useName gathered name value) := by
  rw [Level.useName]
  cases hSwitch : level.named? name with
  | none =>
      have hOther : name ≠ "help" := by
        rw [ne_eq, ← named?_eq_help hLevel, hSwitch]
        exact Option.some_ne_none _ ∘ Eq.symm
      rw [decide_eq_false hOther]
      exact Or.inl rfl
  | some switch =>
      have hRelease := named?_ne_release hLevel hSwitch
      by_cases hHelp : switch = .help
      · -- help, unless there is a value
        subst hHelp
        rw [decide_eq_true ((named?_eq_help hLevel).mp hSwitch)]
        cases value with
        | none => exact Or.inl rfl
        | some value => exact Or.inl rfl
      · have hOther : name ≠ "help" := fun hName => by
          rw [(named?_eq_help hLevel).mpr hName] at hSwitch
          exact hHelp (Option.some.inj hSwitch).symm
        rw [decide_eq_false hOther, Bool.false_and]
        simp only
        split
        · exact Or.inr ⟨rfl, gathered, some switch, rfl, rfl⟩
        · exact Or.inl rfl
        · exact keepsOperands_record hRelease hHelp _

theorem useLetters_keeps (letters : List Char) :
    KeepsOperands gathered (lettersAskForHelp letters) (level.useLetters gathered letters) := by
  induction letters generalizing gathered with
  | nil => exact Or.inr ⟨rfl, gathered, none, rfl, rfl⟩
  | cons letter letters ih =>
      rw [Level.useLetters, lettersAskForHelp]
      by_cases hCommon : letter = 'h' ∨ letter = 'v'
      · obtain ⟨switch, hSwitch, hFlag⟩ := lettered?_isFlag hLevel hCommon
        simp only [hSwitch, hFlag]
        rcases lettered?_flag hLevel hSwitch hFlag with ⟨rfl, rfl⟩ | ⟨rfl, rfl⟩
        · exact Or.inl rfl
        · rw [if_neg Bool.false_ne_true, Gathered.record_verbose]
          exact @ih ⟨gathered.settings ++ [(.verbose, "")], gathered.operands⟩
      · rw [not_or] at hCommon
        rw [decide_eq_false hCommon.1, decide_eq_false hCommon.2]
        cases hSwitch : level.lettered? letter with
        | none => exact Or.inl rfl
        | some switch =>
            have hValue : switch.takesValue = true := by
              by_contra hFlag
              rw [Bool.not_eq_true] at hFlag
              rcases lettered?_flag hLevel hSwitch hFlag with ⟨hLetter, -⟩ | ⟨hLetter, -⟩
              · exact hCommon.1 hLetter
              · exact hCommon.2 hLetter
            have hRelease : switch ≠ .release := fun h => by simp [h, Switch.takesValue] at hValue
            have hHelp : switch ≠ .help := fun h => by simp [h, Switch.takesValue] at hValue
            simp only [hValue, if_true]
            split
            · exact Or.inr ⟨rfl, gathered, some switch, rfl, rfl⟩
            · exact keepsOperands_record hRelease hHelp _
            · exact keepsOperands_record hRelease hHelp _

end Level

/-- Nothing behind a switch is gathered, unless the switch asks for a value. -/
theorem keepsOperands_gather_nil {asked : Bool} {result : Except Refusal (Gathered × Option Switch)}
    (h : KeepsOperands gathered asked result) :
    KeepsOperands gathered asked (result >>= fun found => level.gather found.2 found.1 []) := by
  rcases h with rfl | ⟨rfl, noted, next, rfl, hOperands⟩
  · exact Or.inl rfl
  · show KeepsOperands gathered false (level.gather next noted [])
    rw [Level.gather]
    split
    · exact Or.inl rfl
    · exact Or.inr ⟨rfl, noted, [], rfl, hOperands⟩

/-- What becomes of a last argument. -/
theorem Level.gather_last (hLevel : level.TakesOne) (argument : String) :
    level.gather none gathered [argument] =
      if argument = "--" then
        gathered.addOperands level [] >>= fun noted => .ok (noted, [])
      else
        match level.look false argument with
        | .operand =>
          gathered.addOperands level [argument] >>= fun noted => level.gather none noted []
        | .named name value =>
          level.useName gathered name value >>= fun found => level.gather found.2 found.1 []
        | .lettered letters =>
          level.useLetters gathered letters >>= fun found => level.gather found.2 found.1 [] := by
  rw [Level.gather.eq_def]
  simp only [hLevel.fixedForm, hLevel.behind, Bool.false_and, Option.isSome_none, Bool.or_false,
    Bool.false_eq_true, if_false]
  cases level.look false argument <;> rfl

/-- The last argument is taken if it is no switch. -/
theorem Level.gather_operand (hLevel : level.TakesOne) (hNone : gathered.operands = [])
    {argument : String} (h : IsOperand argument) :
    level.gather none gathered [argument] = .ok (⟨gathered.settings, [argument]⟩, []) := by
  obtain ⟨hDashes, hLook⟩ := h
  have hAdded : gathered.addOperands level [argument] = .ok ⟨gathered.settings, [argument]⟩ := by
    simp [Gathered.addOperands, hNone, hLevel.capacity]
  rw [Level.gather_last hLevel, if_neg hDashes, hLook level]
  simp only [hAdded]
  rfl

/-- Otherwise nothing is taken. -/
theorem Level.gather_switch (hLevel : level.TakesOne) (hNone : gathered.operands = [])
    {argument : String} (h : ¬ IsOperand argument) :
    KeepsOperands gathered (asksForHelp argument) (level.gather none gathered [argument]) := by
  rw [Level.gather_last hLevel]
  split
  · -- two hyphens with nothing behind them
    rename_i hDashes
    have hAdded : gathered.addOperands level [] = .ok ⟨gathered.settings, []⟩ := by
      simp [Gathered.addOperands, hNone]
    rw [hAdded, hDashes]
    exact Or.inr ⟨by decide, _, [], rfl, hNone.symm⟩
  · rename_i hDashes
    rw [asksForHelp, Level.outer.look_false level]
    split
    · rename_i hLook
      exact absurd ⟨hDashes, fun other => (other.look_false level argument).trans hLook⟩ h
    · exact keepsOperands_gather_nil (Level.useName_keeps hLevel _ _)
    · exact keepsOperands_gather_nil (Level.useLetters_keeps hLevel _)

/-- A switch that asks for a value takes an argument that is no switch. -/
theorem Level.gather_value (hFixed : level.freeForm = false) (switch : Switch) {argument : String}
    (h : IsOperand argument) (rest : List String) :
    level.gather (some switch) gathered (argument :: rest) =
      gathered.record switch argument >>= fun noted => level.gather none noted rest := by
  obtain ⟨hDashes, hLook⟩ := h
  rw [Level.gather.eq_def]
  simp only [hFixed, Bool.false_and, if_neg hDashes, hLook level]

theorem Level.gather_noValue (hFixed : level.freeForm = false) (switch : Switch)
    {argument : String} (h : ¬ IsOperand argument) (rest : List String) :
    level.gather (some switch) gathered (argument :: rest) = .error .badUsage := by
  rw [Level.gather.eq_def]
  simp only [hFixed, Bool.false_and, Option.isSome_some, Bool.true_or, if_true]
  split
  · rfl
  · rename_i hDashes
    cases hLook : level.look false argument with
    | operand =>
        exact absurd ⟨hDashes, fun other => (other.look_false level argument).trans hLook⟩ h
    | named name value => rfl
    | lettered letters => rfl

/-- In front of the name of a command no argument is gathered but switches. -/
theorem Level.gather_name (settings : List (Switch × String)) (name : CommandName)
    (rest : List String) :
    Level.outer.gather none ⟨settings, []⟩ (name.text :: rest) =
      .ok (⟨settings, []⟩, name.text :: rest) := by
  cases name <;> rfl

/-! ### The commands that read a circuit -/

/-- The commands that read a circuit and print what they find. -/
inductive ReadingCommand where
  | check (json : Bool)
  | tree (pretty : Bool)
  | format
deriving DecidableEq, Repr

/-- The arguments in front of the name of a command. -/
def sharedArguments (config : Option String) (noCore : Bool) : List String :=
  (match config with
    | some path => ["--config", path]
    | none => []) ++ if noCore then ["--no-core"] else []

/-- The settings of these arguments. -/
def sharedSettings (config : Option String) (noCore : Bool) : List (Switch × String) :=
  (match config with
    | some path => [(.config, path)]
    | none => []) ++ if noCore then [(.noCore, "")] else []

namespace ReadingCommand

/-- The name of the command. -/
def name : ReadingCommand → CommandName
  | check _ => .check
  | tree _ => .tree
  | format => .format

/-- The switches of its own that are used. -/
def switches : ReadingCommand → List String
  | check json => if json then ["--json"] else []
  | tree pretty => if pretty then ["--pretty"] else []
  | format => []

/-- The settings of these switches. -/
def settings : ReadingCommand → List (Switch × String)
  | check json => if json then [(.json, "")] else []
  | tree pretty => if pretty then [(.pretty, "")] else []
  | format => []

/-- The command with the place that it reads. -/
def command (input : String) : ReadingCommand → Command
  | check json => .check input json
  | tree pretty => .tree input pretty
  | format => .format input none

/-- The arguments of a run that reads `input`. -/
def arguments (reading : ReadingCommand) (config : Option String) (noCore : Bool)
    (input : String) : List String :=
  sharedArguments config noCore ++ reading.name.text :: (reading.switches ++ [input])

variable (reading : ReadingCommand)

theorem level_takesOne : reading.name.level.TakesOne := by
  cases reading <;>
    exact ⟨rfl, rfl, rfl, by simp [name, CommandName.level, commonSwitches],
      by simp [name, CommandName.level, commonSwitches],
      by simp [name, CommandName.level, commonSwitches]⟩

theorem find_name : CommandName.all.find? (fun name => name.text = reading.name.text) =
    some reading.name := by
  cases reading <;> rfl

/-- The switches of the command are noted, and the last argument is left. -/
theorem gather_switches (input : String) :
    reading.name.level.gather none .empty (reading.switches ++ [input]) =
      reading.name.level.gather none ⟨reading.settings, []⟩ [input] := by
  cases reading with
  | check json => cases json <;> rfl
  | tree pretty => cases pretty <;> rfl
  | format => rfl

/-- With the last argument for its place the command is complete. -/
theorem command_of_operand (input : String) :
    reading.name.command ⟨reading.settings, [input]⟩ = .ok (reading.command input) := by
  cases reading with
  | check json => cases json <;> rfl
  | tree pretty => cases pretty <;> rfl
  | format => rfl

/-- Without a place to read from it is not. -/
theorem command_of_none {inner : Gathered} (h : inner.operands = []) :
    reading.name.command inner = .error .badUsage := by
  cases reading <;> simp [name, CommandName.command, h]

/-- What stands in front of the name of the command is the same for all commands. -/
theorem gather_shared {config : Option String} (hConfig : ∀ path ∈ config, IsOperand path)
    (noCore : Bool) (rest : List String) :
    Level.outer.gather none .empty (sharedArguments config noCore ++ reading.name.text :: rest) =
      .ok (⟨sharedSettings config noCore, []⟩, reading.name.text :: rest) := by
  have hWord (settings : List (Switch × String)) :=
    Level.gather_name settings reading.name rest
  cases config with
  | none =>
      cases noCore with
      | false => exact hWord []
      | true => exact hWord [(.noCore, "")]
  | some path =>
      have hValue (more : List String) :
          Level.outer.gather none .empty ("--config" :: path :: more) =
            Level.outer.gather none ⟨[(.config, path)], []⟩ more :=
        Level.gather_value rfl .config (hConfig path rfl) more
      cases noCore with
      | false => exact (hValue _).trans (hWord _)
      | true => exact (hValue _).trans (hWord [(.config, path), (.noCore, "")])

/-- The configuration must be named by an argument that is no switch. -/
theorem gather_badConfig {path : String} (h : ¬ IsOperand path) (noCore : Bool)
    (rest : List String) :
    Level.outer.gather none .empty (sharedArguments (some path) noCore ++ rest) =
      .error .badUsage :=
  Level.gather_noValue rfl .config h _

theorem uses_sharedSettings (config : Option String) (noCore : Bool) (operands : List String) :
    Gathered.uses ⟨sharedSettings config noCore, operands⟩ .noCore = noCore := by
  cases config <;> cases noCore <;> simp [Gathered.uses, sharedSettings]

theorem values_sharedSettings (config : Option String) (noCore : Bool) (operands : List String) :
    Gathered.values ⟨sharedSettings config noCore, operands⟩ .config = config.toList := by
  cases config <;> cases noCore <;> simp [Gathered.values, sharedSettings]

/-- The switches of the commands themselves say nothing about the options. -/
theorem uses_settings (operands : List String) :
    Gathered.uses ⟨reading.settings, operands⟩ .noCore = false := by
  cases reading <;> simp [Gathered.uses, settings]

theorem values_settings (operands : List String) :
    Gathered.values ⟨reading.settings, operands⟩ .config = [] := by
  cases reading <;> simp [Gathered.values, settings]

/-- Once the arguments in front are read, those behind the name decide. -/
theorem ofArguments_eq {config : Option String} (hConfig : ∀ path ∈ config, IsOperand path)
    (noCore : Bool) (input : String) :
    Invocation.ofArguments (reading.arguments config noCore input) =
      reading.name.level.gather none ⟨reading.settings, []⟩ [input] >>= fun found =>
        reading.name.command found.1 >>= fun command =>
          .ok ⟨Gathered.uses ⟨sharedSettings config noCore, []⟩ .noCore || found.1.uses .noCore,
            (found.1.values .config ++
              Gathered.values ⟨sharedSettings config noCore, []⟩ .config).head?, command⟩ := by
  rw [Invocation.ofArguments, arguments, reading.gather_shared hConfig]
  simp only [bind, Except.bind, reading.find_name, reading.gather_switches]
  rfl

/-- The arguments mean what they say, for all commands alike, or all of the commands refuse them
for the same reason. -/
theorem ofArguments_arguments (config : Option String) (noCore : Bool) (input : String) :
    (∃ refusal, ∀ reading : ReadingCommand,
      Invocation.ofArguments (reading.arguments config noCore input) = .error refusal) ∨
    ∀ reading : ReadingCommand,
      Invocation.ofArguments (reading.arguments config noCore input) =
        .ok ⟨noCore, config, reading.command input⟩ := by
  by_cases hConfig : ∀ path ∈ config, IsOperand path
  · by_cases hInput : IsOperand input
    · refine Or.inr fun reading => ?_
      have hInner := Level.gather_operand reading.level_takesOne
        (rfl : (⟨reading.settings, []⟩ : Gathered).operands = []) hInput
      rw [reading.ofArguments_eq hConfig, hInner]
      simp only [bind, Except.bind, command_of_operand, uses_sharedSettings,
        values_sharedSettings, uses_settings, values_settings, Bool.or_false, List.nil_append,
        Option.head?_toList]
    · refine Or.inl ⟨helpOr (asksForHelp input), fun reading => ?_⟩
      have hInner := Level.gather_switch reading.level_takesOne
        (rfl : (⟨reading.settings, []⟩ : Gathered).operands = []) hInput
      rw [reading.ofArguments_eq hConfig]
      rcases hInner with hRefused | ⟨hAsked, noted, rest, hNoted, hNone⟩
      · rw [hRefused]
        rfl
      · rw [hNoted, hAsked]
        simp only [bind, Except.bind, reading.command_of_none hNone]
        rfl
  · refine Or.inl ⟨.badUsage, fun reading => ?_⟩
    push Not at hConfig
    obtain ⟨path, rfl, hPath⟩ := hConfig
    rw [Invocation.ofArguments, arguments, gather_badConfig hPath]
    rfl

end ReadingCommand

end CommandLine
end QuantumCircuit
