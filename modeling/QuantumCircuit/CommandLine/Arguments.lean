namespace QuantumCircuit
namespace CommandLine

/-!
# Command-line arguments

Arguments are switches, the name of a command, and what the command is applied
to.  A switch is known by a long name behind two hyphens, and perhaps by a letter
behind one.  Some switches take a value: behind an equals sign, right behind the
letter, or as the next argument.  Letters may share one hyphen.  Two hyphens alone
end the switches, and one hyphen alone is no switch.

Switches stand before or behind the name of the command.  Those before it are only
the ones that every command has.  On either side a switch may be used once, unless
it may be repeated; a value behind the name wins.

Help and the version number may be asked for in place of a command.  The wording of
the help belongs to the library that reads arguments, and is left out here.
-/

/-- The switches. -/
inductive Switch where
  | verbose
  | noCore
  | config
  | json
  | pretty
  | output
  | bind
  | release
  | help
deriving DecidableEq, Repr

namespace Switch

/-- The name behind two hyphens. -/
def long : Switch → String
  | verbose => "verbose"
  | noCore => "no-core"
  | config => "config"
  | json => "json"
  | pretty => "pretty"
  | output => "output"
  | bind => "bind"
  | release => "version"
  | help => "help"

/-- The letter behind one hyphen. -/
def letter? : Switch → Option Char
  | verbose => some 'v'
  | output => some 'o'
  | bind => some 'b'
  | release => some 'V'
  | help => some 'h'
  | _ => none

/-- Does the switch take a value? -/
def takesValue : Switch → Bool
  | config | output | bind => true
  | _ => false

/-- May the switch be used more than once? -/
def repeats : Switch → Bool
  | verbose | bind => true
  | _ => false

end Switch

/-- The names of the commands. -/
inductive CommandName where
  | check
  | tree
  | format
  | gates
  | evaluate
  | release
deriving DecidableEq, Repr

namespace CommandName

/-- The name as it is written. -/
def text : CommandName → String
  | check => "check"
  | tree => "ast"
  | format => "fmt"
  | gates => "gates"
  | evaluate => "eval"
  | release => "version"

/-- Every command. -/
def all : List CommandName := [check, tree, format, gates, evaluate, release]

end CommandName

/-- What may stand on one side of the name of a command. -/
structure Level where
  switches : List Switch
  /-- How many arguments that are no switches may stand here. -/
  capacity : Nat
  /-- May such an argument look like a switch that is not known here? -/
  freeForm : Bool
  /-- Does the first such argument name a command? -/
  namesCommand : Bool
deriving Repr

/-- The switches that every command has. -/
def commonSwitches : List Switch := [.verbose, .noCore, .config, .help]

/-- What may stand before the name of the command. -/
def Level.outer : Level := ⟨.release :: commonSwitches, 0, false, true⟩

/-- What may stand behind the name of a command.  Only an expression may look like a switch. -/
def CommandName.level : CommandName → Level
  | check => ⟨.json :: commonSwitches, 1, false, false⟩
  | tree => ⟨.pretty :: commonSwitches, 1, false, false⟩
  | format => ⟨.output :: commonSwitches, 1, false, false⟩
  | gates => ⟨commonSwitches, 0, false, false⟩
  | evaluate => ⟨.bind :: commonSwitches, 1, true, false⟩
  | release => ⟨commonSwitches, 0, false, false⟩

/-- Why arguments do not make up a command. -/
inductive Refusal where
  | badUsage
  /-- Help is asked for in place of a command. -/
  | help
  /-- The version number is asked for in place of a command. -/
  | release
deriving DecidableEq, Repr

/-- The arguments of one side, in order. -/
structure Gathered where
  settings : List (Switch × String)
  operands : List String
deriving Repr

namespace Gathered

/-- No arguments. -/
def empty : Gathered := ⟨[], []⟩

/-- Was the switch used? -/
def uses (gathered : Gathered) (switch : Switch) : Bool :=
  gathered.settings.any fun setting => setting.1 = switch

/-- The values of a switch in order. -/
def values (gathered : Gathered) (switch : Switch) : List String :=
  (gathered.settings.filter fun setting => setting.1 = switch).map Prod.snd

/-- Notes the use of a switch. -/
def record (gathered : Gathered) (switch : Switch) (value : String) :
    Except Refusal Gathered :=
  if switch = .release then .error .release
  else if switch = .help then .error .help
  else if gathered.uses switch && !switch.repeats then .error .badUsage
  else .ok ⟨gathered.settings ++ [(switch, value)], gathered.operands⟩

/-- Notes arguments that are no switches. -/
def addOperands (gathered : Gathered) (level : Level) (operands : List String) :
    Except Refusal Gathered :=
  let more := gathered.operands ++ operands
  if more.length ≤ level.capacity then .ok ⟨gathered.settings, more⟩ else .error .badUsage

end Gathered

/-- What an argument looks like. -/
inductive Look where
  | operand
  | named (name : String) (value : Option String)
  | lettered (letters : List Char)
deriving DecidableEq, Repr

namespace Level

/-- The switch with a long name. -/
def named? (level : Level) (name : String) : Option Switch :=
  level.switches.find? fun switch => switch.long = name

/-- The switch with a letter. -/
def lettered? (level : Level) (letter : Char) : Option Switch :=
  level.switches.find? fun switch => switch.letter? = some letter

/-- Splits a long name from the value behind an equals sign. -/
def splitValue (text : List Char) : String × Option String :=
  let name := String.ofList (text.takeWhile (· ≠ '='))
  match text.dropWhile (· ≠ '=') with
  | [] => (name, none)
  | _ :: value => (name, some (String.ofList value))

/-- What an argument looks like, when `expectsFree` says that one that may look like a
switch is still to come. -/
def look (level : Level) (expectsFree : Bool) (argument : String) : Look :=
  match argument.toList with
  | '-' :: '-' :: text =>
    let (name, value) := splitValue text
    if expectsFree && (level.named? name).isNone then .operand else .named name value
  | '-' :: letter :: letters =>
    if expectsFree && (letter :: letters).any fun c => (level.lettered? c).isNone then .operand
    else .lettered (letter :: letters)
  | _ => .operand

/-- Notes letters behind one hyphen, and gives the switch that still asks for a value. -/
def useLetters (level : Level) (gathered : Gathered) :
    List Char → Except Refusal (Gathered × Option Switch)
  | [] => .ok (gathered, none)
  | letter :: letters =>
    match level.lettered? letter with
    | none => .error .badUsage
    | some switch =>
      if switch.takesValue then
        match letters with
        | [] => .ok (gathered, some switch)
        | '=' :: value => do
          let noted ← gathered.record switch (String.ofList value)
          return (noted, none)
        | value => do
          let noted ← gathered.record switch (String.ofList value)
          return (noted, none)
      else do
        let noted ← gathered.record switch ""
        level.useLetters noted letters

/-- Notes a long name, and gives the switch if it still asks for a value. -/
def useName (level : Level) (gathered : Gathered) (name : String) (value : Option String) :
    Except Refusal (Gathered × Option Switch) :=
  match level.named? name with
  | none => .error .badUsage
  | some switch =>
    match switch.takesValue, value with
    | true, none => .ok (gathered, some switch)
    | false, some _ => .error .badUsage
    | _, given => do
      let noted ← gathered.record switch (given.getD "")
      return (noted, none)

/-- Gathers arguments; `waiting` is the switch that asks for a value.  What is left begins
with the name of the command, or is empty behind it. -/
def gather (level : Level) (waiting : Option Switch) (gathered : Gathered) :
    List String → Except Refusal (Gathered × List String)
  | [] => if waiting.isSome then .error .badUsage else .ok (gathered, [])
  | argument :: rest =>
    if argument = "--" then
      if waiting.isSome || level.namesCommand then .error .badUsage
      else do
        let noted ← gathered.addOperands level rest
        return (noted, [])
    else
      match level.look (level.freeForm && gathered.operands.isEmpty) argument, waiting with
      | .operand, some switch => do
        let noted ← gathered.record switch argument
        level.gather none noted rest
      | .operand, none =>
        if level.namesCommand then .ok (gathered, argument :: rest)
        else do
          let noted ← gathered.addOperands level [argument]
          level.gather none noted rest
      | _, some _ => .error .badUsage
      | .named name value, none => do
        let (noted, next) ← level.useName gathered name value
        level.gather next noted rest
      | .lettered letters, none => do
        let (noted, next) ← level.useLetters gathered letters
        level.gather next noted rest

end Level

/-- A command and what it is applied to. -/
inductive Command where
  | check (input : String) (json : Bool)
  | tree (input : String) (pretty : Bool)
  | format (input : String) (output : Option String)
  | gates
  | evaluate (expression : String) (bindings : List String)
  | release
deriving DecidableEq, Repr

/-- The place from which the command reads a circuit. -/
def Command.input? : Command → Option String
  | .check input _ | .tree input _ | .format input _ => some input
  | .gates | .evaluate _ _ | .release => none

/-- A command with the settings that every command has. -/
structure Invocation where
  noCore : Bool
  config : Option String
  command : Command
deriving DecidableEq, Repr

/-- The command of a name with the arguments behind it. -/
def CommandName.command (name : CommandName) (inner : Gathered) : Except Refusal Command :=
  match name, inner.operands with
  | .check, [input] => .ok (.check input (inner.uses .json))
  | .tree, [input] => .ok (.tree input (inner.uses .pretty))
  | .format, [input] => .ok (.format input (inner.values .output).head?)
  | .evaluate, [expression] => .ok (.evaluate expression (inner.values .bind))
  | .gates, [] => .ok .gates
  | .release, [] => .ok .release
  | _, _ => .error .badUsage

/-- Reads what stands behind the word `help`: the name of a command, or nothing. -/
def helpRefusal : List String → Refusal
  | [] => .help
  | [word] =>
    if word = "help" || CommandName.all.any fun name => name.text = word then .help else .badUsage
  | _ => .badUsage

/-- Reads the arguments of a run. -/
def Invocation.ofArguments (arguments : List String) : Except Refusal Invocation := do
  let (outer, rest) ← Level.outer.gather none .empty arguments
  match rest with
  | [] => .error .badUsage
  | word :: rest =>
    match CommandName.all.find? fun name => name.text = word with
    | none => .error (if word = "help" then helpRefusal rest else .badUsage)
    | some name => do
      let (inner, _) ← name.level.gather none .empty rest
      let command ← name.command inner
      return ⟨outer.uses .noCore || inner.uses .noCore,
        ((inner.values .config) ++ (outer.values .config)).head?, command⟩

end CommandLine
end QuantumCircuit
