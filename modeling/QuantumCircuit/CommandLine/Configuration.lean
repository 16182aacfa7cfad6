import QuantumCircuit.Session
import QuantumCircuit.Yaml.Node

namespace QuantumCircuit
namespace CommandLine

/-!
# Configuration files

A configuration is a mapping in YAML whose keys are scalars.  The only key with a
meaning is `core`, which may be given once; its value is a truth value.  A text without
a document, or with an empty one, leaves everything at its default.
-/

/-- The truth values of a text. -/
def truths : List (String × Bool) :=
  [("true", true), ("True", true), ("TRUE", true), ("false", false), ("False", false),
    ("FALSE", false)]

/-- The tag of truth values. -/
def truthTag : Yaml.Octets := Yaml.plainOctets "tag:yaml.org,2002:bool".toList

/-- May the scalar be a truth value?  It is plain, or a literal block with the tag of truth
values. -/
def mayBeTruth (scalar : Yaml.Scalar) : Bool :=
  scalar.style = .plain || (scalar.style = .literal && scalar.tag = some truthTag)

/-- The truth value of a node. -/
def truth? : Yaml.Node → Option Bool
  | .scalar scalar =>
    if mayBeTruth scalar then truths.lookup (String.ofList scalar.text) else none
  | _ => none

/-- The name of a key. -/
def keyName? : Yaml.Node → Option String
  | .scalar scalar => some (String.ofList scalar.text)
  | _ => none

/-- The options of the pairs of a configuration. -/
def optionsOfPairs? (pairs : List (Yaml.Node × Yaml.Node)) : Option Options := do
  let named ← pairs.mapM fun pair => (keyName? pair.1).map fun name => (name, pair.2)
  match named.filter fun pair => pair.1 = "core" with
  | [] => some .standard
  | [(_, value)] => (truth? value).map Options.mk
  | _ => none

/-- The options of the root of a document. -/
def optionsOfNode? : Yaml.Node → Option Options
  | .mapping pairs => optionsOfPairs? pairs
  | .scalar scalar =>
    if scalar.style = .plain && scalar.text.isEmpty then some .standard else none
  | _ => none

/-- The options of a configuration, if it is valid. -/
def Configuration.read (text : String) : Option Options := do
  match ← Yaml.document? text with
  | none => some .standard
  | some node => optionsOfNode? node

end CommandLine
end QuantumCircuit
