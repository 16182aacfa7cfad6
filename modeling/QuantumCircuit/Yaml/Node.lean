import QuantumCircuit.Yaml.Layout

namespace QuantumCircuit
namespace Yaml

/-!
# The document of a text

A text holds at most one document here.  The document is a scalar, a sequence or a
mapping.  An anchor gives a name to what follows it, and an alias behind it stands for
the same; a scalar is put in place of its alias.

A key, a value or an entry may be missing; it is then an empty plain scalar.
-/

/-- A scalar with its tag, if it has one. -/
structure Scalar where
  style : Style
  tag : Option Octets
  text : List Char
deriving DecidableEq, Repr

/-- A scalar without text that was not written. -/
def Scalar.absent : Scalar := ⟨.plain, none, []⟩

/-- A part of a document. -/
inductive Node where
  | scalar (content : Scalar)
  | sequence (items : List Node)
  | mapping (pairs : List (Node × Node))
  /-- A sequence or a mapping that stands elsewhere under a name. -/
  | reference (name : List Char)
deriving Repr, Inhabited

/-- A missing node. -/
def Node.absent : Node := .scalar .absent

/-- What is known while a document is read. -/
structure Reading where
  tokens : List Token
  /-- The names of anchors, the latest first, with the scalars that they stand for. -/
  anchors : List (List Char × Option Scalar)
  /-- What the handles of tags stand for. -/
  handles : List (List Char × Octets)
deriving Repr

/-- A reader of a part of a document. -/
abbrev NodeReader (α : Type) := StateT Reading Option α

/-- The handles that every document knows. -/
def standardHandles : List (List Char × Octets) :=
  [(['!'], plainOctets ['!']), (['!', '!'], plainOctets "tag:yaml.org,2002:".toList)]

namespace NodeReader

/-! ### Steps -/

/-- The next token, which stays. -/
def ahead : NodeReader (Option Token) := do return (← get).tokens.head?

/-- Is the next token one of these? -/
def isAhead (tokens : List Token) : NodeReader Bool := do
  return ((← ahead).map tokens.contains).getD false

/-- Passes the next token. -/
def pass : NodeReader Unit :=
  modify fun reading => ⟨reading.tokens.drop 1, reading.anchors, reading.handles⟩

/-- Passes the next token if it is the given one, and says whether it was. -/
def accept (token : Token) : NodeReader Bool := do
  if ← isAhead [token] then
    pass
    return true
  else return false

/-- Passes the given token and fails at any other. -/
def expect (token : Token) : NodeReader Unit := do
  if ← accept token then return () else failure

/-- Notes what an anchor stands for, if there is one. -/
def note (anchor : Option (List Char)) (content : Option Scalar) : NodeReader Unit :=
  match anchor with
  | none => return ()
  | some name =>
    modify fun reading => ⟨reading.tokens, (name, content) :: reading.anchors, reading.handles⟩

/-! ### Properties -/

/-- Reads an anchor if one comes next. -/
def anchor : NodeReader (Option (List Char)) := do
  match ← ahead with
  | some (.anchor name) =>
    pass
    return some name
  | _ => return none

/-- Reads a tag if one comes next; its handle must be known. -/
def tag : NodeReader (Option Octets) := do
  match ← ahead with
  | some (.tag handle suffix) =>
    pass
    if handle.isEmpty then return some suffix
    else
      match (← get).handles.lookup handle with
      | some meaning => return some (meaning ++ suffix)
      | none => failure
  | _ => return none

/-- Reads an anchor and a tag in any order; each of them may be missing. -/
def properties : NodeReader (Option (List Char) × Option Octets) := do
  match ← anchor with
  | some name => return (some name, ← tag)
  | none =>
    let tag ← tag
    return (← anchor, tag)

/-- Passes an alias for what it stands for. -/
def target (name : List Char) : NodeReader Node := do
  pass
  match (← get).anchors.lookup name with
  | some (some content) => return .scalar content
  | some none => return .reference name
  | none => failure

/-! ### Nodes -/

mutual

/-- Reads a node.  Only where a block may stand does indentation open one, and only in a
mapping may the entries of a sequence stand without indentation.  `bound` is an upper
bound of the nesting. -/
def node (bound : Nat) (block unindented : Bool) : NodeReader Node :=
  match bound with
  | 0 => failure
  | bound + 1 => do
    match ← ahead with
    | some (.aliasOf name) => target name
    | _ =>
      let (name, tag) ← properties
      match ← ahead with
      | some (.scalar style text) =>
        pass
        note name (some ⟨style, tag, text⟩)
        return .scalar ⟨style, tag, text⟩
      | some .flowSequenceStart =>
        pass
        note name none
        return .sequence (← flowItems bound true)
      | some .flowMappingStart =>
        pass
        note name none
        return .mapping (← flowPairs bound true)
      | next =>
        if unindented && next = some .blockEntry then
          note name none
          return .sequence (← unindentedItems bound)
        else if block && next = some .blockSequenceStart then
          pass
          note name none
          return .sequence (← blockItems bound)
        else if block && next = some .blockMappingStart then
          pass
          note name none
          return .mapping (← blockPairs bound)
        else if name.isSome || tag.isSome then
          note name (some ⟨.plain, tag, []⟩)
          return .scalar ⟨.plain, tag, []⟩
        else failure

/-- Reads a node unless one of the given tokens comes next. -/
def nodeUnless (bound : Nat) (ends : List Token) (block unindented : Bool) : NodeReader Node :=
  match bound with
  | 0 => failure
  | bound + 1 => do
    if ← isAhead ends then return .absent else node bound block unindented

/-- Reads a value if its sign comes next. -/
def valueUnless (bound : Nat) (ends : List Token) (block : Bool) : NodeReader Node :=
  match bound with
  | 0 => failure
  | bound + 1 => do
    if ← accept .value then nodeUnless bound ends block block else return .absent

/-- Reads the entries of an indented sequence. -/
def blockItems (bound : Nat) : NodeReader (List Node) :=
  match bound with
  | 0 => failure
  | bound + 1 => do
    if ← accept .blockEntry then
      let item ← nodeUnless bound [.blockEntry, .blockEnd] true false
      return item :: (← blockItems bound)
    else
      expect .blockEnd
      return []

/-- Reads the entries of a sequence without indentation. -/
def unindentedItems (bound : Nat) : NodeReader (List Node) :=
  match bound with
  | 0 => failure
  | bound + 1 => do
    if ← accept .blockEntry then
      let item ← nodeUnless bound [.blockEntry, .key, .value, .blockEnd] true false
      return item :: (← unindentedItems bound)
    else return []

/-- Reads the pairs of an indented mapping. -/
def blockPairs (bound : Nat) : NodeReader (List (Node × Node)) :=
  match bound with
  | 0 => failure
  | bound + 1 => do
    if ← accept .key then
      let key ← nodeUnless bound [.key, .value, .blockEnd] true true
      let value ← valueUnless bound [.key, .value, .blockEnd] true
      return (key, value) :: (← blockPairs bound)
    else
      expect .blockEnd
      return []

/-- Reads the items of a sequence in brackets; an item may be a single pair. -/
def flowItems (bound : Nat) (first : Bool) : NodeReader (List Node) :=
  match bound with
  | 0 => failure
  | bound + 1 => do
    if ← accept .flowSequenceEnd then return []
    else
      if !first then expect .flowEntry
      if ← accept .key then
        let pair ← flowPair bound
        return .mapping [pair] :: (← flowItems bound false)
      else if ← accept .flowSequenceEnd then return []
      else
        let item ← node bound false false
        return item :: (← flowItems bound false)

/-- Reads a pair of a sequence in brackets behind the sign of its key.  Where the key is
missing, the token in its place is passed. -/
def flowPair (bound : Nat) : NodeReader (Node × Node) :=
  match bound with
  | 0 => failure
  | bound + 1 => do
    if ← isAhead [.value, .flowEntry, .flowSequenceEnd] then
      pass
      return (.absent, ← valueUnless bound [.flowEntry, .flowSequenceEnd] false)
    else
      let key ← node bound false false
      return (key, ← valueUnless bound [.flowEntry, .flowSequenceEnd] false)

/-- Reads the pairs of a mapping in braces; a key may stand without a value. -/
def flowPairs (bound : Nat) (first : Bool) : NodeReader (List (Node × Node)) :=
  match bound with
  | 0 => failure
  | bound + 1 => do
    if ← accept .flowMappingEnd then return []
    else
      if !first then expect .flowEntry
      if ← accept .key then
        let key ← nodeUnless bound [.value, .flowEntry, .flowMappingEnd] false false
        let value ← valueUnless bound [.flowEntry, .flowMappingEnd] false
        return (key, value) :: (← flowPairs bound false)
      else if ← accept .flowMappingEnd then return []
      else
        let key ← node bound false false
        return (key, .absent) :: (← flowPairs bound false)

end

/-! ### Documents -/

/-- Reads the directives in front of a document, whose language must be version 1.1 or 1.2.
There is at most one version, and each handle is given once. -/
def directives (bound : Nat) (versioned : Bool) (given : List (List Char × Octets)) :
    NodeReader Unit :=
  match bound with
  | 0 => failure
  | bound + 1 => do
    match ← ahead with
    | some (.version major minor) =>
      if versioned || major ≠ 1 || (minor ≠ 1 && minor ≠ 2) then failure
      else
        pass
        directives bound true given
    | some (.abbreviation handle meaning) =>
      if (given.lookup handle).isSome then failure
      else
        pass
        directives bound versioned ((handle, meaning) :: given)
    | _ =>
      modify fun reading => ⟨reading.tokens, reading.anchors, given ++ standardHandles⟩

/-- Does the next token belong to the frame of a document? -/
def isFrameAhead : NodeReader Bool := do
  match ← ahead with
  | some (.version _ _) | some (.abbreviation _ _) | some .documentStart => return true
  | _ => return false

/-- Reads the node of a document; it may be missing behind the start of the document. -/
def root (bound : Nat) : NodeReader Node := do
  if ← isFrameAhead then
    directives bound false []
    expect .documentStart
    if (← isFrameAhead) || (← isAhead [.documentEnd]) || (← ahead).isNone then
      return .absent
    else node bound true false
  else node bound true false

/-- Passes the ends of a document. -/
def documentEnds : NodeReader Unit :=
  modify fun reading =>
    ⟨reading.tokens.dropWhile fun token => token = .documentEnd, reading.anchors,
      reading.handles⟩

/-- Reads the only document; none if there are no tokens. -/
def document (bound : Nat) : NodeReader (Option Node) := do
  if (← ahead).isNone then return none
  else
    let found ← root bound
    documentEnds
    if (← ahead).isNone then return some found else failure

end NodeReader

/-- The document of a text, or none in an empty text; fails if the text is malformed or holds
more than one document.  A node is read through at most three readers per token. -/
def document? (text : String) : Option (Option Node) := do
  let characters ← characters? text
  let tokens ← tokens? characters
  let (found, _) ← (NodeReader.document (3 * tokens.length + 3)).run
    ⟨tokens, [], standardHandles⟩
  return found

end Yaml
end QuantumCircuit
