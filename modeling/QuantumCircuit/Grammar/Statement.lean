import QuantumCircuit.Grammar.Expression
import QuantumCircuit.Program.Basic

namespace QuantumCircuit
namespace Grammar

/-!
# Reading statements

Each statement begins with a keyword of its own, or with the name of the gate
that it applies.  A library holds declarations of gates only.
-/

/-- Which statements a text may hold. -/
inductive Mode where
  /-- Declarations of gates only. -/
  | library
  /-- Every statement. -/
  | circuit
deriving DecidableEq, Repr

/-- What can begin a statement. -/
def statementStart : List Expectation :=
  [.token (.keyword .version), .token (.keyword .inclusion), .token (.keyword .qreg),
    .token (.keyword .creg), .token (.keyword .gate), .token (.keyword .opaqueGate),
    .token (.keyword .measure), .token (.keyword .reset), .token (.keyword .barrier),
    .token (.keyword .condition), .token .identifier]

/-- What can begin a statement of a library. -/
def declarationStart : List Expectation :=
  [.token (.keyword .gate), .token (.keyword .opaqueGate)]

/-- What can stand where a gate body goes on. -/
def bodyContinuation : List Expectation :=
  [.token .identifier, .token (.symbol .rightBrace)]

/-! ### References and lists -/

/-- Reads the index of a reference behind its opening bracket. -/
def indexOf (name : String) (position : Position) : Reader RegisterRef := do
  let index ← integer
  symbol .rightBracket
  return ⟨name, some index, position⟩

/-- Reads `name` or `name[index]`. -/
def reference : Reader RegisterRef := do
  let (name, position) ← identifier
  ifNext .leftBracket (indexOf name position) (pure ⟨name, none, position⟩)

theorem reference_shortens : Shortens reference :=
  identifier_shortens.bind fun _ =>
    ifNext_neverGrows _
      (integer_shortens.neverGrows.bind fun _ =>
        (symbol_shortens _).neverGrows.bind fun _ => pure_neverGrows _)
      (pure_neverGrows _)

/-- Reads references with commas between them. -/
def references : Reader (List RegisterRef) := separated reference reference_shortens

/-- Reads names with commas between them. -/
def names : Reader (List String) := do
  let found ← (separated identifier identifier_shortens : Reader _)
  return found.map Prod.fst

/-- Reads formal parameters, none if a closing parenthesis comes first. -/
def formals : Reader (List String) := ifAhead .rightParen (pure []) names

/-- Reads expressions with commas between them, none if a closing parenthesis comes first. -/
def expressions : Reader (List Expr) :=
  ifAhead .rightParen (pure []) (separated expression expression_shortens)

/-- Reads what `inner` reads between parentheses, or nothing if no parenthesis opens. -/
def inParentheses {α : Type} (inner : Reader (List α)) : Reader (List α) :=
  ifNext .leftParen (endedBy .rightParen inner) (pure [])

/-- Reads a phrase and the semicolon behind it. -/
def closed {α : Type} (phrase : Reader α) : Reader α := endedBy .semicolon phrase

theorem references_shortens : Shortens references := separated_shortens _ _

theorem names_shortens : Shortens names :=
  Shortens.bind (separated_shortens _ _) fun _ => pure_neverGrows _

theorem formals_neverGrows : NeverGrows formals :=
  ifAhead_neverGrows _ (pure_neverGrows _) names_shortens.neverGrows

theorem expressions_neverGrows : NeverGrows expressions :=
  ifAhead_neverGrows _ (pure_neverGrows _) (separated_shortens _ _).neverGrows

theorem inParentheses_neverGrows {α : Type} {inner : Reader (List α)}
    (hInner : NeverGrows inner) : NeverGrows (inParentheses inner) :=
  ifNext_neverGrows _ (endedBy_neverGrows _ hInner) (pure_neverGrows _)

theorem closed_shortens {α : Type} {phrase : Reader α} (hPhrase : Shortens phrase) :
    Shortens (closed phrase) :=
  endedBy_shortens _ hPhrase

/-! ### Gates -/

/-- Reads the name, the formal parameters and the formal qubits of a gate. -/
def header : Reader GateHeader := do
  let (name, _) ← identifier
  let params ← inParentheses formals
  let qubits ← names
  return ⟨name, params, qubits⟩

/-- Reads a gate call without its semicolon. -/
def gateCall : Reader GateCall := do
  let (name, position) ← identifier
  let params ← inParentheses expressions
  let qubits ← references
  return ⟨name, params, qubits, position⟩

/-- Does the list begin with an identifier? -/
def beginsWithIdentifier : List Lexeme → Bool
  | [] => false
  | lexeme :: _ => lexeme.token.kind = .identifier

/-- Does the list begin with a symbol? -/
def beginsWith (sign : Symbol) (lexemes : List Lexeme) : Bool :=
  (accept? sign lexemes).isSome

/-- Reads a gate call of a gate body. -/
def bodyCall : Reader GateCall := fun lexemes =>
  if beginsWithIdentifier lexemes then closed gateCall lexemes
  else expecting bodyContinuation lexemes

theorem header_shortens : Shortens header :=
  identifier_shortens.bind fun _ =>
    (inParentheses_neverGrows formals_neverGrows).bind fun _ =>
      names_shortens.neverGrows.bind fun _ => pure_neverGrows _

theorem gateCall_shortens : Shortens gateCall :=
  identifier_shortens.bind fun _ =>
    (inParentheses_neverGrows expressions_neverGrows).bind fun _ =>
      references_shortens.neverGrows.bind fun _ => pure_neverGrows _

theorem bodyCall_shortens : Shortens bodyCall := by
  intro lexemes value rest h
  simp only [bodyCall] at h
  split at h
  · exact closed_shortens gateCall_shortens _ _ _ h
  · cases h

/-- Reads the calls of a gate body up to its closing brace. -/
def body : Reader (List GateCall) :=
  repeated bodyCall bodyCall_shortens (beginsWith .rightBrace)

/-! ### Version numbers -/

/-- Reads the digits of a version number as a word of 32 bits. -/
def versionPart? (digits : List Char) : Option UInt32 :=
  if digits.isEmpty || !digits.all Char.isDigit then none
  else
    let value := Decimal.ofDigits digits
    if value < Nat.pow 2 32 then some (UInt32.ofNat value) else none

/-- The two numbers of a version such as `2.0`; the second one may be missing with its point. -/
def versionOf? (text : List Char) : Option (UInt32 × UInt32) :=
  let minor :=
    match text.dropWhile (· ≠ '.') with
    | [] => ['0']
    | _ :: digits => digits
  match versionPart? (text.takeWhile (· ≠ '.')), versionPart? minor with
  | some first, some second => some (first, second)
  | _, _ => none

/-- Reads a version number, from the characters of a number. -/
def versionNumber : Reader (UInt32 × UInt32) :=
  one (fun lexeme =>
    match lexeme.token with
    | .integer _ | .real _ => versionOf? lexeme.text.toList
    | _ => none) [.versionNumber]

/-! ### Statements -/

/-- Reads `OPENQASM number`. -/
def version : Reader Statement := do
  let position ← keyword .version
  let (major, minor) ← versionNumber
  return .version major minor position

/-- Reads `include "path"`. -/
def inclusion : Reader Statement := do
  let position ← keyword .inclusion
  let path ← string
  return .inclusion path position

/-- Reads `name[size]` behind the keyword of a kind of register. -/
def registerOf (kind : RegisterKind) (word : Keyword) : Reader Statement := do
  let position ← keyword word
  let (name, _) ← identifier
  symbol .leftBracket
  let size ← integer
  symbol .rightBracket
  return .register kind name size position

/-- Reads a gate definition; its body stands between braces. -/
def definition : Reader Statement := do
  let position ← keyword .gate
  let header ← header
  symbol .leftBrace
  let body ← body
  symbol .rightBrace
  return .gate ⟨header, body, position⟩

/-- Reads the declaration of a gate without a body. -/
def opaqueDeclaration : Reader Statement := do
  let position ← keyword .opaqueGate
  let header ← header
  return .opaqueGate header position

/-- Reads a gate call as a statement. -/
def application : Reader Statement := do
  let call ← gateCall
  return .call call

/-- Reads `measure source -> target`. -/
def measure : Reader Statement := do
  let position ← keyword .measure
  let source ← reference
  symbol .arrow
  let target ← reference
  return .measure source target position

/-- Reads `reset target`. -/
def reset : Reader Statement := do
  let position ← keyword .reset
  let target ← reference
  return .reset target position

/-- Reads `barrier targets`. -/
def barrier : Reader Statement := do
  let position ← keyword .barrier
  let targets ← references
  return .barrier targets position

/-- Reads `if (register == value) call`. -/
def condition : Reader Statement := do
  let position ← keyword .condition
  symbol .leftParen
  let (register, _) ← identifier
  symbol .equals
  let value ← integer
  symbol .rightParen
  let call ← gateCall
  return .condition register value call position

/-- The reader of the statements that begin with a token; none if no statement does. -/
def statementFor? (mode : Mode) (token : Token) : Option (Reader Statement) :=
  match token, mode with
  | .keyword .gate, _ => some definition
  | .keyword .opaqueGate, _ => some (closed opaqueDeclaration)
  | _, .library => none
  | .keyword .version, .circuit => some (closed version)
  | .keyword .inclusion, .circuit => some (closed inclusion)
  | .keyword .qreg, .circuit => some (closed (registerOf .quantum .qreg))
  | .keyword .creg, .circuit => some (closed (registerOf .classical .creg))
  | .keyword .measure, .circuit => some (closed measure)
  | .keyword .reset, .circuit => some (closed reset)
  | .keyword .barrier, .circuit => some (closed barrier)
  | .keyword .condition, .circuit => some (closed condition)
  | .identifier _, .circuit => some (closed application)
  | _, .circuit => none

/-- What can begin a statement in a mode. -/
def startOf : Mode → List Expectation
  | .library => declarationStart
  | .circuit => statementStart

/-- Reads a statement. -/
def statement (mode : Mode) : Reader Statement
  | [] => .error ⟨startOf mode, []⟩
  | lexeme :: rest =>
    match statementFor? mode lexeme.token with
    | some reader => reader (lexeme :: rest)
    | none => .error ⟨startOf mode, lexeme :: rest⟩

/-! ### Progress -/

theorem version_shortens : Shortens version :=
  (keyword_shortens _).bind fun _ =>
    (one_shortens _ _).neverGrows.bind fun _ => pure_neverGrows _

theorem inclusion_shortens : Shortens inclusion :=
  (keyword_shortens _).bind fun _ => string_shortens.neverGrows.bind fun _ => pure_neverGrows _

theorem registerOf_shortens (kind : RegisterKind) (word : Keyword) :
    Shortens (registerOf kind word) :=
  (keyword_shortens _).bind fun _ => identifier_shortens.neverGrows.bind fun _ =>
    (symbol_shortens _).neverGrows.bind fun _ => integer_shortens.neverGrows.bind fun _ =>
      (symbol_shortens _).neverGrows.bind fun _ => pure_neverGrows _

theorem definition_shortens : Shortens definition :=
  (keyword_shortens _).bind fun _ => header_shortens.neverGrows.bind fun _ =>
    (symbol_shortens _).neverGrows.bind fun _ => (repeated_neverGrows _ _ _).bind fun _ =>
      (symbol_shortens _).neverGrows.bind fun _ => pure_neverGrows _

theorem opaqueDeclaration_shortens : Shortens opaqueDeclaration :=
  (keyword_shortens _).bind fun _ => header_shortens.neverGrows.bind fun _ => pure_neverGrows _

theorem application_shortens : Shortens application :=
  gateCall_shortens.bind fun _ => pure_neverGrows _

theorem measure_shortens : Shortens measure :=
  (keyword_shortens _).bind fun _ => reference_shortens.neverGrows.bind fun _ =>
    (symbol_shortens _).neverGrows.bind fun _ => reference_shortens.neverGrows.bind fun _ =>
      pure_neverGrows _

theorem reset_shortens : Shortens reset :=
  (keyword_shortens _).bind fun _ => reference_shortens.neverGrows.bind fun _ =>
    pure_neverGrows _

theorem barrier_shortens : Shortens barrier :=
  (keyword_shortens _).bind fun _ => references_shortens.neverGrows.bind fun _ =>
    pure_neverGrows _

theorem condition_shortens : Shortens condition :=
  (keyword_shortens _).bind fun _ => (symbol_shortens _).neverGrows.bind fun _ =>
    identifier_shortens.neverGrows.bind fun _ => (symbol_shortens _).neverGrows.bind fun _ =>
      integer_shortens.neverGrows.bind fun _ => (symbol_shortens _).neverGrows.bind fun _ =>
        gateCall_shortens.neverGrows.bind fun _ => pure_neverGrows _

theorem statementFor?_shortens {mode : Mode} {token : Token} {reader : Reader Statement}
    (h : statementFor? mode token = some reader) : Shortens reader := by
  unfold statementFor? at h
  split at h <;> cases h
  · exact definition_shortens
  · exact closed_shortens opaqueDeclaration_shortens
  · exact closed_shortens version_shortens
  · exact closed_shortens inclusion_shortens
  · exact closed_shortens (registerOf_shortens _ _)
  · exact closed_shortens (registerOf_shortens _ _)
  · exact closed_shortens measure_shortens
  · exact closed_shortens reset_shortens
  · exact closed_shortens barrier_shortens
  · exact closed_shortens condition_shortens
  · exact closed_shortens application_shortens

theorem statement_shortens (mode : Mode) : Shortens (statement mode) := by
  intro lexemes value rest h
  cases lexemes with
  | nil => cases h
  | cons lexeme others =>
    simp only [statement] at h
    split at h
    · rename_i reader hReader
      exact statementFor?_shortens hReader _ _ _ h
    · cases h

/-- Reads statements up to the end of the input. -/
def statements (mode : Mode) : Reader (List Statement) :=
  repeated (statement mode) (statement_shortens mode) List.isEmpty

end Grammar
end QuantumCircuit
