import QuantumCircuit.Proofs.Cursor.Expression

/-!
# A cursor in statements

Every kind of statement is taken by steps of its own, which begin at its keyword.  Each of them
follows the reader of the statement.

* `Cursor.statement` : the steps of a statement.
* `statement_follows` : outside of expressions they do what the reader does.
-/

namespace QuantumCircuit

open Grammar (Reader Mode startOf versionOf? bodyContinuation)

namespace Cursor

/-! ### References and lists -/

/-- Takes `name` or `name[index]`. -/
def reference : Steps RegisterRef := do
  let (name, position) ← identifier
  if ← consume .leftBracket then
    let index ← integer
    symbol .rightBracket
    return ⟨name, some index, position⟩
  else return ⟨name, none, position⟩

/-- Takes references with commas between them. -/
def references : Steps (List RegisterRef) := reference.list

/-- Takes names with commas between them. -/
def names : Steps (List String) := do
  let found ← identifier.list
  return found.map Prod.fst

/-- Takes formal parameters, none if a closing parenthesis comes first. -/
def formals : Steps (List String) := do
  if ← check .rightParen then return [] else names

/-- Takes expressions with commas between them, none if a closing parenthesis comes first. -/
def expressions : Steps (List Expr) := do
  if ← check .rightParen then return [] else (operand 0).list

/-- Takes what `inner` takes between parentheses, or nothing if no parenthesis opens. -/
def inParentheses {α : Type} (inner : Steps (List α)) : Steps (List α) := do
  if ← consume .leftParen then
    let values ← inner
    symbol .rightParen
    return values
  else return []

/-- Takes a phrase and the semicolon behind it. -/
def closed {α : Type} (phrase : Steps α) : Steps α := do
  let value ← phrase
  symbol .semicolon
  return value

/-! ### Gates -/

/-- Takes the name, the formal parameters and the formal qubits of a gate. -/
def header : Steps GateHeader := do
  let (name, _) ← identifier
  let params ← inParentheses formals
  let qubits ← names
  return ⟨name, params, qubits⟩

/-- Takes a gate call without its semicolon. -/
def gateCall : Steps GateCall := do
  let (name, position) ← identifier
  let params ← inParentheses expressions
  let qubits ← references
  return ⟨name, params, qubits, position⟩

/-- Takes a gate call of a gate body. -/
def bodyCall : Steps GateCall := do
  let lexeme ← current
  if lexeme.token.kind = .identifier then closed gateCall
  else unexpected bodyContinuation

/-- Takes the calls of a gate body up to its closing brace. -/
def body : Steps (List GateCall) :=
  bodyCall.loop (fun lexeme => lexeme.token = .symbol .rightBrace) []

/-! ### Statements -/

/-- Takes a version number, from the characters of a number. -/
def versionNumber : Steps (UInt32 × UInt32) :=
  one (fun lexeme =>
    match lexeme.token with
    | .integer _ | .real _ => versionOf? lexeme.text.toList
    | _ => none) [.versionNumber]

/-- Takes `OPENQASM number`. -/
def version : Steps Statement := do
  let position ← keyword .version
  let (major, minor) ← versionNumber
  return .version major minor position

/-- Takes `include "path"`. -/
def inclusion : Steps Statement := do
  let position ← keyword .inclusion
  let path ← string
  return .inclusion path position

/-- Takes `name[size]` behind the keyword of a kind of register, whichever lexeme stands there. -/
def registerOf (kind : RegisterKind) : Steps Statement := do
  let lexeme ← advance
  let (name, _) ← identifier
  symbol .leftBracket
  let size ← integer
  symbol .rightBracket
  return .register kind name size lexeme.position

/-- Takes a gate definition; its body stands between braces. -/
def definition : Steps Statement := do
  let position ← keyword .gate
  let header ← header
  symbol .leftBrace
  let body ← body
  symbol .rightBrace
  return .gate ⟨header, body, position⟩

/-- Takes the declaration of a gate without a body. -/
def opaqueDeclaration : Steps Statement := do
  let position ← keyword .opaqueGate
  let header ← header
  return .opaqueGate header position

/-- Takes a gate call as a statement. -/
def application : Steps Statement := do
  let call ← gateCall
  return .call call

/-- Takes `measure source -> target`. -/
def measure : Steps Statement := do
  let position ← keyword .measure
  let source ← reference
  symbol .arrow
  let target ← reference
  return .measure source target position

/-- Takes `reset target`. -/
def reset : Steps Statement := do
  let position ← keyword .reset
  let target ← reference
  return .reset target position

/-- Takes `barrier targets`. -/
def barrier : Steps Statement := do
  let position ← keyword .barrier
  let targets ← references
  return .barrier targets position

/-- Takes `if (register == value) call`. -/
def condition : Steps Statement := do
  let position ← keyword .condition
  symbol .leftParen
  let (register, _) ← identifier
  symbol .equals
  let value ← integer
  symbol .rightParen
  let call ← gateCall
  return .condition register value call position

/-- The steps of the statements that begin with a token; none if no statement does. -/
def statementFor? (mode : Mode) (token : Token) : Option (Steps Statement) :=
  match token, mode with
  | .keyword .gate, _ => some definition
  | .keyword .opaqueGate, _ => some (closed opaqueDeclaration)
  | _, .library => none
  | .keyword .version, .circuit => some (closed version)
  | .keyword .inclusion, .circuit => some (closed inclusion)
  | .keyword .qreg, .circuit => some (closed (registerOf .quantum))
  | .keyword .creg, .circuit => some (closed (registerOf .classical))
  | .keyword .measure, .circuit => some (closed measure)
  | .keyword .reset, .circuit => some (closed reset)
  | .keyword .barrier, .circuit => some (closed barrier)
  | .keyword .condition, .circuit => some (closed condition)
  | .identifier _, .circuit => some (closed application)
  | _, .circuit => none

/-- Takes a statement. -/
def statement (mode : Mode) : Steps Statement := do
  let lexeme ← current
  match statementFor? mode lexeme.token with
  | some steps => steps
  | none => unexpected (startOf mode)

end Cursor

theorem Cursor.Faces.beginsWithIdentifier_iff {cursor : Cursor} {rest : List Lexeme}
    {final : Lexeme} (h : cursor.Faces rest final) :
    (rest.headD final).token.kind = .identifier ↔ Grammar.beginsWithIdentifier rest = true := by
  cases rest with
  | nil => simp [Grammar.beginsWithIdentifier, h.final_token, Token.kind]
  | cons lexeme others => simp [Grammar.beginsWithIdentifier]

namespace Follows

variable {α : Type} {depth : Nat}

theorem reference : Follows depth Cursor.reference Grammar.reference :=
  identifier.bind fun _ => .ifNext _
    (integer.bind fun _ => (symbol _).bind fun _ => .pure _) (.pure _)

theorem references : Follows depth Cursor.references Grammar.references :=
  reference.list Grammar.reference_shortens

theorem names : Follows depth Cursor.names Grammar.names :=
  (identifier.list Grammar.identifier_shortens).bind fun _ => .pure _

theorem formals : Follows depth Cursor.formals Grammar.formals :=
  .ifAhead _ (.pure _) names

/-- Outside of expressions, expressions are taken with all the levels there are. -/
theorem expressions : Follows 0 Cursor.expressions Grammar.expressions :=
  .ifAhead _ (.pure _) ((operand_follows 0 0).list Grammar.expression_shortens)

theorem inParentheses {inner : Steps (List α)} {reader : Reader (List α)}
    (h : Follows depth inner reader) :
    Follows depth (Cursor.inParentheses inner) (Grammar.inParentheses reader) :=
  .ifNext _ (h.endedBy _) (.pure _)

theorem closed {phrase : Steps α} {reader : Reader α} (h : Follows depth phrase reader) :
    Follows depth (Cursor.closed phrase) (Grammar.closed reader) :=
  h.endedBy _

theorem header : Follows depth Cursor.header Grammar.header :=
  identifier.bind fun _ => formals.inParentheses.bind fun _ => names.bind fun _ => .pure _

theorem gateCall : Follows 0 Cursor.gateCall Grammar.gateCall :=
  identifier.bind fun _ => expressions.inParentheses.bind fun _ =>
    references.bind fun _ => .pure _

theorem bodyCall : Follows 0 Cursor.bodyCall Grammar.bodyCall := by
  intro cursor rest final hFaces hDepth
  refine .look hFaces ?_
  unfold Grammar.bodyCall
  simp only [hFaces.beginsWithIdentifier_iff]
  split
  · exact gateCall.closed hFaces hDepth
  · exact .unexpected hFaces _

theorem body : Follows 0 Cursor.body Grammar.body :=
  bodyCall.repeated Grammar.bodyCall_shortens fun hFaces => hFaces.symbol_eq .rightBrace

theorem versionNumber : Follows depth Cursor.versionNumber Grammar.versionNumber :=
  one fun lexeme hEnd => by simp_all [Lexeme.isEnd]

theorem version : Follows depth Cursor.version Grammar.version :=
  (keyword _).bind fun _ => versionNumber.bind fun _ => .pure _

theorem inclusion : Follows depth Cursor.inclusion Grammar.inclusion :=
  (keyword _).bind fun _ => string.bind fun _ => .pure _

theorem definition : Follows 0 Cursor.definition Grammar.definition :=
  (keyword _).bind fun _ => header.bind fun _ => (symbol _).bind fun _ =>
    body.bind fun _ => (symbol _).bind fun _ => .pure _

theorem opaqueDeclaration : Follows depth Cursor.opaqueDeclaration Grammar.opaqueDeclaration :=
  (keyword _).bind fun _ => header.bind fun _ => .pure _

theorem application : Follows 0 Cursor.application Grammar.application :=
  gateCall.bind fun _ => .pure _

theorem measure : Follows depth Cursor.measure Grammar.measure :=
  (keyword _).bind fun _ => reference.bind fun _ => (symbol _).bind fun _ =>
    reference.bind fun _ => .pure _

theorem reset : Follows depth Cursor.reset Grammar.reset :=
  (keyword _).bind fun _ => reference.bind fun _ => .pure _

theorem barrier : Follows depth Cursor.barrier Grammar.barrier :=
  (keyword _).bind fun _ => references.bind fun _ => .pure _

theorem condition : Follows 0 Cursor.condition Grammar.condition :=
  (keyword _).bind fun _ => (symbol _).bind fun _ => identifier.bind fun _ =>
    (symbol _).bind fun _ => integer.bind fun _ => (symbol _).bind fun _ =>
      gateCall.bind fun _ => .pure _

end Follows

section Statement

variable {cursor : Cursor} {lexeme final : Lexeme} {others : List Lexeme}

/-- Behind its keyword the declaration of a register follows its reader. -/
theorem registerOf_settles (kind : RegisterKind) {word : Keyword}
    (hWord : lexeme.token = .keyword word) (hFaces : cursor.Faces (lexeme :: others) final) :
    Settles (Cursor.registerOf kind) cursor (lexeme :: others) final
      (Grammar.registerOf kind word (lexeme :: others)) := by
  have hDeclared : Follows cursor.depth
      (do
        let (name, _) ← Cursor.identifier
        Cursor.symbol .leftBracket
        let size ← Cursor.integer
        Cursor.symbol .rightBracket
        return Statement.register kind name size lexeme.position)
      (do
        let (name, _) ← Grammar.identifier
        Grammar.symbol .leftBracket
        let size ← Grammar.integer
        Grammar.symbol .rightBracket
        return Statement.register kind name size lexeme.position) :=
    Follows.identifier.bind fun _ => (Follows.symbol _).bind fun _ =>
      Follows.integer.bind fun _ => (Follows.symbol _).bind fun _ => .pure _
  rw [Grammar.registerOf, Grammar.bind_of_ok (Grammar.keyword_cons hWord others)]
  exact .take hFaces (hDeclared hFaces.behind rfl)

/-- Behind a phrase that settles comes its semicolon. -/
theorem Settles.closed {α : Type} {phrase : Steps α} {reader : Reader α}
    (hFaces : cursor.Faces others final) (h : Settles phrase cursor others final (reader others)) :
    Settles (Cursor.closed phrase) cursor others final (Grammar.closed reader others) := by
  refine h.bind fun value front behind hRest _ => ?_
  subst hRest
  have hEnd : Follows cursor.depth
      (do
        Cursor.symbol .semicolon
        return value)
      (do
        Grammar.symbol .semicolon
        return value) :=
    (Follows.symbol _).bind fun _ => .pure _
  exact hEnd hFaces.passing rfl

/-- The same tokens begin statements. -/
theorem statementFor?_isSome (mode : Mode) (token : Token) :
    (Cursor.statementFor? mode token).isSome = (Grammar.statementFor? mode token).isSome := by
  cases token with
  | keyword word => cases word <;> cases mode <;> rfl
  | _ => cases mode <;> rfl

/-- At its first token, the steps of a statement settle as its reader does. -/
theorem statementFor?_settles {mode : Mode} {reader : Reader Statement} {steps : Steps Statement}
    (hReader : Grammar.statementFor? mode lexeme.token = some reader)
    (hSteps : Cursor.statementFor? mode lexeme.token = some steps)
    (hFaces : cursor.Faces (lexeme :: others) final) (hDepth : cursor.depth = 0) :
    Settles steps cursor (lexeme :: others) final (reader (lexeme :: others)) := by
  unfold Grammar.statementFor? at hReader
  split at hReader <;> cases hReader
  all_goals
    rename_i hToken
    rw [hToken] at hSteps
    cases hSteps
  · exact Follows.definition hFaces hDepth
  · exact Follows.opaqueDeclaration.closed hFaces hDepth
  · exact Follows.version.closed hFaces hDepth
  · exact Follows.inclusion.closed hFaces hDepth
  · exact (registerOf_settles _ hToken hFaces).closed hFaces
  · exact (registerOf_settles _ hToken hFaces).closed hFaces
  · exact Follows.measure.closed hFaces hDepth
  · exact Follows.reset.closed hFaces hDepth
  · exact Follows.barrier.closed hFaces hDepth
  · exact Follows.condition.closed hFaces hDepth
  · exact Follows.application.closed hFaces hDepth

end Statement

/-- **Statements.**  Outside of expressions the steps of a statement do what its reader does. -/
theorem statement_follows (mode : Mode) :
    Follows 0 (Cursor.statement mode) (Grammar.statement mode) := by
  intro cursor rest final hFaces hDepth
  refine .look hFaces ?_
  cases rest with
  | nil =>
      rw [List.headD_nil, hFaces.final_token]
      cases mode <;> exact .unexpected hFaces _
  | cons lexeme others =>
      rw [List.headD_cons, Grammar.statement]
      have hSame := statementFor?_isSome mode lexeme.token
      cases hReader : Grammar.statementFor? mode lexeme.token with
      | none =>
          rw [hReader, Option.isSome_none, Option.isSome_eq_false_iff, Option.isNone_iff_eq_none]
            at hSame
          rw [hSame]
          exact .unexpected hFaces _
      | some reader =>
          rw [hReader, Option.isSome_some] at hSame
          obtain ⟨steps, hSteps⟩ := Option.isSome_iff_exists.mp hSame
          rw [hSteps]
          exact statementFor?_settles hReader hSteps hFaces hDepth

end QuantumCircuit
