import QuantumCircuit.Proofs.Grammar.Expression
import QuantumCircuit.Proofs.Grammar.Version

/-!
# The grammar of statements

`IsStatement` and `IsProgram` state the grammar of texts without reference to a reader, and
with the places that a tree takes from its lexemes.  What counts as a parameter is left open: the
readers take `IsExpression`.  They are sound and complete for the grammar: `statement_sound` and
`statement_completes` for one statement, `statements_sound` and `statements_completes` for all of
them.
-/

namespace QuantumCircuit
namespace Grammar

/-! ### Phrases -/

/-- A name on its own. -/
inductive IsFormal : List Lexeme → String → Prop
  | mk {lexeme : Lexeme} {name : String} (hName : lexeme.token = .identifier name) :
      IsFormal [lexeme] name

/-- A reference to a register or to one of its elements. -/
inductive IsReference : List Lexeme → RegisterRef → Prop
  | whole {name : Lexeme} {register : String} (hName : name.token = .identifier register) :
      IsReference [name] ⟨register, none, name.position⟩
  | element {name opening number closing : Lexeme} {register : String} {index : UInt64}
      (hName : name.token = .identifier register)
      (hOpening : opening.token = .symbol .leftBracket)
      (hNumber : number.token = .integer index)
      (hClosing : closing.token = .symbol .rightBracket) :
      IsReference [name, opening, number, closing] ⟨register, some index, name.position⟩

/-- The name, the formal parameters and the formal qubits of a gate. -/
inductive IsHeader : List Lexeme → GateHeader → Prop
  | mk {name : Lexeme} {gate : String} {first second : List Lexeme} {params qubits : List String}
      (hName : name.token = .identifier gate)
      (hParams : InParentheses IsFormal first params)
      (hQubits : Listed IsFormal second qubits) :
      IsHeader (name :: (first ++ second)) ⟨gate, params, qubits⟩

/-- The application of a gate, with parameters that are phrases of some kind. -/
inductive IsCall (param : List Lexeme → Expr → Prop) : List Lexeme → GateCall → Prop
  | mk {name : Lexeme} {gate : String} {first second : List Lexeme} {params : List Expr}
      {qubits : List RegisterRef}
      (hName : name.token = .identifier gate)
      (hParams : InParentheses param first params)
      (hQubits : Listed IsReference second qubits) :
      IsCall param (name :: (first ++ second)) ⟨gate, params, qubits, name.position⟩

/-- The calls of a gate body. -/
inductive IsBody (param : List Lexeme → Expr → Prop) : List Lexeme → List GateCall → Prop
  | nil : IsBody param [] []
  | cons {semicolon : Lexeme} {first others : List Lexeme} {call : GateCall}
      {calls : List GateCall}
      (hCall : IsCall param first call) (hSemicolon : semicolon.token = .symbol .semicolon)
      (hOthers : IsBody param others calls) :
      IsBody param (first ++ semicolon :: others) (call :: calls)

/-- A lexeme that is a version number by its characters. -/
structure IsVersion (lexeme : Lexeme) (major minor : UInt32) : Prop where
  number : lexeme.token.kind = .integer ∨ lexeme.token.kind = .real
  text : IsVersionText lexeme.text.toList major minor

/-- The keyword that declares a register. -/
def registerWord : RegisterKind → Keyword
  | .quantum => .qreg
  | .classical => .creg

/-- A statement with everything that ends it. -/
inductive IsStatement (param : List Lexeme → Expr → Prop) : List Lexeme → Statement → Prop
  | version {word number semicolon : Lexeme} {major minor : UInt32}
      (hWord : word.token = .keyword .version) (hNumber : IsVersion number major minor)
      (hSemicolon : semicolon.token = .symbol .semicolon) :
      IsStatement param [word, number, semicolon] (.version major minor word.position)
  | inclusion {word content semicolon : Lexeme} {path : String}
      (hWord : word.token = .keyword .inclusion) (hPath : content.token = .string path)
      (hSemicolon : semicolon.token = .symbol .semicolon) :
      IsStatement param [word, content, semicolon] (.inclusion path word.position)
  | register {kind : RegisterKind} {word name opening number closing semicolon : Lexeme}
      {register : String} {size : UInt64}
      (hWord : word.token = .keyword (registerWord kind))
      (hName : name.token = .identifier register)
      (hOpening : opening.token = .symbol .leftBracket)
      (hNumber : number.token = .integer size)
      (hClosing : closing.token = .symbol .rightBracket)
      (hSemicolon : semicolon.token = .symbol .semicolon) :
      IsStatement param [word, name, opening, number, closing, semicolon]
        (.register kind register size word.position)
  | gate {word opening closing : Lexeme} {first second : List Lexeme} {header : GateHeader}
      {calls : List GateCall}
      (hWord : word.token = .keyword .gate) (hHeader : IsHeader first header)
      (hOpening : opening.token = .symbol .leftBrace) (hBody : IsBody param second calls)
      (hClosing : closing.token = .symbol .rightBrace) :
      IsStatement param (word :: (first ++ opening :: (second ++ [closing])))
        (.gate ⟨header, calls, word.position⟩)
  | opaqueGate {word semicolon : Lexeme} {lexemes : List Lexeme} {header : GateHeader}
      (hWord : word.token = .keyword .opaqueGate) (hHeader : IsHeader lexemes header)
      (hSemicolon : semicolon.token = .symbol .semicolon) :
      IsStatement param (word :: (lexemes ++ [semicolon])) (.opaqueGate header word.position)
  | call {semicolon : Lexeme} {lexemes : List Lexeme} {application : GateCall}
      (hCall : IsCall param lexemes application)
      (hSemicolon : semicolon.token = .symbol .semicolon) :
      IsStatement param (lexemes ++ [semicolon]) (.call application)
  | measure {word arrow semicolon : Lexeme} {first second : List Lexeme}
      {source target : RegisterRef}
      (hWord : word.token = .keyword .measure) (hSource : IsReference first source)
      (hArrow : arrow.token = .symbol .arrow) (hTarget : IsReference second target)
      (hSemicolon : semicolon.token = .symbol .semicolon) :
      IsStatement param (word :: (first ++ arrow :: (second ++ [semicolon])))
        (.measure source target word.position)
  | reset {word semicolon : Lexeme} {lexemes : List Lexeme} {target : RegisterRef}
      (hWord : word.token = .keyword .reset) (hTarget : IsReference lexemes target)
      (hSemicolon : semicolon.token = .symbol .semicolon) :
      IsStatement param (word :: (lexemes ++ [semicolon])) (.reset target word.position)
  | barrier {word semicolon : Lexeme} {lexemes : List Lexeme} {targets : List RegisterRef}
      (hWord : word.token = .keyword .barrier) (hTargets : Listed IsReference lexemes targets)
      (hSemicolon : semicolon.token = .symbol .semicolon) :
      IsStatement param (word :: (lexemes ++ [semicolon])) (.barrier targets word.position)
  | condition {word opening name equals number closing semicolon : Lexeme}
      {lexemes : List Lexeme} {register : String} {value : UInt64} {application : GateCall}
      (hWord : word.token = .keyword .condition)
      (hOpening : opening.token = .symbol .leftParen)
      (hName : name.token = .identifier register)
      (hEquals : equals.token = .symbol .equals)
      (hNumber : number.token = .integer value)
      (hClosing : closing.token = .symbol .rightParen)
      (hCall : IsCall param lexemes application)
      (hSemicolon : semicolon.token = .symbol .semicolon) :
      IsStatement param
        (word :: opening :: name :: equals :: number :: closing :: (lexemes ++ [semicolon]))
        (.condition register value application word.position)

/-- Statements one behind the other. -/
inductive IsProgram (param : List Lexeme → Expr → Prop) : List Lexeme → List Statement → Prop
  | nil : IsProgram param [] []
  | cons {first others : List Lexeme} {statement : Statement} {statements : List Statement}
      (hStatement : IsStatement param first statement)
      (hOthers : IsProgram param others statements) :
      IsProgram param (first ++ others) (statement :: statements)

/-- May a text of a mode hold the statement? -/
def Mode.Allows (mode : Mode) : Statement → Prop
  | .gate _ | .opaqueGate _ _ => True
  | _ => mode = .circuit

/-! ### Names and references -/

/-- A name with its place. -/
inductive IsPlacedName : List Lexeme → String × Position → Prop
  | mk {lexeme : Lexeme} {name : String} (hName : lexeme.token = .identifier name) :
      IsPlacedName [lexeme] (name, lexeme.position)

theorem identifier_sound : Sound identifier IsPlacedName := by
  rintro lexemes ⟨name, position⟩ rest h
  obtain ⟨lexeme, rfl, hToken, hPosition⟩ := identifier_eq_ok h
  cases hPosition
  exact ⟨[lexeme], rfl, .mk hToken⟩

theorem identifier_completes : Completes identifier IsPlacedName fun _ => True := by
  rintro lexemes found ⟨hName⟩ next rest sign hNext -
  exact identifier_cons hName (next :: rest)

theorem listed_formal_of_placed {lexemes : List Lexeme} {found : List (String × Position)}
    (h : Listed IsPlacedName lexemes found) : Listed IsFormal lexemes (found.map Prod.fst) := by
  induction h with
  | one hItem =>
      obtain ⟨hName⟩ := hItem
      exact .one (.mk hName)
  | more hItem hComma hOthers ih =>
      obtain ⟨hName⟩ := hItem
      exact .more (.mk hName) hComma ih

theorem listed_placed_of_formal {lexemes : List Lexeme} {names : List String}
    (h : Listed IsFormal lexemes names) :
    ∃ found, found.map Prod.fst = names ∧ Listed IsPlacedName lexemes found := by
  induction h with
  | one hItem =>
      obtain ⟨hName⟩ := hItem
      exact ⟨[_], rfl, .one (.mk hName)⟩
  | more hItem hComma hOthers ih =>
      obtain ⟨hName⟩ := hItem
      obtain ⟨found, rfl, hFound⟩ := ih
      exact ⟨_ :: found, rfl, .more (.mk hName) hComma hFound⟩

theorem names_sound : Sound names (Listed IsFormal) := by
  intro lexemes found rest h
  rw [names, bind_eq_ok] at h
  obtain ⟨placed, behind, hRead, h⟩ := h
  rw [pure_eq_ok] at h
  obtain ⟨rfl, rfl⟩ := h
  obtain ⟨front, rfl, hListed⟩ := separated_sound _ identifier_sound _ _ _ hRead
  exact ⟨front, rfl, listed_formal_of_placed hListed⟩

theorem names_completes : Completes names (Listed IsFormal) fun sign => sign ≠ .comma := by
  intro lexemes found hListed next rest sign hNext hSign
  obtain ⟨placed, rfl, hPlaced⟩ := listed_placed_of_formal hListed
  have hRead := separated_completes identifier_shortens identifier_completes trivial _ _ hPlaced
    next rest sign hNext ⟨trivial, hSign⟩
  rw [names, bind_of_ok hRead]
  rfl

theorem reference_sound : Sound reference IsReference := by
  intro lexemes found rest h
  rw [reference, bind_eq_ok] at h
  obtain ⟨⟨name, position⟩, behind, hName, h⟩ := h
  obtain ⟨lexeme, rfl, hToken, hPosition⟩ := identifier_eq_ok hName
  cases hPosition
  simp only [ifNext] at h
  split at h
  · rename_i after hAccept
    obtain ⟨opening, rfl, hOpening⟩ := accept?_eq_some hAccept
    rw [indexOf, bind_eq_ok] at h
    obtain ⟨index, _, hIndex, h⟩ := h
    obtain ⟨number, rfl, hNumber⟩ := integer_eq_ok hIndex
    rw [bind_eq_ok] at h
    obtain ⟨_, _, hSymbol, h⟩ := h
    obtain ⟨closing, rfl, hClosing⟩ := symbol_eq_ok hSymbol
    rw [pure_eq_ok] at h
    obtain ⟨rfl, rfl⟩ := h
    exact ⟨[lexeme, opening, number, closing], rfl, .element hToken hOpening hNumber hClosing⟩
  · rw [pure_eq_ok] at h
    obtain ⟨rfl, rfl⟩ := h
    exact ⟨[lexeme], rfl, .whole hToken⟩

theorem reference_completes :
    Completes reference IsReference fun sign => sign ≠ .leftBracket := by
  intro lexemes found hReference next rest sign hNext hSign
  cases hReference with
  | whole hName =>
      have hOther : accept? .leftBracket (next :: rest) = none := by
        apply accept?_other
        rw [hNext]
        intro hSame
        exact hSign (Token.symbol.inj hSame)
      rw [List.singleton_append, reference, bind_of_ok (identifier_cons hName _)]
      simp only [ifNext, hOther]
      rfl
  | element hName hOpening hNumber hClosing =>
      rw [List.cons_append, reference, bind_of_ok (identifier_cons hName _)]
      simp only [ifNext, List.cons_append, accept?_cons hOpening]
      rw [indexOf, bind_of_ok (integer_cons hNumber _), bind_of_ok (symbol_cons hClosing _)]
      rfl

theorem references_sound : Sound references (Listed IsReference) :=
  separated_sound _ reference_sound

theorem references_completes : Completes references (Listed IsReference)
    fun sign => sign ≠ .leftBracket ∧ sign ≠ .comma :=
  separated_completes _ reference_completes (by decide)

/-! ### Lists in parentheses -/

section InParentheses

variable {α : Type} {list : Reader (List α)} {phrase : List Lexeme → α → Prop}
  {follows : Symbol → Prop}

/-- A list that may be empty in front of a closing parenthesis. -/
def optional (list : Reader (List α)) : Reader (List α) := ifAhead .rightParen (pure []) list

theorem inParentheses_sound (hList : Sound list (Listed phrase)) :
    Sound (inParentheses (optional list)) (InParentheses phrase) := by
  intro lexemes values rest h
  simp only [inParentheses, ifNext] at h
  split at h
  · rename_i behind hAccept
    obtain ⟨opening, rfl, hOpening⟩ := accept?_eq_some hAccept
    obtain ⟨closing, hClosing, hInner⟩ := endedBy_eq_ok h
    simp only [optional, ifAhead] at hInner
    split at hInner
    · rw [pure_eq_ok] at hInner
      obtain ⟨rfl, rfl⟩ := hInner
      exact ⟨[opening, closing], rfl, .empty hOpening hClosing⟩
    · obtain ⟨inner, rfl, hListed⟩ := hList _ _ _ hInner
      exact ⟨opening :: (inner ++ [closing]), by simp, .given hOpening hListed hClosing⟩
  · rw [pure_eq_ok] at h
    obtain ⟨rfl, rfl⟩ := h
    exact ⟨[], rfl, .absent⟩

/-- The items do not begin with a closing parenthesis. -/
def NeverCloses (phrase : List Lexeme → α → Prop) : Prop :=
  ∀ lexemes value, phrase lexemes value →
    ∃ first others, lexemes = first :: others ∧ first.token ≠ .symbol .rightParen

theorem Listed.not_closing (hPhrase : NeverCloses phrase) {lexemes : List Lexeme}
    {values : List α} (h : Listed phrase lexemes values) :
    ∃ first others, lexemes = first :: others ∧ first.token ≠ .symbol .rightParen := by
  cases h with
  | one hItem => exact hPhrase _ _ hItem
  | more hItem hComma hOthers =>
      obtain ⟨first, others, rfl, hFirst⟩ := hPhrase _ _ hItem
      exact ⟨first, _, rfl, hFirst⟩

/-- A list in parentheses is read in front of everything but a parenthesis. -/
theorem inParentheses_reads (hList : Completes list (Listed phrase) follows)
    (hFollows : follows .rightParen) (hPhrase : NeverCloses phrase) {lexemes : List Lexeme}
    {values : List α} (h : InParentheses phrase lexemes values) {next : Lexeme}
    (hNext : next.token ≠ .symbol .leftParen) (rest : List Lexeme) :
    inParentheses (optional list) (lexemes ++ next :: rest) = .ok (values, next :: rest) := by
  cases h with
  | absent =>
      rw [List.nil_append]
      simp only [inParentheses, ifNext, accept?_other hNext]
      rfl
  | @empty opening closing hOpening hClosing =>
      have hInner : optional list (closing :: next :: rest) =
          .ok ([], closing :: next :: rest) := by
        simp only [optional, ifAhead, accept?_cons hClosing]
        rfl
      simp only [inParentheses, ifNext, List.cons_append, List.nil_append, accept?_cons hOpening]
      exact endedBy_of_ok hClosing hInner
  | @given opening closing inner values hOpening hInner hClosing =>
      have hRead := hList _ _ hInner closing (next :: rest) .rightParen hClosing hFollows
      obtain ⟨first, others, rfl, hFirst⟩ := hInner.not_closing hPhrase
      have hOptional : optional list ((first :: others) ++ closing :: next :: rest) =
          .ok (values, closing :: next :: rest) := by
        rw [List.cons_append] at hRead ⊢
        simp only [optional, ifAhead, accept?_other hFirst]
        exact hRead
      have hSplit : (opening :: ((first :: others) ++ [closing])) ++ next :: rest =
          opening :: ((first :: others) ++ closing :: next :: rest) := by simp
      rw [hSplit]
      simp only [inParentheses, ifNext, accept?_cons hOpening]
      exact endedBy_of_ok hClosing hOptional

end InParentheses

theorem isFormal_neverCloses : NeverCloses IsFormal := by
  rintro lexemes name ⟨hName⟩
  exact ⟨_, [], rfl, by simp [hName]⟩

theorem derives_neverCloses {level : Nat} {lexemes : List Lexeme} {e : Expr} {cost : Nat}
    (h : Derives level lexemes e cost) :
    ∃ first others, lexemes = first :: others ∧ first.token ≠ .symbol .rightParen := by
  induction h with
  | @leaf lexeme e hLeaf =>
      refine ⟨lexeme, [], rfl, ?_⟩
      intro hToken
      simp [hToken, opening?] at hLeaf
  | parenthesis hOpening => exact ⟨_, _, rfl, by simp [hOpening]⟩
  | call hName => exact ⟨_, _, rfl, by simp [hName]⟩
  | minus hSign => exact ⟨_, _, rfl, by simp [hSign]⟩
  | binary hSign hOperator hLeft hRight ihLeft ihRight =>
      obtain ⟨first, others, rfl, hFirst⟩ := ihLeft
      exact ⟨first, _, rfl, hFirst⟩
  | tighter hTighter ih => exact ih

theorem isExpression_neverCloses : NeverCloses IsExpression := by
  rintro lexemes e ⟨cost, hDerives, -, -⟩
  exact derives_neverCloses hDerives

theorem listed_formal_head {lexemes : List Lexeme} {names : List String}
    (h : Listed IsFormal lexemes names) :
    ∃ first others name, lexemes = first :: others ∧ first.token = .identifier name := by
  cases h with
  | one hItem =>
      obtain ⟨hName⟩ := hItem
      exact ⟨_, [], _, rfl, hName⟩
  | more hItem hComma hOthers =>
      obtain ⟨hName⟩ := hItem
      exact ⟨_, _, _, rfl, hName⟩

theorem listed_reference_head {lexemes : List Lexeme} {references : List RegisterRef}
    (h : Listed IsReference lexemes references) :
    ∃ first others name, lexemes = first :: others ∧ first.token = .identifier name := by
  cases h with
  | one hItem =>
      cases hItem with
      | whole hName => exact ⟨_, _, _, rfl, hName⟩
      | element hName => exact ⟨_, _, _, rfl, hName⟩
  | more hItem hComma hOthers =>
      cases hItem with
      | whole hName => exact ⟨_, _, _, rfl, hName⟩
      | element hName => exact ⟨_, _, _, rfl, hName⟩

/-! ### Headers, calls and bodies -/

theorem expressions_eq_optional :
    expressions = optional (separated expression expression_shortens) := rfl

theorem header_sound : Sound header IsHeader := by
  intro lexemes found rest h
  rw [header, bind_eq_ok] at h
  obtain ⟨⟨name, position⟩, behind, hName, h⟩ := h
  obtain ⟨lexeme, rfl, hToken, -⟩ := identifier_eq_ok hName
  rw [bind_eq_ok] at h
  obtain ⟨params, after, hParams, h⟩ := h
  obtain ⟨first, rfl, hFirst⟩ := inParentheses_sound names_sound _ _ _ hParams
  rw [bind_eq_ok] at h
  obtain ⟨qubits, final, hQubits, h⟩ := h
  obtain ⟨second, rfl, hSecond⟩ := names_sound _ _ _ hQubits
  rw [pure_eq_ok] at h
  obtain ⟨rfl, rfl⟩ := h
  exact ⟨lexeme :: (first ++ second), by simp, .mk hToken hFirst hSecond⟩

theorem header_completes : Completes header IsHeader fun sign => sign ≠ .comma := by
  rintro lexemes found hHeader next rest sign hNext hSign
  obtain @⟨name, gate, first, second, params, qubits, hName, hParams, hQubits⟩ := hHeader
  have hRead := names_completes _ _ hQubits next rest sign hNext hSign
  obtain ⟨head, others, word, rfl, hHead⟩ := listed_formal_head hQubits
  have hList : inParentheses formals (first ++ head :: (others ++ next :: rest)) =
      .ok (params, head :: (others ++ next :: rest)) :=
    inParentheses_reads names_completes (by decide) isFormal_neverCloses hParams
      (by simp [hHead]) _
  have hSplit : (name :: (first ++ head :: others)) ++ next :: rest =
      name :: (first ++ head :: (others ++ next :: rest)) := by simp
  rw [hSplit, header, bind_of_ok (identifier_cons hName _)]
  dsimp only
  rw [bind_of_ok hList, ← List.cons_append, bind_of_ok hRead]
  rfl

theorem gateCall_sound : Sound gateCall (IsCall IsExpression) := by
  intro lexemes found rest h
  rw [gateCall, bind_eq_ok] at h
  obtain ⟨⟨name, position⟩, behind, hName, h⟩ := h
  obtain ⟨lexeme, rfl, hToken, hPosition⟩ := identifier_eq_ok hName
  cases hPosition
  rw [bind_eq_ok] at h
  obtain ⟨params, after, hParams, h⟩ := h
  obtain ⟨first, rfl, hFirst⟩ :=
    inParentheses_sound (separated_sound _ expression_sound) _ _ _ hParams
  rw [bind_eq_ok] at h
  obtain ⟨qubits, final, hQubits, h⟩ := h
  obtain ⟨second, rfl, hSecond⟩ := references_sound _ _ _ hQubits
  rw [pure_eq_ok] at h
  obtain ⟨rfl, rfl⟩ := h
  exact ⟨lexeme :: (first ++ second), by simp, .mk hToken hFirst hSecond⟩

theorem gateCall_completes :
    Completes gateCall (IsCall IsExpression) fun sign => sign ≠ .leftBracket ∧ sign ≠ .comma := by
  rintro lexemes found hCall next rest sign hNext hSign
  obtain @⟨name, gate, first, second, params, qubits, hName, hParams, hQubits⟩ := hCall
  have hRead := references_completes _ _ hQubits next rest sign hNext hSign
  obtain ⟨head, others, word, rfl, hHead⟩ := listed_reference_head hQubits
  have hList : inParentheses expressions (first ++ head :: (others ++ next :: rest)) =
      .ok (params, head :: (others ++ next :: rest)) :=
    inParentheses_reads (separated_completes _ expression_completes (by decide)) (by decide)
      isExpression_neverCloses hParams (by simp [hHead]) _
  have hSplit : (name :: (first ++ head :: others)) ++ next :: rest =
      name :: (first ++ head :: (others ++ next :: rest)) := by simp
  rw [hSplit, gateCall, bind_of_ok (identifier_cons hName _)]
  dsimp only
  rw [bind_of_ok hList, ← List.cons_append, bind_of_ok hRead]
  rfl

/-- A call and its semicolon. -/
theorem closed_gateCall {lexemes : List Lexeme} {call : GateCall}
    (hCall : IsCall IsExpression lexemes call) {semicolon : Lexeme}
    (hSemicolon : semicolon.token = .symbol .semicolon)
    (rest : List Lexeme) :
    closed gateCall (lexemes ++ semicolon :: rest) = .ok (call, rest) :=
  endedBy_of_ok hSemicolon
    (gateCall_completes _ _ hCall semicolon rest .semicolon hSemicolon (by decide))

theorem isCall_head {param : List Lexeme → Expr → Prop} {lexemes : List Lexeme} {call : GateCall}
    (h : IsCall param lexemes call) :
    ∃ first others, lexemes = first :: others ∧ first.token = .identifier call.name := by
  obtain ⟨hName, -, -⟩ := h
  exact ⟨_, _, rfl, hName⟩

theorem body_sound : Sound body (IsBody IsExpression) := by
  intro lexemes calls final h
  unfold body at h
  fun_induction repeated bodyCall bodyCall_shortens (beginsWith .rightBrace) lexemes
    generalizing calls final with
  | case1 lexemes hDone =>
      cases h
      exact ⟨[], rfl, .nil⟩
  | case2 => cases h
  | case3 => cases h
  | case4 lexemes hDone call rest hRead calls final hMore ih =>
      cases h
      obtain ⟨others, rfl, hOthers⟩ := ih _ _ hMore
      simp only [bodyCall] at hRead
      split at hRead
      · obtain ⟨semicolon, hSemicolon, hCall⟩ := endedBy_eq_ok hRead
        obtain ⟨first, rfl, hFirst⟩ := gateCall_sound _ _ _ hCall
        exact ⟨first ++ semicolon :: others, by simp, .cons hFirst hSemicolon hOthers⟩
      · cases hRead

/-- Items in steps, for a list that is not done. -/
theorem repeated_eq {α : Type} {item : Reader α} (progress : Shortens item)
    {done : List Lexeme → Bool} {lexemes : List Lexeme} (hDone : done lexemes = false) :
    repeated item progress done lexemes = (do
      let value ← item
      let values ← (repeated item progress done : Reader (List α))
      return value :: values : Reader (List α)) lexemes := by
  rw [repeated, if_neg (by simp [hDone])]
  split
  · rename_i hItem
    rw [bind_of_error hItem]
  · rename_i value rest hItem
    rw [bind_of_ok hItem]
    split
    · rename_i hMore
      rw [bind_of_error hMore]
    · rename_i hMore
      rw [bind_of_ok hMore]
      rfl

/-- One more item of a list that is not done. -/
theorem repeated_step {α : Type} {item : Reader α} (progress : Shortens item)
    {done : List Lexeme → Bool} {lexemes rest final : List Lexeme} {value : α} {values : List α}
    (hDone : done lexemes = false) (hItem : item lexemes = .ok (value, rest))
    (hMore : repeated item progress done rest = .ok (values, final)) :
    repeated item progress done lexemes = .ok (value :: values, final) := by
  rw [repeated_eq progress hDone, bind_of_ok hItem, bind_of_ok hMore]
  rfl

/-- A list that is not done is refused if its next item is, or the items behind it are. -/
theorem repeated_error {α : Type} {item : Reader α} (progress : Shortens item)
    {done : List Lexeme → Bool} {lexemes : List Lexeme} {mismatch : Mismatch}
    (hDone : done lexemes = false) (hItem : item lexemes = .error mismatch) :
    repeated item progress done lexemes = .error mismatch := by
  rw [repeated_eq progress hDone, bind_of_error hItem]

theorem repeated_step_error {α : Type} {item : Reader α} (progress : Shortens item)
    {done : List Lexeme → Bool} {lexemes rest : List Lexeme} {value : α} {mismatch : Mismatch}
    (hDone : done lexemes = false) (hItem : item lexemes = .ok (value, rest))
    (hMore : repeated item progress done rest = .error mismatch) :
    repeated item progress done lexemes = .error mismatch := by
  rw [repeated_eq progress hDone, bind_of_ok hItem, bind_of_error hMore]

theorem repeated_done {α : Type} {item : Reader α} (progress : Shortens item)
    {done : List Lexeme → Bool} {lexemes : List Lexeme} (hDone : done lexemes = true) :
    repeated item progress done lexemes = .ok ([], lexemes) := by
  rw [repeated, if_pos hDone]

theorem body_reads {lexemes : List Lexeme} {calls : List GateCall}
    (h : IsBody IsExpression lexemes calls) {closing : Lexeme}
    (hClosing : closing.token = .symbol .rightBrace) (rest : List Lexeme) :
    body (lexemes ++ closing :: rest) = .ok (calls, closing :: rest) := by
  unfold body
  induction h with
  | nil =>
      apply repeated_done
      simp [beginsWith, accept?_cons hClosing]
  | @cons semicolon first others call calls hCall hSemicolon hOthers ih =>
      obtain ⟨head, more, rfl, hHead⟩ := isCall_head hCall
      have hSplit : ((head :: more) ++ semicolon :: others) ++ closing :: rest =
          (head :: more) ++ semicolon :: (others ++ closing :: rest) := by simp
      rw [hSplit]
      apply repeated_step _ _ _ ih
      · have hOther : head.token ≠ .symbol .rightBrace := by simp [hHead]
        simp [beginsWith, accept?_other hOther]
      · have hBegins : beginsWithIdentifier
            ((head :: more) ++ semicolon :: (others ++ closing :: rest)) = true := by
          simp [beginsWithIdentifier, hHead, Token.kind]
        rw [bodyCall, if_pos hBegins]
        exact closed_gateCall hCall hSemicolon _

/-! ### Statements -/

theorem versionNumber_eq_ok {lexemes rest : List Lexeme} {major minor : UInt32}
    (h : versionNumber lexemes = .ok ((major, minor), rest)) :
    ∃ lexeme, lexemes = lexeme :: rest ∧ IsVersion lexeme major minor := by
  obtain ⟨lexeme, rfl, hSelect⟩ := one_eq_ok h
  refine ⟨lexeme, rfl, ?_⟩
  split at hSelect
  · rename_i hToken
    exact ⟨Or.inl (by rw [hToken]; rfl), versionOf?_eq_some.mp hSelect⟩
  · rename_i hToken
    exact ⟨Or.inr (by rw [hToken]; rfl), versionOf?_eq_some.mp hSelect⟩
  · cases hSelect

theorem versionNumber_cons {lexeme : Lexeme} {major minor : UInt32}
    (h : IsVersion lexeme major minor) (rest : List Lexeme) :
    versionNumber (lexeme :: rest) = .ok ((major, minor), rest) := by
  obtain ⟨hNumber, hText⟩ := h
  rw [← versionOf?_eq_some] at hText
  apply one_cons
  cases hToken : lexeme.token <;> simp [hToken, Token.kind] at hNumber ⊢ <;> exact hText

/-- A statement reader is sound if what it takes is a statement. -/
def TakesStatements (reader : Reader Statement) : Prop := Sound reader (IsStatement IsExpression)

/-- Behind the readers that leave their semicolon to `closed` a statement ends. -/
theorem takesStatements_closed {reader : Reader Statement}
    (h : ∀ lexemes found rest, reader lexemes = .ok (found, rest) →
      ∃ front, lexemes = front ++ rest ∧ ∀ semicolon : Lexeme,
        semicolon.token = .symbol .semicolon →
          IsStatement IsExpression (front ++ [semicolon]) found) :
    TakesStatements (closed reader) := by
  intro lexemes found rest hRead
  obtain ⟨semicolon, hSemicolon, hPhrase⟩ := endedBy_eq_ok hRead
  obtain ⟨front, rfl, hStatement⟩ := h _ _ _ hPhrase
  exact ⟨front ++ [semicolon], by simp, hStatement semicolon hSemicolon⟩

theorem version_taken : TakesStatements (closed version) := by
  apply takesStatements_closed
  intro lexemes found rest h
  rw [version, bind_eq_ok] at h
  obtain ⟨_, _, hKeyword, h⟩ := h
  obtain ⟨word, rfl, hWord, rfl⟩ := keyword_eq_ok hKeyword
  rw [bind_eq_ok] at h
  obtain ⟨⟨major, minor⟩, _, hVersion, h⟩ := h
  obtain ⟨number, rfl, hNumber⟩ := versionNumber_eq_ok hVersion
  dsimp only at h
  rw [pure_eq_ok] at h
  obtain ⟨rfl, rfl⟩ := h
  exact ⟨[word, number], rfl, fun _ hSemicolon => .version hWord hNumber hSemicolon⟩

theorem inclusion_taken : TakesStatements (closed inclusion) := by
  apply takesStatements_closed
  intro lexemes found rest h
  rw [inclusion, bind_eq_ok] at h
  obtain ⟨_, _, hKeyword, h⟩ := h
  obtain ⟨word, rfl, hWord, rfl⟩ := keyword_eq_ok hKeyword
  rw [bind_eq_ok] at h
  obtain ⟨path, _, hString, h⟩ := h
  obtain ⟨content, rfl, hPath⟩ := string_eq_ok hString
  rw [pure_eq_ok] at h
  obtain ⟨rfl, rfl⟩ := h
  exact ⟨[word, content], rfl, fun _ hSemicolon => .inclusion hWord hPath hSemicolon⟩

theorem register_taken (kind : RegisterKind) :
    TakesStatements (closed (registerOf kind (registerWord kind))) := by
  apply takesStatements_closed
  intro lexemes found rest h
  rw [registerOf, bind_eq_ok] at h
  obtain ⟨_, _, hKeyword, h⟩ := h
  obtain ⟨word, rfl, hWord, rfl⟩ := keyword_eq_ok hKeyword
  rw [bind_eq_ok] at h
  obtain ⟨⟨register, _⟩, _, hIdentifier, h⟩ := h
  obtain ⟨name, rfl, hName, -⟩ := identifier_eq_ok hIdentifier
  dsimp only at h
  rw [bind_eq_ok] at h
  obtain ⟨_, _, hLeft, h⟩ := h
  obtain ⟨opening, rfl, hOpening⟩ := symbol_eq_ok hLeft
  rw [bind_eq_ok] at h
  obtain ⟨size, _, hInteger, h⟩ := h
  obtain ⟨number, rfl, hNumber⟩ := integer_eq_ok hInteger
  rw [bind_eq_ok] at h
  obtain ⟨_, _, hRight, h⟩ := h
  obtain ⟨closing, rfl, hClosing⟩ := symbol_eq_ok hRight
  rw [pure_eq_ok] at h
  obtain ⟨rfl, rfl⟩ := h
  exact ⟨[word, name, opening, number, closing], rfl,
    fun _ hSemicolon => .register hWord hName hOpening hNumber hClosing hSemicolon⟩

theorem definition_taken : TakesStatements definition := by
  intro lexemes found rest h
  rw [definition, bind_eq_ok] at h
  obtain ⟨_, _, hKeyword, h⟩ := h
  obtain ⟨word, rfl, hWord, rfl⟩ := keyword_eq_ok hKeyword
  rw [bind_eq_ok] at h
  obtain ⟨gate, _, hHeader, h⟩ := h
  obtain ⟨first, rfl, hFirst⟩ := header_sound _ _ _ hHeader
  rw [bind_eq_ok] at h
  obtain ⟨_, _, hLeft, h⟩ := h
  obtain ⟨opening, rfl, hOpening⟩ := symbol_eq_ok hLeft
  rw [bind_eq_ok] at h
  obtain ⟨calls, _, hBody, h⟩ := h
  obtain ⟨second, rfl, hSecond⟩ := body_sound _ _ _ hBody
  rw [bind_eq_ok] at h
  obtain ⟨_, _, hRight, h⟩ := h
  obtain ⟨closing, rfl, hClosing⟩ := symbol_eq_ok hRight
  rw [pure_eq_ok] at h
  obtain ⟨rfl, rfl⟩ := h
  exact ⟨word :: (first ++ opening :: (second ++ [closing])), by simp,
    .gate hWord hFirst hOpening hSecond hClosing⟩

theorem opaqueDeclaration_taken : TakesStatements (closed opaqueDeclaration) := by
  apply takesStatements_closed
  intro lexemes found rest h
  rw [opaqueDeclaration, bind_eq_ok] at h
  obtain ⟨_, _, hKeyword, h⟩ := h
  obtain ⟨word, rfl, hWord, rfl⟩ := keyword_eq_ok hKeyword
  rw [bind_eq_ok] at h
  obtain ⟨gate, _, hHeader, h⟩ := h
  obtain ⟨front, rfl, hFront⟩ := header_sound _ _ _ hHeader
  rw [pure_eq_ok] at h
  obtain ⟨rfl, rfl⟩ := h
  exact ⟨word :: front, rfl, fun _ hSemicolon => .opaqueGate hWord hFront hSemicolon⟩

theorem application_taken : TakesStatements (closed application) := by
  apply takesStatements_closed
  intro lexemes found rest h
  rw [application, bind_eq_ok] at h
  obtain ⟨call, _, hCall, h⟩ := h
  obtain ⟨front, rfl, hFront⟩ := gateCall_sound _ _ _ hCall
  rw [pure_eq_ok] at h
  obtain ⟨rfl, rfl⟩ := h
  exact ⟨front, rfl, fun _ hSemicolon => .call hFront hSemicolon⟩

theorem measure_taken : TakesStatements (closed measure) := by
  apply takesStatements_closed
  intro lexemes found rest h
  rw [measure, bind_eq_ok] at h
  obtain ⟨_, _, hKeyword, h⟩ := h
  obtain ⟨word, rfl, hWord, rfl⟩ := keyword_eq_ok hKeyword
  rw [bind_eq_ok] at h
  obtain ⟨source, _, hSource, h⟩ := h
  obtain ⟨first, rfl, hFirst⟩ := reference_sound _ _ _ hSource
  rw [bind_eq_ok] at h
  obtain ⟨_, _, hSymbol, h⟩ := h
  obtain ⟨arrow, rfl, hArrow⟩ := symbol_eq_ok hSymbol
  rw [bind_eq_ok] at h
  obtain ⟨target, _, hTarget, h⟩ := h
  obtain ⟨second, rfl, hSecond⟩ := reference_sound _ _ _ hTarget
  rw [pure_eq_ok] at h
  obtain ⟨rfl, rfl⟩ := h
  refine ⟨word :: (first ++ arrow :: second), by simp, fun _ hSemicolon => ?_⟩
  simpa using IsStatement.measure hWord hFirst hArrow hSecond hSemicolon

theorem reset_taken : TakesStatements (closed reset) := by
  apply takesStatements_closed
  intro lexemes found rest h
  rw [reset, bind_eq_ok] at h
  obtain ⟨_, _, hKeyword, h⟩ := h
  obtain ⟨word, rfl, hWord, rfl⟩ := keyword_eq_ok hKeyword
  rw [bind_eq_ok] at h
  obtain ⟨target, _, hTarget, h⟩ := h
  obtain ⟨front, rfl, hFront⟩ := reference_sound _ _ _ hTarget
  rw [pure_eq_ok] at h
  obtain ⟨rfl, rfl⟩ := h
  exact ⟨word :: front, rfl, fun _ hSemicolon => .reset hWord hFront hSemicolon⟩

theorem barrier_taken : TakesStatements (closed barrier) := by
  apply takesStatements_closed
  intro lexemes found rest h
  rw [barrier, bind_eq_ok] at h
  obtain ⟨_, _, hKeyword, h⟩ := h
  obtain ⟨word, rfl, hWord, rfl⟩ := keyword_eq_ok hKeyword
  rw [bind_eq_ok] at h
  obtain ⟨targets, _, hTargets, h⟩ := h
  obtain ⟨front, rfl, hFront⟩ := references_sound _ _ _ hTargets
  rw [pure_eq_ok] at h
  obtain ⟨rfl, rfl⟩ := h
  exact ⟨word :: front, rfl, fun _ hSemicolon => .barrier hWord hFront hSemicolon⟩

theorem condition_taken : TakesStatements (closed condition) := by
  apply takesStatements_closed
  intro lexemes found rest h
  rw [condition, bind_eq_ok] at h
  obtain ⟨_, _, hKeyword, h⟩ := h
  obtain ⟨word, rfl, hWord, rfl⟩ := keyword_eq_ok hKeyword
  rw [bind_eq_ok] at h
  obtain ⟨_, _, hLeft, h⟩ := h
  obtain ⟨opening, rfl, hOpening⟩ := symbol_eq_ok hLeft
  rw [bind_eq_ok] at h
  obtain ⟨⟨register, _⟩, _, hIdentifier, h⟩ := h
  obtain ⟨name, rfl, hName, -⟩ := identifier_eq_ok hIdentifier
  dsimp only at h
  rw [bind_eq_ok] at h
  obtain ⟨_, _, hSymbol, h⟩ := h
  obtain ⟨equals, rfl, hEquals⟩ := symbol_eq_ok hSymbol
  rw [bind_eq_ok] at h
  obtain ⟨value, _, hInteger, h⟩ := h
  obtain ⟨number, rfl, hNumber⟩ := integer_eq_ok hInteger
  rw [bind_eq_ok] at h
  obtain ⟨_, _, hRight, h⟩ := h
  obtain ⟨closing, rfl, hClosing⟩ := symbol_eq_ok hRight
  rw [bind_eq_ok] at h
  obtain ⟨call, _, hCall, h⟩ := h
  obtain ⟨front, rfl, hFront⟩ := gateCall_sound _ _ _ hCall
  rw [pure_eq_ok] at h
  obtain ⟨rfl, rfl⟩ := h
  exact ⟨word :: opening :: name :: equals :: number :: closing :: front, rfl, fun _ hSemicolon =>
    .condition hWord hOpening hName hEquals hNumber hClosing hFront hSemicolon⟩

theorem statementFor?_taken {mode : Mode} {token : Token} {reader : Reader Statement}
    (h : statementFor? mode token = some reader) : TakesStatements reader := by
  unfold statementFor? at h
  split at h <;> cases h
  · exact definition_taken
  · exact opaqueDeclaration_taken
  · exact version_taken
  · exact inclusion_taken
  · exact register_taken .quantum
  · exact register_taken .classical
  · exact measure_taken
  · exact reset_taken
  · exact barrier_taken
  · exact condition_taken
  · exact application_taken

/-- The token that a statement begins with. -/
def firstToken : Statement → Token
  | .version _ _ _ => .keyword .version
  | .inclusion _ _ => .keyword .inclusion
  | .register kind _ _ _ => .keyword (registerWord kind)
  | .gate _ => .keyword .gate
  | .opaqueGate _ _ => .keyword .opaqueGate
  | .call application => .identifier application.name
  | .measure _ _ _ => .keyword .measure
  | .reset _ _ => .keyword .reset
  | .barrier _ _ => .keyword .barrier
  | .condition _ _ _ _ => .keyword .condition

theorem isStatement_head {param : List Lexeme → Expr → Prop} {lexemes : List Lexeme}
    {found : Statement} (h : IsStatement param lexemes found) :
    ∃ first others, lexemes = first :: others ∧ first.token = firstToken found := by
  cases h with
  | version hWord => exact ⟨_, _, rfl, hWord⟩
  | inclusion hWord => exact ⟨_, _, rfl, hWord⟩
  | register hWord => exact ⟨_, _, rfl, hWord⟩
  | gate hWord => exact ⟨_, _, rfl, hWord⟩
  | opaqueGate hWord => exact ⟨_, _, rfl, hWord⟩
  | call hCall =>
      obtain ⟨first, others, rfl, hFirst⟩ := isCall_head hCall
      exact ⟨first, _, rfl, hFirst⟩
  | measure hWord => exact ⟨_, _, rfl, hWord⟩
  | reset hWord => exact ⟨_, _, rfl, hWord⟩
  | barrier hWord => exact ⟨_, _, rfl, hWord⟩
  | condition hWord => exact ⟨_, _, rfl, hWord⟩

/-- A statement is read in a mode exactly if the mode allows it. -/
theorem statementFor?_isSome {mode : Mode} (found : Statement) :
    (statementFor? mode (firstToken found)).isSome = true ↔ mode.Allows found := by
  cases found with
  | register kind name size position =>
      cases mode <;> cases kind <;> simp [firstToken, registerWord, statementFor?, Mode.Allows]
  | _ => cases mode <;> simp [firstToken, statementFor?, Mode.Allows]

/-- **Soundness.**  What is read as a statement is one, and the mode allows it. -/
theorem statement_sound {mode : Mode} {lexemes rest : List Lexeme} {found : Statement}
    (h : statement mode lexemes = .ok (found, rest)) :
    ∃ front, lexemes = front ++ rest ∧ IsStatement IsExpression front found ∧
      mode.Allows found := by
  cases lexemes with
  | nil => cases h
  | cons first others =>
      rw [statement] at h
      cases hReader : statementFor? mode first.token with
      | none =>
          rw [hReader] at h
          cases h
      | some reader =>
          rw [hReader] at h
          obtain ⟨front, hFront, hStatement⟩ := statementFor?_taken hReader _ _ _ h
          obtain ⟨head, more, rfl, hHead⟩ := isStatement_head hStatement
          cases hFront
          refine ⟨first :: more, rfl, hStatement, ?_⟩
          rw [← statementFor?_isSome, ← hHead, hReader]
          rfl

/-- The semicolon behind a phrase is read with it. -/
theorem closed_reads {phrase : Reader Statement} {lexemes : List Lexeme} {found : Statement}
    {semicolon : Lexeme} {rest : List Lexeme} (hSemicolon : semicolon.token = .symbol .semicolon)
    (h : phrase (lexemes ++ semicolon :: rest) = .ok (found, semicolon :: rest)) :
    closed phrase ((lexemes ++ [semicolon]) ++ rest) = .ok (found, rest) := by
  rw [List.append_assoc, List.singleton_append]
  exact endedBy_of_ok hSemicolon h

/-- The reader of the statements that begin with a token takes each of them. -/
theorem statementFor?_reads {mode : Mode} {lexemes : List Lexeme} {found : Statement}
    {reader : Reader Statement} (hReader : statementFor? mode (firstToken found) = some reader)
    (h : IsStatement IsExpression lexemes found) (rest : List Lexeme) :
    reader (lexemes ++ rest) = .ok (found, rest) := by
  cases h with
  | @version word number semicolon major minor hWord hNumber hSemicolon =>
      cases mode <;> cases hReader
      apply @closed_reads _ [word, number] _ _ _ hSemicolon
      rw [List.cons_append, List.singleton_append, version, bind_of_ok (keyword_cons hWord _),
        bind_of_ok (versionNumber_cons hNumber _)]
      rfl
  | @inclusion word content semicolon path hWord hPath hSemicolon =>
      cases mode <;> cases hReader
      apply @closed_reads _ [word, content] _ _ _ hSemicolon
      rw [List.cons_append, List.singleton_append, inclusion, bind_of_ok (keyword_cons hWord _),
        bind_of_ok (string_cons hPath _)]
      rfl
  | @register kind word name opening number closing semicolon register size hWord hName hOpening
      hNumber hClosing hSemicolon =>
      have hClosed : reader = closed (registerOf kind (registerWord kind)) := by
        cases mode <;> cases kind <;> cases hReader <;> rfl
      subst hClosed
      apply @closed_reads _ [word, name, opening, number, closing] _ _ _ hSemicolon
      simp only [List.cons_append, List.nil_append]
      rw [registerOf, bind_of_ok (keyword_cons hWord _), bind_of_ok (identifier_cons hName _)]
      dsimp only
      rw [bind_of_ok (symbol_cons hOpening _), bind_of_ok (integer_cons hNumber _),
        bind_of_ok (symbol_cons hClosing _)]
      rfl
  | @gate word opening closing first second header calls hWord hHeader hOpening hBody hClosing =>
      have hDefinition : reader = definition := by
        cases mode <;> cases hReader <;> rfl
      subst hDefinition
      have hHead := header_completes _ _ hHeader opening (second ++ closing :: rest) .leftBrace
        hOpening (by decide)
      have hSplit : (word :: (first ++ opening :: (second ++ [closing]))) ++ rest =
          word :: (first ++ opening :: (second ++ closing :: rest)) := by simp
      rw [hSplit, definition, bind_of_ok (keyword_cons hWord _), bind_of_ok hHead,
        bind_of_ok (symbol_cons hOpening _), bind_of_ok (body_reads hBody hClosing rest),
        bind_of_ok (symbol_cons hClosing _)]
      rfl
  | @opaqueGate word semicolon lexemes header hWord hHeader hSemicolon =>
      have hClosed : reader = closed opaqueDeclaration := by
        cases mode <;> cases hReader <;> rfl
      subst hClosed
      have hHead := header_completes _ _ hHeader semicolon rest .semicolon hSemicolon (by decide)
      apply @closed_reads _ (word :: lexemes) _ _ _ hSemicolon
      rw [List.cons_append, opaqueDeclaration, bind_of_ok (keyword_cons hWord _), bind_of_ok hHead]
      rfl
  | @call semicolon lexemes application hCall hSemicolon =>
      cases mode <;> cases hReader
      have hRead := gateCall_completes _ _ hCall semicolon rest .semicolon hSemicolon (by decide)
      apply closed_reads hSemicolon
      rw [Grammar.application, bind_of_ok hRead]
      rfl
  | @measure word arrow semicolon first second source target hWord hSource hArrow hTarget
      hSemicolon =>
      cases mode <;> cases hReader
      have hFrom :=
        reference_completes _ _ hSource arrow (second ++ semicolon :: rest) .arrow hArrow
        (by decide)
      have hTo := reference_completes _ _ hTarget semicolon rest .semicolon hSemicolon (by decide)
      have hSplit : (word :: (first ++ arrow :: (second ++ [semicolon]))) ++ rest =
          ((word :: (first ++ arrow :: second)) ++ [semicolon]) ++ rest := by simp
      have hSplit' : (word :: (first ++ arrow :: second)) ++ semicolon :: rest =
          word :: (first ++ arrow :: (second ++ semicolon :: rest)) := by simp
      rw [hSplit]
      apply closed_reads hSemicolon
      rw [hSplit', Grammar.measure, bind_of_ok (keyword_cons hWord _), bind_of_ok hFrom,
        bind_of_ok (symbol_cons hArrow _), bind_of_ok hTo]
      rfl
  | @reset word semicolon lexemes target hWord hTarget hSemicolon =>
      cases mode <;> cases hReader
      have hRead := reference_completes _ _ hTarget semicolon rest .semicolon hSemicolon (by decide)
      apply @closed_reads _ (word :: lexemes) _ _ _ hSemicolon
      rw [List.cons_append, Grammar.reset, bind_of_ok (keyword_cons hWord _), bind_of_ok hRead]
      rfl
  | @barrier word semicolon lexemes targets hWord hTargets hSemicolon =>
      cases mode <;> cases hReader
      have hRead := references_completes _ _ hTargets semicolon rest .semicolon hSemicolon
        (by decide)
      apply @closed_reads _ (word :: lexemes) _ _ _ hSemicolon
      rw [List.cons_append, Grammar.barrier, bind_of_ok (keyword_cons hWord _), bind_of_ok hRead]
      rfl
  | @condition word opening name equals number closing semicolon lexemes register value application
      hWord hOpening hName hEquals hNumber hClosing hCall hSemicolon =>
      cases mode <;> cases hReader
      have hRead := gateCall_completes _ _ hCall semicolon rest .semicolon hSemicolon (by decide)
      apply @closed_reads _
        (word :: opening :: name :: equals :: number :: closing :: lexemes) _ _ _ hSemicolon
      simp only [List.cons_append]
      rw [Grammar.condition, bind_of_ok (keyword_cons hWord _), bind_of_ok (symbol_cons hOpening _),
        bind_of_ok (identifier_cons hName _)]
      dsimp only
      rw [bind_of_ok (symbol_cons hEquals _), bind_of_ok (integer_cons hNumber _),
        bind_of_ok (symbol_cons hClosing _), bind_of_ok hRead]
      rfl

/-- **Completeness.**  A statement that the mode allows is read, whatever stands behind it. -/
theorem statement_completes {mode : Mode} {lexemes : List Lexeme} {found : Statement}
    (h : IsStatement IsExpression lexemes found) (hMode : mode.Allows found) (rest : List Lexeme) :
    statement mode (lexemes ++ rest) = .ok (found, rest) := by
  obtain ⟨reader, hReader⟩ := Option.isSome_iff_exists.mp ((statementFor?_isSome found).mpr hMode)
  obtain ⟨first, others, rfl, hFirst⟩ := isStatement_head h
  rw [List.cons_append, statement, hFirst, hReader]
  exact statementFor?_reads hReader h rest

/-! ### Programs -/

/-- Statements that are read up to the end are a program. -/
theorem statements_sound {mode : Mode} {lexemes rest : List Lexeme} {found : List Statement}
    (h : statements mode lexemes = .ok (found, rest)) :
    rest = [] ∧ IsProgram IsExpression lexemes found ∧ ∀ s ∈ found, mode.Allows s := by
  unfold statements at h
  fun_induction repeated (statement mode) (statement_shortens mode) List.isEmpty lexemes
    generalizing found rest with
  | case1 lexemes hDone =>
      cases h
      rw [List.isEmpty_iff] at hDone
      subst hDone
      exact ⟨rfl, .nil, by simp⟩
  | case2 => cases h
  | case3 => cases h
  | case4 lexemes hDone value behind hRead values final hMore ih =>
      cases h
      obtain ⟨rfl, hOthers, hAllowed⟩ := ih hMore
      obtain ⟨front, rfl, hStatement, hAllows⟩ := statement_sound hRead
      refine ⟨rfl, .cons hStatement hOthers, ?_⟩
      intro s hs
      rw [List.mem_cons] at hs
      rcases hs with rfl | hs
      · exact hAllows
      · exact hAllowed s hs

/-- A program is read to its end. -/
theorem statements_completes {mode : Mode} {lexemes : List Lexeme} {found : List Statement}
    (h : IsProgram IsExpression lexemes found) (hMode : ∀ s ∈ found, mode.Allows s) :
    statements mode lexemes = .ok (found, []) := by
  unfold statements
  induction h with
  | nil => exact repeated_done _ rfl
  | @cons first others statement statements hStatement hOthers ih =>
      have hRead := statement_completes hStatement (hMode _ (List.mem_cons_self ..)) others
      refine repeated_step _ ?_ hRead (ih fun s hs => hMode s (List.mem_cons_of_mem _ hs))
      obtain ⟨head, more, rfl, -⟩ := isStatement_head hStatement
      rfl

/-- Behind a program, statements are read as on their own. -/
theorem statements_append {mode : Mode} {front : List Lexeme} {found : List Statement}
    (h : IsProgram IsExpression front found) (hMode : ∀ s ∈ found, mode.Allows s)
    (rest : List Lexeme) :
    statements mode (front ++ rest) = (do
      let more ← statements mode
      return found ++ more : Reader (List Statement)) rest := by
  induction h with
  | nil =>
      simp only [List.nil_append]
      exact (congrFun (bind_pure (statements mode)) rest).symm
  | @cons first others statement more hStatement hOthers ih =>
      rw [List.forall_mem_cons] at hMode
      -- a statement is not empty, so the repetition does not end in front of it
      obtain ⟨head, behind, rfl, -⟩ := isStatement_head hStatement
      have hRead := statement_completes hStatement hMode.1 (others ++ rest)
      rw [List.append_assoc, statements, repeated_eq _ (by rfl), bind_of_ok hRead]
      refine (bind_congr_at (ih hMode.2)).trans ?_
      simp only [bind_assoc, pure_bind, List.cons_append]
      rfl

end Grammar
end QuantumCircuit
