import QuantumCircuit.Proofs.Grammar.StuckExpression

/-!
# Where statements get stuck

What is omitted inside of a statement depends on the token that the statement begins with and on
the tokens behind which the reader is stuck.

* `reference_tells`, `names_tells`, `inParentheses_tells` : references and lists.
* `callOn_tells`, `closedBody_tells` : calls and bodies.
* `statementFor?_tells` : the statements that begin with a token.
-/

namespace QuantumCircuit
namespace Grammar

variable {α : Type} {spot : Spot}

/-! ### References and lists -/

theorem Listed.joins {item : List Lexeme → α → Prop}
    (hItem : ∀ part value, item part value → Joins part) {lexemes : List Lexeme} {values : List α}
    (h : Listed item lexemes values) : Joins lexemes := by
  induction h with
  | one hPart => exact hItem _ _ hPart
  | more hPart hComma hOthers ih =>
      exact List.forall_mem_append.mpr
        ⟨hItem _ _ hPart, List.forall_mem_cons.mpr ⟨by rw [hComma]; rfl, ih⟩⟩

theorem IsReference.joins {lexemes : List Lexeme} {found : RegisterRef}
    (h : IsReference lexemes found) : Joins lexemes := by
  cases h with
  | whole hName => simp [Joins, hName, Token.separates]
  | element hName hOpening hNumber hClosing =>
      simp [Joins, hName, hOpening, hNumber, hClosing, Token.separates]

/-- An index and the bracket behind it. -/
theorem indexOf_tells {name opening : Lexeme} {register : String}
    (hName : name.token = .identifier register) (hOpening : opening.token = .symbol .leftBracket)
    (lexemes : List Lexeme) :
    Tells (indexOf register name.position) (fun part => IsReference (name :: opening :: part))
      indexSigns (spot.past opening) lexemes := by
  exact integer_then rfl fun number index _ hNumber => symbol_then rfl
    fun closing _ hClosing => .done (.element hName hOpening hNumber hClosing) rfl

/-- A reference goes on with an index behind its name. -/
theorem reference_tells (hFits : spot.Fits [.token .identifier]) (lexemes : List Lexeme) :
    Tells reference IsReference indexSigns spot lexemes := by
  refine identifier_then hFits fun name register rest hName => ?_
  have hIndex : GoesOnWith (fun part => IsReference (name :: part)) [.leftBracket] [] := by
    refine List.forall_mem_singleton.mpr fun opening hOpening => ?_
    have hNumber : (Token.lexeme (.integer 0)).token = .integer 0 := rfl
    have hClosing : (Token.lexeme (.symbol .rightBracket)).token = .symbol .rightBracket := rfl
    exact ⟨[_, _], _, .element hName hOpening hNumber hClosing⟩
  refine .ifNext (fun opening behind _ hOpening => indexOf_tells hName hOpening behind)
    (fun hOther => .pure (.whole hName) hOther hIndex) hIndex (.inl (List.mem_singleton_self _))

/-- Behind a comma a name is asked for, and nothing else could stand. -/
theorem fits_name_past_comma (spot : Spot) {comma : Lexeme}
    (hComma : comma.token = .symbol .comma) :
    (spot.past comma).Fits [.token .identifier] := by
  rw [spot.past_eq hComma]
  rfl

theorem references_tells (hFits : spot.Fits [.token .identifier]) (lexemes : List Lexeme) :
    Tells references (Listed IsReference) (fun back => .comma :: indexSigns back) spot lexemes :=
  separated_tells reference_shortens (fun _ lexemes hSpot => reference_tells hSpot lexemes)
    (fun spot front _ _ _ _ hComma => fits_name_past_comma (spot.along front) hComma) hFits lexemes

theorem names_tells (hFits : spot.Fits [.token .identifier]) (lexemes : List Lexeme) :
    Tells names (Listed IsFormal) (fun _ => [.comma]) spot lexemes :=
  (separated_tells identifier_shortens (fun _ lexemes hSpot => identifier_tells hSpot lexemes)
    (fun spot front _ _ _ _ hComma => fits_name_past_comma (spot.along front) hComma) hFits
      lexemes).map fun _ _ hListed => listed_formal_of_placed hListed

/-! ### Lists in parentheses -/

/-- An empty list is closed at once. -/
theorem endedBy_optional (list : Reader (List α)) :
    endedBy .rightParen (optional list) =
      ifNext .rightParen (pure []) (endedBy .rightParen list) := by
  funext lexemes
  cases hAccept : accept? .rightParen lexemes with
  | some rest =>
      obtain ⟨closing, rfl, hClosing⟩ := accept?_eq_some hAccept
      have hEmpty : optional list (closing :: rest) = .ok ([], closing :: rest) := by
        simp only [optional, ifAhead, hAccept]
        rfl
      simp only [ifNext, hAccept, endedBy_of_ok hClosing hEmpty]
      rfl
  | none =>
      have hList : optional list lexemes = list lexemes := by simp only [optional, ifAhead, hAccept]
      simp only [ifNext, hAccept, endedBy, bind_congr_at hList]

/-- The spot behind a parenthesis that opens. -/
def Spot.inParentheses (spot : Spot) : Spot := ⟨.symbol .leftParen :: spot.back, []⟩

/-- Behind the name of a gate a list in parentheses may stand, and it may be empty. -/
theorem inParentheses_tells {list : Reader (List α)} {phrase : List Lexeme → α → Prop}
    {opens : List Token → List Symbol} {gate : String} {tail : List Token}
    (hSpot : spot.back = .identifier gate :: tail)
    (hList : ∀ lexemes, Tells list (Listed phrase) opens (spot.inParentheses.refusing [.rightParen])
      lexemes)
    (hPhrase : NeverCloses phrase)
    (hCloses : ∀ front values, Listed phrase front values →
      ((spot.inParentheses.along front).refusing
        (opens (spot.inParentheses.along front).back)).Fits [.token (.symbol .rightParen)])
    (lexemes : List Lexeme) :
    Tells (inParentheses (optional list)) (InParentheses phrase) nameOmits spot lexemes := by
  have hOpens : nameOmits spot.back = [.leftParen] := by rw [hSpot]; rfl
  have hSign : GoesOnWith (InParentheses phrase) [.leftParen] [] := by
    refine List.forall_mem_singleton.mpr fun opening hOpening => ?_
    have hClosing : (Token.lexeme (.symbol .rightParen)).token = .symbol .rightParen := rfl
    exact ⟨[_], [], .empty hOpening hClosing⟩
  refine .ifNext (fun opening rest _ hOpening => ?_)
    (fun hOther => .pure .absent ?_ ?_) hSign (.inl ?_)
  · have hInside : spot.past opening = spot.inParentheses := spot.past_eq hOpening
    have hOmits : nameOmits spot.inParentheses.back = [.rightParen] := by
      rw [Spot.inParentheses, hSpot]
      rfl
    rw [endedBy_optional, hInside]
    refine .ifNext (fun closing behind _ hClosing => .done (.empty hOpening hClosing) ?_)
      (fun _ => ?_) ?_ (.inl ?_)
    · rw [Spot.past_eq _ hClosing]
      rfl
    · refine then_symbol (hList rest) (fun front values hPart => ?_)
        (fun front values closing hPart hClosing => .given hOpening hPart hClosing) fun _ => rfl
      -- the list has begun, so its first item has been taken since the parenthesis was refused
      have hFits := hCloses front values hPart
      obtain ⟨first, others, rfl, -⟩ := hPart.not_closing hPhrase
      exact hFits
    · refine List.forall_mem_singleton.mpr fun closing hClosing => ?_
      exact ⟨[], [], .empty hOpening hClosing⟩
    · rw [hOmits]
      exact List.mem_singleton_self _
  · rwa [Spot.refusing_back, hOpens]
  · rwa [Spot.refusing_back, hOpens]
  · rw [hOpens]
    exact List.mem_singleton_self _

/-! ### Headers and calls -/

theorem declares_along (hSpot : spot.back ≠ []) {front : List Lexeme} (hFront : Joins front) :
    declares (spot.along front).back = declares spot.back := by
  rw [spot.along_back hFront, declares_append hSpot]

theorem isFormal_joins (lexemes : List Lexeme) (name : String) (h : IsFormal lexemes name) :
    Joins lexemes := by
  obtain ⟨hName⟩ := h
  simp [Joins, hName, Token.separates]

/-- The formal parameters of a gate: the comma is all that goes on them. -/
theorem formals_tells {gate : String} {tail : List Token}
    (hSpot : spot.back = .identifier gate :: tail) (hDeclares : declares spot.back = true)
    (lexemes : List Lexeme) :
    Tells (inParentheses formals) (InParentheses IsFormal) nameOmits spot lexemes := by
  have hSome : spot.back ≠ [] := by
    rw [hSpot]
    exact List.cons_ne_nil _ _
  have hInside : (spot.inParentheses.refusing [.rightParen]).Fits [.token .identifier] := by
    rw [Spot.Fits, Spot.refusing_back, Spot.inParentheses, hSpot]
    rfl
  refine inParentheses_tells hSpot (names_tells hInside) isFormal_neverCloses
    (fun front values hPart => Spot.fits_refusing (Spot.along_refused rfl front) ?_) lexemes
  have hAlong : declares (spot.inParentheses.along front).back = true := by
    rw [declares_along (List.cons_ne_nil _ _) (hPart.joins isFormal_joins)]
    exact (declares_append hSome [_]).trans hDeclares
  exact if_pos hAlong

/-- The header of a declaration goes on with more formal qubits. -/
theorem header_tells (hFits : spot.Fits [.token .identifier])
    (hDeclares : declares spot.back = true)
    (lexemes : List Lexeme) : Tells header IsHeader (fun _ => [.comma]) spot lexemes := by
  have hSome : spot.back ≠ [] := by
    intro hNil
    rw [hNil] at hDeclares
    cases hDeclares
  refine identifier_then hFits fun name gate rest hName =>
    (formals_tells rfl ((declares_append hSome [_]).trans hDeclares) rest).andThen
      (.inl fun _ => ?_) fun front params behind hParams => (names_tells ?_ behind).map
        fun part qubits hQubits => .mk hName hParams hQubits
  · exact names_shortens.bind fun _ => pure_neverGrows _
  · exact Spot.fits_refusing (Spot.along_refused rfl front) rfl

/-- The spot behind the name of a gate that is called: every parenthesis has been closed. -/
structure Called (spot : Spot) (gate : String) : Prop where
  name : ∃ tail, spot.back = .identifier gate :: tail
  declares : declares spot.back = false
  compares : compares spot.back = false
  closed : spot.back.count (.symbol .rightParen) = spot.back.count (.symbol .leftParen)
  refused : spot.refused = []

theorem Called.ne_nil {gate : String} (h : Called spot gate) : spot.back ≠ [] := by
  obtain ⟨tail, hBack⟩ := h.name
  rw [hBack]
  exact List.cons_ne_nil _ _

/-- Behind the parenthesis that opens the parameters an operand can stand. -/
theorem Called.operand {gate : String} (h : Called spot gate) :
    Operand (spot.inParentheses.refusing [.rightParen]) where
  unclosed :=
    { declares := (declares_append h.ne_nil [_]).trans h.declares
      compares := compares_append h.ne_nil h.compares [_]
      opened := by
        have hClosed := h.closed
        simp only [Spot.refusing_back, Spot.inParentheses, List.count_cons]
        simp
        omega }
  behind := fun name => by simp [Spot.inParentheses]
  fits := by
    obtain ⟨tail, hTail⟩ := h.name
    rw [Spot.Fits, omittedSymbols_expressionStart, Spot.refusing_back, Spot.inParentheses, hTail]
    rfl

/-- Expressions with commas between them. -/
theorem expressions_tells (hSpot : Operand spot) (lexemes : List Lexeme) :
    Tells (separated expression expression_shortens) (Listed IsFormula)
      (fun _ => .comma :: operatorSigns 0) spot lexemes := by
  refine separated_tells expression_shortens (fun _ lexemes hSpot => expression_tells hSpot lexemes)
    (fun spot front e comma hSpot hFormula hComma => ?_) hSpot lexemes
  obtain ⟨cost, hDerives⟩ := hFormula
  apply Operand.past (hSpot.unclosed.along hDerives.balanced) <;> simp [hComma, Token.separates]

/-- Lists of phrases that are balanced are balanced. -/
theorem Listed.balanced {item : List Lexeme → α → Prop}
    (hItem : ∀ part value, item part value → Balanced part) {lexemes : List Lexeme}
    {values : List α} (h : Listed item lexemes values) : Balanced lexemes := by
  refine ⟨h.joins fun part value hPart => (hItem part value hPart).joins, ?_⟩
  induction h with
  | one hPart => exact (hItem _ _ hPart).count
  | more hPart hComma hOthers ih => simp [hComma, (hItem _ _ hPart).count, ih]

theorem isFormula_balanced (lexemes : List Lexeme) (e : Expr) (h : IsFormula lexemes e) :
    Balanced lexemes := by
  obtain ⟨cost, hDerives⟩ := h
  exact hDerives.balanced

/-- The parameters of a call go on with operators and with a comma. -/
theorem parameters_tells {gate : String} (hSpot : Called spot gate) (lexemes : List Lexeme) :
    Tells (inParentheses expressions) (InParentheses IsFormula) nameOmits spot lexemes := by
  obtain ⟨tail, hBack⟩ := hSpot.name
  refine inParentheses_tells hBack (expressions_tells hSpot.operand) isFormula_neverCloses
    (fun front values hPart => Spot.fits_refusing (Spot.along_refused rfl front) ?_) lexemes
  have hBalanced := hPart.balanced isFormula_balanced
  have hInside := hSpot.operand.unclosed.along hBalanced
  rw [Spot.along_refusing_back] at hInside
  -- only the parenthesis of the parameters is open
  have hNests : nests (spot.inParentheses.along front).back = false := by
    have hClosed := hSpot.closed
    rw [nests, decide_eq_false_iff_not, Spot.along_back _ hBalanced.joins, Spot.inParentheses]
    simp only [List.count_append, hBalanced.count_reverse]
    simp
    omega
  simp [omittedSymbols, parenthesisOmits, hInside.declares, hInside.compares, hNests]

/-- Reads a gate call behind the name of its gate. -/
def callOn (name : String) (position : Position) : Reader GateCall := do
  let params ← inParentheses expressions
  let qubits ← references
  return ⟨name, params, qubits, position⟩

theorem gateCall_eq : gateCall = identifier >>= fun found => callOn found.1 found.2 := rfl

/-- A call goes on with parameters behind the name of its gate, and with more arguments. -/
theorem callOn_tells {name : Lexeme} {gate : String} (hName : name.token = .identifier gate)
    (hSpot : Called spot gate) (lexemes : List Lexeme) :
    Tells (callOn gate name.position) (fun part => IsCall IsFormula (name :: part))
      (fun back => .comma :: indexSigns back) spot lexemes := by
  refine (parameters_tells hSpot lexemes).andThen (.inl fun _ => ?_)
    fun front params behind hParams => (references_tells ?_ behind).map
      fun part qubits hQubits => .mk hName hParams hQubits
  · exact references_shortens.bind fun _ => pure_neverGrows _
  · exact Spot.fits_refusing (Spot.along_refused hSpot.refused front) rfl

theorem InParentheses.joins {item : List Lexeme → α → Prop}
    (hItem : ∀ part value, item part value → Joins part) {lexemes : List Lexeme}
    {values : List α} (h : InParentheses item lexemes values) : Joins lexemes := by
  cases h with
  | absent => exact List.forall_mem_nil _
  | empty hOpening hClosing => simp [Joins, hOpening, hClosing, Token.separates]
  | given hOpening hInner hClosing =>
      have hJoins := hInner.joins hItem
      exact List.forall_mem_cons.mpr ⟨by rw [hOpening]; rfl, List.forall_mem_append.mpr
        ⟨hJoins, List.forall_mem_singleton.mpr (by rw [hClosing]; rfl)⟩⟩

theorem IsCall.joins {lexemes : List Lexeme} {call : GateCall} (h : IsCall IsFormula lexemes call) :
    Joins lexemes := by
  obtain ⟨hName, hParams, hQubits⟩ := h
  have hFirst := hParams.joins fun part e hPart => (isFormula_balanced part e hPart).joins
  have hSecond := hQubits.joins fun _ _ hPart => hPart.joins
  exact List.forall_mem_cons.mpr
    ⟨by rw [hName]; rfl, List.forall_mem_append.mpr ⟨hFirst, hSecond⟩⟩

theorem IsHeader.joins {lexemes : List Lexeme} {header : GateHeader} (h : IsHeader lexemes header) :
    Joins lexemes := by
  obtain ⟨hName, hParams, hQubits⟩ := h
  have hFirst := hParams.joins isFormal_joins
  have hSecond := hQubits.joins isFormal_joins
  exact List.forall_mem_cons.mpr
    ⟨by rw [hName]; rfl, List.forall_mem_append.mpr ⟨hFirst, hSecond⟩⟩

/-! ### Ends of statements -/

/-- A statement that has been begun goes on with the token that it begins with. -/
theorem getLast?_along (hSpot : spot.back ≠ []) {front : List Lexeme} (hFront : Joins front) :
    (spot.along front).back.getLast? = spot.back.getLast? := by
  rw [spot.along_back hFront, List.getLast?_append_of_ne_nil _ hSpot]

/-- What is omitted in front of a semicolon has been refused, if it follows from the token that the
statement begins with. -/
theorem fits_semicolon {word : Token} (hWord : spot.back.getLast? = some word)
    (hRefused : spot.refused = []) {front : List Lexeme} (hFront : Joins front)
    (opens : List Token → List Symbol)
    (hOmits : ∀ back, back.getLast? = some word → semicolonOmits back = opens back) :
    ((spot.along front).refusing (opens (spot.along front).back)).Fits
      [.token (.symbol .semicolon)] := by
  have hSpot : spot.back ≠ [] := by
    intro hNil
    rw [hNil] at hWord
    cases hWord
  exact Spot.fits_refusing (Spot.along_refused hRefused front)
    (hOmits _ ((getLast?_along hSpot hFront).trans hWord))

theorem EndedBy.getLast? {sign : Symbol} {phrase : List Lexeme → α → Prop} {lexemes : List Lexeme}
    {value : α} (h : EndedBy sign phrase lexemes value) :
    ∃ final, lexemes.getLast? = some final ∧ final.token = .symbol sign := by
  obtain ⟨-, hFinal⟩ := h
  exact ⟨_, by simp, hFinal⟩

/-! ### Bodies -/

theorem misses_bodyContinuation {lexemes : List Lexeme} :
    Misses bodyContinuation lexemes ↔
      beginsWith .rightBrace lexemes = false ∧ beginsWithIdentifier lexemes = false := by
  cases lexemes with
  | nil => simp [Misses, beginsWith, accept?, beginsWithIdentifier]
  | cons first rest =>
      by_cases hBrace : first.token = .symbol .rightBrace <;>
        simp [Misses, bodyContinuation, Expectation.Describes, kind_eq_symbol, beginsWith, accept?,
          beginsWithIdentifier, hBrace]

/-- Reads a body and its closing brace, and makes something of the calls. -/
def closedBody {β : Type} (f : List GateCall → β) : Reader β := do
  let calls ← body
  symbol .rightBrace
  return f calls

theorem closedBody_brace {β : Type} (f : List GateCall → β) {closing : Lexeme}
    (hClosing : closing.token = .symbol .rightBrace) (rest : List Lexeme) :
    closedBody f (closing :: rest) = .ok (f [], rest) := by
  have hDone : beginsWith .rightBrace (closing :: rest) = true := by
    rw [beginsWith, accept?_cons hClosing]
    rfl
  have hBody : body (closing :: rest) = .ok ([], closing :: rest) :=
    repeated_done bodyCall_shortens hDone
  rw [closedBody, bind_of_ok hBody, bind_of_ok (symbol_cons hClosing rest)]
  rfl

/-- Behind the name of a gate a call is read, and then the rest of the body. -/
theorem closedBody_call {β : Type} (f : List GateCall → β) {name : Lexeme} {gate : String}
    (hName : name.token = .identifier gate) (rest : List Lexeme) :
    closedBody f (name :: rest) = (do
      let call ← closed (callOn gate name.position)
      closedBody fun calls => f (call :: calls) : Reader β) rest := by
  have hDone : beginsWith .rightBrace (name :: rest) = false := by
    simp [beginsWith, accept?, hName]
  have hCall : bodyCall (name :: rest) = closed (callOn gate name.position) rest := by
    have hBegins : beginsWithIdentifier (name :: rest) = true := by
      simp [beginsWithIdentifier, hName, Token.kind]
    rw [bodyCall, if_pos hBegins, closed, endedBy, gateCall_eq, bind_assoc,
      bind_of_ok (identifier_cons hName rest)]
    rfl
  have hBody : body (name :: rest) = (do
      let call ← bodyCall
      let calls ← body
      return call :: calls : Reader (List GateCall)) (name :: rest) :=
    repeated_eq bodyCall_shortens hDone
  rw [closedBody, bind_congr_at hBody]
  simp only [bind_assoc, pure_bind]
  exact bind_congr_at hCall

theorem closedBody_error {β : Type} (f : List GateCall → β) {lexemes : List Lexeme}
    (h : Misses bodyContinuation lexemes) :
    closedBody f lexemes = .error ⟨bodyContinuation, lexemes⟩ := by
  obtain ⟨hDone, hBegins⟩ := misses_bodyContinuation.mp h
  have hCall : bodyCall lexemes = .error ⟨bodyContinuation, lexemes⟩ := by
    rw [bodyCall, hBegins]
    rfl
  exact bind_of_error (repeated_error bodyCall_shortens hDone hCall)

/-- A call and a semicolon, in a statement that lists references up to the semicolon. -/
theorem closedCall_tells {β : Type} {f : GateCall → β} {whole : List Lexeme → β → Prop}
    {name : Lexeme} {gate : String} (hName : name.token = .identifier gate)
    (hSpot : Called spot gate) {word : Token} (hWord : spot.back.getLast? = some word)
    (hOmits : ∀ back, back.getLast? = some word → semicolonOmits back = .comma :: indexSigns back)
    (hWhole : ∀ front call final, IsCall IsFormula (name :: front) call →
      final.token = .symbol .semicolon → whole (front ++ [final]) (f call))
    (lexemes : List Lexeme) :
    Tells (do
      let call ← callOn gate name.position
      symbol .semicolon
      return f call) whole (fun _ => []) spot lexemes :=
  then_symbol (callOn_tells hName hSpot lexemes) (fun _ _ hPart =>
    fits_semicolon hWord hSpot.refused (List.forall_mem_cons.mp hPart.joins).2 _ hOmits)
    hWhole fun _ => rfl

/-- The name of a gate that begins a statement, or a call in a body. -/
theorem called_first (gate : String) : Called ⟨[.identifier gate], []⟩ gate where
  name := ⟨[], rfl⟩
  declares := by simp [Grammar.declares]
  compares := by simp [Grammar.compares]
  closed := by simp
  refused := rfl

theorem semicolonOmits_call {gate : String} {back : List Token}
    (h : back.getLast? = some (.identifier gate)) :
    semicolonOmits back = .comma :: indexSigns back := by
  rw [semicolonOmits, h]

/-- Where a body can go on, a call can begin, or the body ends. -/
theorem describes_bodyContinuation {lexeme : Lexeme} :
    (∃ expectation ∈ bodyContinuation, expectation.Describes lexeme) ↔
      (∃ name, lexeme.token = .identifier name) ∨ lexeme.token = .symbol .rightBrace := by
  cases hToken : lexeme.token <;>
    simp [bodyContinuation, Expectation.Describes, Token.kind, hToken]

theorem isClosedBody_nil : IsClosedBody [Token.lexeme (.symbol .rightBrace)] [] :=
  .mk .nil rfl

/-- With each of the lexemes with which a body can go on, one begins. -/
theorem begins_closedBody {lexeme : Lexeme}
    (h : ∃ expectation ∈ bodyContinuation, expectation.Describes lexeme) :
    Begins IsClosedBody [lexeme] := by
  obtain ⟨name, hName⟩ | hClosing := describes_bodyContinuation.mp h
  · have hArgument : IsReference [Token.lexeme (.identifier "q")] ⟨"q", none, .start⟩ := .whole rfl
    have hCall : IsCall IsFormula [lexeme, Token.lexeme (.identifier "q")] _ :=
      .mk hName .absent (.one hArgument)
    have hSemicolon : (Token.lexeme (.symbol .semicolon)).token = .symbol .semicolon := rfl
    have hBody := IsClosedBody.cons (.mk hCall hSemicolon) isClosedBody_nil
    exact ⟨[_, _, _], _, hBody⟩
  · exact ⟨[], _, .mk .nil hClosing⟩

/-- **Bodies.**  A body and its closing brace: each of its calls begins in a clear spot. -/
theorem closedBody_tells {β : Type} (f : List GateCall → β) (lexemes : List Lexeme) :
    Tells (closedBody f) (fun part value => ∃ calls, IsClosedBody part calls ∧ f calls = value)
      (fun _ => []) .clear lexemes := by
  by_cases hMisses : Misses bodyContinuation lexemes
  · refine .here (fun other hOther => closedBody_error f hOther) hMisses
      ⟨_, f [], [], isClosedBody_nil, rfl⟩ (fun expectation hMember lexeme hLexeme => ?_)
      (by decide) rfl
    obtain ⟨more, calls, hCalls⟩ := begins_closedBody ⟨expectation, hMember, hLexeme⟩
    exact ⟨more, f calls, calls, hCalls, rfl⟩
  · obtain ⟨first, rest, rfl, hDescribes⟩ := exists_of_not_misses hMisses
    obtain ⟨gate, hName⟩ | hClosing := describes_bodyContinuation.mp hDescribes
    · refine .cons (fun other => closedBody_call f hName other) ?_
      have hSpot : Spot.past .clear first = ⟨[.identifier gate], []⟩ := Spot.past_eq _ hName
      have hCall : Tells (closed (callOn gate first.position))
          (fun part => EndedBy .semicolon (IsCall IsFormula) (first :: part)) (fun _ => [])
          (Spot.past .clear first) rest := by
        rw [hSpot]
        exact closedCall_tells hName (called_first gate) rfl (fun _ => semicolonOmits_call)
          (fun _ _ _ hPart hFinal => .mk hPart hFinal) rest
      refine hCall.bind (fun part call hPart => ?_) (fun front call behind hSplit _ hFinished => ?_)
        (.inr fun _ _ hSign => hSign)
      · exact ⟨_, f [call], [call], .cons hPart isClosedBody_nil, rfl⟩
      · have hShorter : behind.length < (first :: rest).length := by
          rw [hSplit]
          simp
        obtain ⟨final, hFinal, hSemicolon⟩ := hFinished.taken.getLast?
        have hClear : Spot.along .clear (first :: front) = .clear :=
          Spot.along_separates _ hFinal (by rw [hSemicolon]; rfl)
        rw [Spot.refusing_nil, ← Spot.along_cons, hClear]
        refine (closedBody_tells (fun calls => f (call :: calls)) behind).mono ?_
        rintro part value ⟨calls, hCalls, rfl⟩
        exact ⟨call :: calls, .cons hFinished.taken hCalls, rfl⟩
    · have hSame (other : List Lexeme) :
          closedBody f (first :: other) = (pure (f []) : Reader β) other :=
        closedBody_brace f hClosing other
      exact .cons hSame (.done ⟨[], .mk .nil hClosing, rfl⟩ rfl)
termination_by lexemes.length

/-! ### Statements -/

section Statements

variable {mode : Mode} {word : Lexeme}

/-- What a reader reads on behind a first lexeme. -/
def behind (first : Lexeme) (reader : Reader α) : Reader α := fun rest => reader (first :: rest)

theorem behind_bind {β : Type} (first : Lexeme) (reader : Reader α) (next : α → Reader β) :
    behind first (reader >>= next) = behind first reader >>= next :=
  funext fun _ => rfl

theorem behind_keyword {keyword : Keyword} (hWord : word.token = .keyword keyword) :
    behind word (Grammar.keyword keyword) = pure word.position :=
  funext fun rest => keyword_cons hWord rest

theorem behind_identifier {name : String} (hWord : word.token = .identifier name) :
    behind word identifier = pure (name, word.position) :=
  funext fun rest => identifier_cons hWord rest

theorem definition_tells (hWord : word.token = .keyword .gate) (rest : List Lexeme) :
    Tells (behind word definition) (fun part => Allowed mode (word :: part)) (fun _ => [])
      ⟨[.keyword .gate], []⟩ rest := by
  simp only [definition, behind_bind, behind_keyword hWord, pure_bind]
  refine (header_tells (by rfl) (by rfl) rest).andThen (.inl fun header => ?_)
    fun front header others hHeader => symbol_then (Spot.fits_refusing ?_ rfl)
      fun opening others hOpening => (closedBody_tells _ others).mono ?_
  · exact (symbol_shortens _).bind fun _ => (repeated_neverGrows _ _ _).bind fun _ =>
      (symbol_shortens _).neverGrows.bind fun _ => pure_neverGrows _
  · exact Spot.along_refused rfl front
  · rintro part value ⟨calls, ⟨hBody, hClosing⟩, rfl⟩
    exact ⟨.gate hWord hHeader hOpening hBody hClosing, trivial⟩

theorem opaqueDeclaration_tells (hWord : word.token = .keyword .opaqueGate) (rest : List Lexeme) :
    Tells (behind word (closed opaqueDeclaration)) (fun part => Allowed mode (word :: part))
      (fun _ => []) ⟨[.keyword .opaqueGate], []⟩ rest := by
  simp only [closed, endedBy, opaqueDeclaration, behind_bind, behind_keyword hWord, bind_assoc,
    pure_bind]
  refine then_symbol (header_tells (by rfl) (by rfl) rest) (fun _ _ hPart => ?_)
    (fun _ _ _ hPart hFinal => ⟨.opaqueGate hWord hPart hFinal, trivial⟩) fun _ => rfl
  exact fits_semicolon rfl rfl hPart.joins (fun _ => [.comma]) fun _ hLast => by
    simp [semicolonOmits, hLast]

theorem IsVersionNumber.joins {lexemes : List Lexeme} {found : UInt32 × UInt32}
    (h : IsVersionNumber lexemes found) : Joins lexemes := by
  obtain ⟨hNumber, -⟩ := h
  refine List.forall_mem_singleton.mpr ?_
  cases hToken : Lexeme.token _ <;> simp_all [Token.kind, Token.separates]

theorem version_tells (hWord : word.token = .keyword .version) (rest : List Lexeme) :
    Tells (behind word (closed version)) (fun part => Allowed .circuit (word :: part))
      (fun _ => []) ⟨[.keyword .version], []⟩ rest := by
  simp only [closed, endedBy, version, behind_bind, behind_keyword hWord, bind_assoc, pure_bind]
  refine then_symbol (versionNumber_tells (by rfl) rest) (fun _ _ hPart => ?_)
    (fun _ _ _ hPart hFinal => ?_) fun _ => rfl
  · exact fits_semicolon rfl rfl hPart.joins (fun _ => []) fun _ hLast => by
      simp [semicolonOmits, hLast]
  · obtain ⟨hNumber⟩ := hPart
    exact ⟨.version hWord hNumber hFinal, rfl⟩

theorem inclusion_tells (hWord : word.token = .keyword .inclusion) (rest : List Lexeme) :
    Tells (behind word (closed inclusion)) (fun part => Allowed .circuit (word :: part))
      (fun _ => []) ⟨[.keyword .inclusion], []⟩ rest := by
  simp only [closed, endedBy, inclusion, behind_bind, behind_keyword hWord, bind_assoc, pure_bind]
  exact string_then rfl fun content path _ hPath => symbol_then rfl fun semicolon _ hSemicolon =>
    .done ⟨.inclusion hWord hPath hSemicolon, rfl⟩ rfl

theorem register_tells (kind : RegisterKind) (hWord : word.token = .keyword (registerWord kind))
    (rest : List Lexeme) :
    Tells (behind word (closed (registerOf kind (registerWord kind))))
      (fun part => Allowed .circuit (word :: part)) (fun _ => [])
      ⟨[.keyword (registerWord kind)], []⟩ rest := by
  simp only [closed, endedBy, registerOf, behind_bind, behind_keyword hWord, bind_assoc, pure_bind]
  exact identifier_then rfl fun name register _ hName => symbol_then rfl
    fun opening _ hOpening => integer_then rfl fun number size _ hNumber => symbol_then rfl
      fun closing _ hClosing => symbol_then (by cases kind <;> rfl) fun semicolon _ hSemicolon =>
        .done ⟨.register hWord hName hOpening hNumber hClosing hSemicolon, rfl⟩ rfl

theorem application_tells {gate : String} (hWord : word.token = .identifier gate)
    (rest : List Lexeme) :
    Tells (behind word (closed application)) (fun part => Allowed .circuit (word :: part))
      (fun _ => []) ⟨[.identifier gate], []⟩ rest := by
  simp only [closed, endedBy, application, gateCall_eq, behind_bind, behind_identifier hWord,
    bind_assoc, pure_bind]
  exact closedCall_tells hWord (called_first gate) rfl (fun _ => semicolonOmits_call)
    (fun _ _ _ hPart hFinal => ⟨.call hPart hFinal, rfl⟩) rest

theorem measure_tells (hWord : word.token = .keyword .measure) (rest : List Lexeme) :
    Tells (behind word (closed measure)) (fun part => Allowed .circuit (word :: part))
      (fun _ => []) ⟨[.keyword .measure], []⟩ rest := by
  simp only [closed, endedBy, measure, behind_bind, behind_keyword hWord, bind_assoc, pure_bind]
  refine (reference_tells (by rfl) rest).andThen (.inl fun source => ?_)
    fun front source others hSource => symbol_then (Spot.fits_refusing ?_ rfl)
      fun arrow others hArrow => then_symbol (reference_tells (by rfl) others)
        (fun _ _ hPart => ?_)
        (fun _ _ _ hPart hFinal => ⟨.measure hWord hSource hArrow hPart hFinal, rfl⟩) fun _ => rfl
  · exact (symbol_shortens _).bind fun _ => reference_shortens.neverGrows.bind fun _ =>
      (symbol_shortens _).neverGrows.bind fun _ => pure_neverGrows _
  · exact Spot.along_refused rfl front
  · have hLast : (Token.symbol .arrow ::
        (Spot.along ⟨[.keyword .measure], []⟩ front).back).getLast? = some (.keyword .measure) := by
      rw [Spot.along_back _ hSource.joins, ← List.cons_append]
      exact List.getLast?_concat
    exact fits_semicolon hLast rfl hPart.joins indexSigns fun _ hWord => by
      simp [semicolonOmits, hWord]

theorem reset_tells (hWord : word.token = .keyword .reset) (rest : List Lexeme) :
    Tells (behind word (closed reset)) (fun part => Allowed .circuit (word :: part))
      (fun _ => []) ⟨[.keyword .reset], []⟩ rest := by
  simp only [closed, endedBy, reset, behind_bind, behind_keyword hWord, bind_assoc, pure_bind]
  refine then_symbol (reference_tells (by rfl) rest) (fun _ _ hPart => ?_)
    (fun _ _ _ hPart hFinal => ⟨.reset hWord hPart hFinal, rfl⟩) fun _ => rfl
  exact fits_semicolon rfl rfl hPart.joins indexSigns fun _ hLast => by
    simp [semicolonOmits, hLast]

theorem barrier_tells (hWord : word.token = .keyword .barrier) (rest : List Lexeme) :
    Tells (behind word (closed barrier)) (fun part => Allowed .circuit (word :: part))
      (fun _ => []) ⟨[.keyword .barrier], []⟩ rest := by
  simp only [closed, endedBy, barrier, behind_bind, behind_keyword hWord, bind_assoc, pure_bind]
  refine then_symbol (references_tells (by rfl) rest) (fun _ _ hPart => ?_)
    (fun _ _ _ hPart hFinal => ⟨.barrier hWord hPart hFinal, rfl⟩) fun _ => rfl
  have hJoins := hPart.joins fun _ _ hReference => hReference.joins
  exact fits_semicolon rfl rfl hJoins (fun back => .comma :: indexSigns back) fun _ hLast => by
    simp [semicolonOmits, hLast]

theorem condition_tells (hWord : word.token = .keyword .condition) (rest : List Lexeme) :
    Tells (behind word (closed condition)) (fun part => Allowed .circuit (word :: part))
      (fun _ => []) ⟨[.keyword .condition], []⟩ rest := by
  simp only [closed, endedBy, condition, gateCall_eq, behind_bind, behind_keyword hWord, bind_assoc,
    pure_bind]
  refine symbol_then rfl fun opening _ hOpening => identifier_then rfl fun name register _ hName =>
    symbol_then rfl fun equals _ hEquals => integer_then rfl fun number value _ hNumber =>
      symbol_then rfl fun closing _ hClosing =>
        identifier_then rfl fun called gate others hCalled => ?_
  have hSpot : Called ⟨[.identifier gate, .symbol .rightParen, .integer value, .symbol .equals,
      .identifier register, .symbol .leftParen, .keyword .condition], []⟩ gate := by
    refine ⟨⟨_, rfl⟩, ?_, ?_, ?_, rfl⟩ <;> simp [Grammar.declares, Grammar.compares]
  have hLast {back : List Token} (h : back.getLast? = some (.keyword .condition)) :
      semicolonOmits back = .comma :: indexSigns back := by
    rw [semicolonOmits, h]
  exact closedCall_tells hCalled hSpot rfl (fun _ => hLast) (fun _ _ _ hPart hFinal =>
    ⟨.condition hWord hOpening hName hEquals hNumber hClosing hPart hFinal, rfl⟩) others

/-- **Statements.**  Behind the token that it begins with, a statement is finished or stuck as the
omissions say. -/
theorem statementFor?_tells {reader : Reader Statement}
    (h : statementFor? mode word.token = some reader) (rest : List Lexeme) :
    Tells (behind word reader) (fun part => Allowed mode (word :: part)) (fun _ => [])
      ⟨[word.token], []⟩ rest := by
  unfold statementFor? at h
  split at h <;> cases h <;> rename_i hToken <;> rw [hToken]
  · exact definition_tells hToken rest
  · exact opaqueDeclaration_tells hToken rest
  · exact version_tells hToken rest
  · exact inclusion_tells hToken rest
  · exact register_tells .quantum hToken rest
  · exact register_tells .classical hToken rest
  · exact measure_tells hToken rest
  · exact reset_tells hToken rest
  · exact barrier_tells hToken rest
  · exact condition_tells hToken rest
  · exact application_tells hToken rest

end Statements

end Grammar
end QuantumCircuit
