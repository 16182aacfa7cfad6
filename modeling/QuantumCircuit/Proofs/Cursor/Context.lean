import QuantumCircuit.Proofs.Cursor.Program

/-!
# Expressions and what stands around them

An expression between the parentheses of a gate call is read as on its own, whatever statements
stand in front of the call and whatever the other parameters are.  The counter of the depth, which
all the steps of a run share, is back where it was behind every expression.

* `listed_iff_forall₂` : a list of expressions is read as its parts are.
* `Program.ofLexemes_call` : the parameters of a call behind a program are those of the parts.
-/

namespace QuantumCircuit

open Grammar

/-! ### The first and the last of some elements -/

section Lists

variable {α : Type} {p : α → Prop} {first second : α} {front other behind rest : List α}

/-- Two ways to cut a list at the first element with a property are the same. -/
theorem append_cons_inj_first (h : front ++ first :: behind = other ++ second :: rest)
    (hFirst : p first) (hSecond : p second) (hFront : ∀ x ∈ front, ¬ p x)
    (hOther : ∀ x ∈ other, ¬ p x) : front = other ∧ first = second ∧ behind = rest := by
  induction front generalizing other with
  | nil =>
      cases other with
      | nil =>
          cases h
          exact ⟨rfl, rfl, rfl⟩
      | cons x others =>
          cases h
          exact absurd hFirst (hOther first List.mem_cons_self)
  | cons x front ih =>
      cases other with
      | nil =>
          cases h
          exact absurd hSecond (hFront second List.mem_cons_self)
      | cons y others =>
          rw [List.cons_append, List.cons_append, List.cons.injEq] at h
          rw [List.forall_mem_cons] at hFront hOther
          obtain ⟨rfl, rfl, rfl⟩ := ih h.2 hFront.2 hOther.2
          exact ⟨congrArg (· :: front) h.1, rfl, rfl⟩

/-- Two ways to cut a list at the last element with a property are the same. -/
theorem append_cons_inj_last (h : front ++ first :: behind = other ++ second :: rest)
    (hFirst : p first) (hSecond : p second) (hBehind : ∀ x ∈ behind, ¬ p x)
    (hRest : ∀ x ∈ rest, ¬ p x) : front = other ∧ first = second ∧ behind = rest := by
  have hReverse : behind.reverse ++ first :: front.reverse =
      rest.reverse ++ second :: other.reverse := by
    simpa using congrArg List.reverse h
  obtain ⟨hSame, rfl, hFront⟩ := append_cons_inj_first hReverse hFirst hSecond
    (fun x hx => hBehind x (List.mem_reverse.mp hx)) fun x hx => hRest x (List.mem_reverse.mp hx)
  exact ⟨List.reverse_injective hFront, rfl, List.reverse_injective hSame⟩

end Lists

namespace Grammar

variable {lexemes : List Lexeme}

/-! ### Lists of expressions -/

theorem isExpression_no_comma {e : Expr} (h : IsExpression lexemes e) :
    ∀ lexeme ∈ lexemes, ¬ lexeme.token = .symbol .comma := by
  obtain ⟨cost, hDerives, -⟩ := h
  intro lexeme hMember hComma
  have hToken := hDerives.tokens lexeme hMember
  rw [hComma] at hToken
  cases hToken

theorem isReference_no_closing {reference : RegisterRef} (h : IsReference lexemes reference) :
    ∀ lexeme ∈ lexemes, ¬ lexeme.token = .symbol .rightParen := by
  cases h with
  | whole hName => simp [hName]
  | element hName hOpening hNumber hClosing => simp [hName, hOpening, hNumber, hClosing]

theorem listed_reference_no_closing {references : List RegisterRef}
    (h : Listed IsReference lexemes references) :
    ∀ lexeme ∈ lexemes, ¬ lexeme.token = .symbol .rightParen := by
  induction h with
  | one hItem => exact isReference_no_closing hItem
  | more hItem hComma hOthers ih =>
      rw [List.forall_mem_append, List.forall_mem_cons]
      exact ⟨isReference_no_closing hItem, by simp [hComma], ih⟩

/-- A list of expressions is read part by part, cut at the commas. -/
theorem listed_iff_forall₂ {parts : List (List Lexeme)} {params : List Expr}
    (hParts : Listed Eq lexemes parts)
    (hPlain : ∀ part ∈ parts, ∀ lexeme ∈ part, ¬ lexeme.token = .symbol .comma) :
    Listed IsExpression lexemes params ↔ List.Forall₂ IsExpression parts params := by
  induction hParts generalizing params with
  | @one lexemes part hPart =>
      subst hPart
      rw [List.forall_mem_singleton] at hPlain
      constructor
      · intro h
        cases h with
        | one hItem => exact .cons hItem .nil
        | @more comma first others e params hItem hComma hOthers =>
            exact absurd hComma (hPlain comma (by simp))
      · intro h
        cases h with
        | cons hItem hNone =>
            cases hNone
            exact .one hItem
  | @more comma first others part parts hPart hComma hOthers ih =>
      subst hPart
      rw [List.forall_mem_cons] at hPlain
      constructor
      · intro h
        generalize hLexemes : first ++ comma :: others = lexemes at h
        cases h with
        | one hItem =>
            subst hLexemes
            exact absurd hComma (isExpression_no_comma hItem comma (by simp))
        | more hItem hSecond hRest =>
            obtain ⟨rfl, rfl, rfl⟩ := append_cons_inj_first hLexemes hComma hSecond hPlain.1
              (isExpression_no_comma hItem)
            exact .cons hItem ((ih hPlain.2).mp hRest)
      · intro h
        cases h with
        | cons hItem hRest => exact .more hItem hComma ((ih hPlain.2).mpr hRest)

/-! ### Calls -/

/-- A gate call of one register, with what stands between its parentheses left open. -/
structure IsFrame (name opening closing target semicolon : Lexeme) (gate register : String) :
    Prop where
  name : name.token = .identifier gate
  opening : opening.token = .symbol .leftParen
  closing : closing.token = .symbol .rightParen
  target : target.token = .identifier register
  semicolon : semicolon.token = .symbol .semicolon

variable {name opening closing target semicolon : Lexeme} {gate register : String}
  {inner : List Lexeme} {call : GateCall}

/-- A name on its own is a list of one reference. -/
theorem listed_reference_singleton {references : List RegisterRef}
    (hTarget : target.token = .identifier register)
    (h : Listed IsReference [target] references) :
    references = [⟨register, none, target.position⟩] := by
  generalize hLexemes : [target] = lexemes at h
  cases h with
  | one hItem =>
      cases hItem with
      | whole hName =>
          cases hLexemes
          cases hName.symm.trans hTarget
          rfl
      | element => cases hLexemes
  | more hItem hComma hOthers =>
      obtain ⟨head, others, word, hHead, -⟩ := listed_reference_head hOthers
      subst hHead
      have hLength := congrArg List.length hLexemes
      simp only [List.length_append, List.length_cons, List.length_nil] at hLength
      omega

/-- In its frame, a call has the parameters of the list in between. -/
theorem isStatement_frame_iff (hFrame : IsFrame name opening closing target semicolon gate register)
    (hSome : call.params ≠ []) :
    IsStatement IsExpression (name :: opening :: (inner ++ [closing, target, semicolon]))
        (.call call) ↔
      Listed IsExpression inner call.params ∧
        call = ⟨gate, call.params, [⟨register, none, target.position⟩], name.position⟩ := by
  constructor
  · intro h
    generalize hLexemes : name :: opening :: (inner ++ [closing, target, semicolon]) = lexemes at h
    cases h with
    | @call final lexemes application hCall hSemicolon =>
        have hLast : name :: opening :: (inner ++ [closing, target]) = lexemes ∧
            [semicolon] = [final] := List.append_inj' (by simpa using hLexemes) rfl
        obtain ⟨rfl, -⟩ := hLast
        clear hLexemes
        generalize hLexemes : name :: opening :: (inner ++ [closing, target]) = lexemes at hCall
        cases hCall with
        | @mk first word between qubits params references hName hParams hQubits =>
            obtain ⟨rfl, hBehind⟩ := List.cons.inj hLexemes
            cases hName.symm.trans hFrame.name
            cases hParams with
            | absent =>
                -- the parameters would be left out, and the references begin with a parenthesis
                obtain ⟨head, others, word, rfl, hWord⟩ := listed_reference_head hQubits
                cases (List.cons.inj hBehind).1
                cases hWord.symm.trans hFrame.opening
            | empty => exact absurd rfl hSome
            | @given first last middle _ hOpening hInner hClosing =>
                -- the parenthesis that closes the parameters is the last one there is
                have hCut : middle ++ last :: qubits = inner ++ closing :: [target] := by
                  simpa using (List.cons.inj hBehind).2.symm
                obtain ⟨rfl, rfl, rfl⟩ := append_cons_inj_last hCut hClosing hFrame.closing
                  (listed_reference_no_closing hQubits) (by simp [hFrame.target])
                rw [listed_reference_singleton hFrame.target hQubits]
                exact ⟨hInner, rfl⟩
  · rintro ⟨hList, hCall⟩
    rw [hCall]
    have hQubits : Listed IsReference [target] [⟨register, none, target.position⟩] :=
      .one (.whole hFrame.target)
    have hParams := InParentheses.given hFrame.opening hList hFrame.closing
    have hStatement := IsStatement.call (IsCall.mk hFrame.name hParams hQubits) hFrame.semicolon
    simpa using hStatement

/-! ### Statements behind a program -/

theorem isProgram_singleton {s : Statement} :
    IsProgram IsExpression lexemes [s] ↔ IsStatement IsExpression lexemes s := by
  constructor
  · intro h
    cases h with
    | cons hStatement hNone =>
        cases hNone
        rwa [List.append_nil]
  · intro h
    have hProgram := IsProgram.cons h .nil
    rwa [List.append_nil] at hProgram

end Grammar

section Call

variable {front behind inner : List Lexeme} {program : Program} {parts : List (List Lexeme)}
  {name opening closing target semicolon : Lexeme} {gate register : String}

/-- A circuit is read if its statements are, to their end. -/
theorem Program.ofLexemes_eq_statements (h : ∀ lexeme ∈ behind, lexeme.token ≠ .endOfInput)
    {found : List Statement} :
    Program.ofLexemes .circuit behind = .ok ⟨found⟩ ↔
      Grammar.statements .circuit behind = .ok (found, []) := by
  rw [Program.ofLexemes_eq_ok, properLexemes_of_forall h, statements_eq_ok]

/-- Behind a circuit that is read, one more statement is read as on its own. -/
theorem Program.ofLexemes_append (hFront : ∀ lexeme ∈ front, lexeme.token ≠ .endOfInput)
    (hBehind : ∀ lexeme ∈ behind, lexeme.token ≠ .endOfInput)
    (hProgram : Program.ofLexemes .circuit front = .ok program) (s : Statement) :
    Program.ofLexemes .circuit (front ++ behind) = .ok ⟨program.statements ++ [s]⟩ ↔
      IsStatement IsExpression behind s := by
  have hAll : ∀ lexeme ∈ front ++ behind, lexeme.token ≠ .endOfInput :=
    List.forall_mem_append.mpr ⟨hFront, hBehind⟩
  have hRead := (Program.ofLexemes_eq_ok.mp hProgram).1
  rw [properLexemes_of_forall hFront] at hRead
  have hOne : Grammar.statements .circuit behind = .ok ([s], []) ↔
      IsStatement IsExpression behind s := by
    rw [statements_eq_ok, isProgram_singleton]
    exact and_iff_left fun s _ => Mode.circuit_allows s
  rw [Program.ofLexemes_eq_statements hAll,
    statements_append hRead (fun s _ => Mode.circuit_allows s), bind_eq_ok, ← hOne]
  constructor
  · rintro ⟨more, rest, hMore, hPure⟩
    obtain ⟨hSame, rfl⟩ := (pure_eq_ok _ _ _ _).mp hPure
    rw [List.append_cancel_left hSame]
    exact hMore
  · intro h
    exact ⟨[s], [], h, rfl⟩

theorem readsAs_iff (h : ∀ lexeme ∈ inner, lexeme.token ≠ .endOfInput) {e : Expr} :
    ReadsAs inner e ↔ IsExpression inner e := by
  rw [ReadsAs, Expr.ofLexemes_eq_ok, properLexemes_of_forall h]

/-- Parts without an end of the input are read as expressions as they are. -/
theorem forall₂_readsAs_iff {params : List Expr}
    (h : ∀ part ∈ parts, ∀ lexeme ∈ part, lexeme.token ≠ .endOfInput) :
    List.Forall₂ ReadsAs parts params ↔ List.Forall₂ IsExpression parts params := by
  induction parts generalizing params with
  | nil => simp only [List.forall₂_nil_left_iff]
  | cons part parts ih =>
      rw [List.forall_mem_cons] at h
      cases params with
      | nil => simp only [List.forall₂_nil_right_iff]
      | cons e params => rw [List.forall₂_cons, List.forall₂_cons, readsAs_iff h.1, ih h.2]

/-- A list of parts holds the lexemes of the parts, and commas. -/
theorem listed_no_end (hParts : Listed Eq inner parts)
    (h : ∀ part ∈ parts, ∀ lexeme ∈ part, lexeme.token ≠ .endOfInput) :
    ∀ lexeme ∈ inner, lexeme.token ≠ .endOfInput := by
  induction hParts with
  | one hPart =>
      subst hPart
      exact h _ List.mem_cons_self
  | more hPart hComma hOthers ih =>
      subst hPart
      rw [List.forall_mem_cons] at h
      rw [List.forall_mem_append, List.forall_mem_cons]
      exact ⟨h.1, by simp [hComma], ih h.2⟩

theorem frame_no_end (hFrame : IsFrame name opening closing target semicolon gate register)
    (hInner : ∀ lexeme ∈ inner, lexeme.token ≠ .endOfInput) :
    ∀ lexeme ∈ name :: opening :: (inner ++ [closing, target, semicolon]),
      lexeme.token ≠ .endOfInput := by
  simp only [List.forall_mem_cons, List.forall_mem_append, hFrame.name, hFrame.opening,
    hFrame.closing, hFrame.target, hFrame.semicolon]
  simpa using hInner

end Call

/-! ### The depth -/

/-- Steps that return have the depth that they began with. -/
def KeepsDepth {α : Type} (steps : Steps α) (cursor : Cursor) : Prop :=
  ∀ value after, steps.Returns cursor value after → after.depth = cursor.depth

theorem Follows.keepsDepth {α : Type} {depth : Nat} {steps : Steps α} {reader : Reader α}
    {cursor : Cursor} (h : Follows depth steps reader) (hRange : cursor.InRange)
    (hDepth : cursor.depth = depth) : KeepsDepth steps cursor := by
  intro value after hReturns
  obtain ⟨rest, final, hFaces⟩ := hRange.faces
  obtain ⟨front, behind, -, -, rfl⟩ := h.of_returns hFaces hDepth hReturns
  rfl

/-- **Context.**  Behind a circuit, a gate call is read with the parameters that its parts have as
expressions on their own, and with no others.  This is what the steps with the shared counter end
with, and every expression, every list of parameters and every statement leaves the counter as it
was. -/
theorem Program.ofLexemes_call {front inner : List Lexeme} {program : Program}
    {parts : List (List Lexeme)} {name opening closing target semicolon : Lexeme}
    {gate register : String} (hFront : ∀ lexeme ∈ front, lexeme.token ≠ .endOfInput)
    (hProgram : Program.ofLexemes .circuit front = .ok program)
    (hFrame : IsFrame name opening closing target semicolon gate register)
    (hParts : Listed Eq inner parts)
    (hPlain : ∀ part ∈ parts, ∀ lexeme ∈ part,
      ¬ lexeme.token = .symbol .comma ∧ lexeme.token ≠ .endOfInput) :
    (∀ call : GateCall, call.params.length = parts.length →
      (Program.ofLexemes .circuit
          (front ++ name :: opening :: (inner ++ [closing, target, semicolon])) =
            .ok ⟨program.statements ++ [.call call]⟩ ↔
        call = ⟨gate, call.params, [⟨register, none, target.position⟩], name.position⟩ ∧
          List.Forall₂ ReadsAs parts call.params)) ∧
    (Cursor.program .circuit).Ends
      (Cursor.start (front ++ name :: opening :: (inner ++ [closing, target, semicolon])))
      (Program.ofLexemes .circuit
        (front ++ name :: opening :: (inner ++ [closing, target, semicolon]))) ∧
    ∀ cursor : Cursor, cursor.InRange →
      (∀ lowest, KeepsDepth (Cursor.operand lowest) cursor) ∧
      (cursor.depth = 0 → KeepsDepth Cursor.expressions cursor ∧
        ∀ mode, KeepsDepth (Cursor.statement mode) cursor) := by
  refine ⟨fun call hLength => ?_, program_ends .circuit _, fun cursor hRange => ?_⟩
  · have hEnds : ∀ part ∈ parts, ∀ lexeme ∈ part, lexeme.token ≠ .endOfInput :=
      fun part hPart lexeme hLexeme => (hPlain part hPart lexeme hLexeme).2
    have hCommas : ∀ part ∈ parts, ∀ lexeme ∈ part, ¬ lexeme.token = .symbol .comma :=
      fun part hPart lexeme hLexeme => (hPlain part hPart lexeme hLexeme).1
    have hBehind := frame_no_end hFrame (listed_no_end hParts hEnds)
    have hSome : call.params ≠ [] := by
      intro hNone
      rw [hNone] at hLength
      cases hParts with
      | one => cases hLength
      | more => cases hLength
    rw [Program.ofLexemes_append hFront hBehind hProgram, isStatement_frame_iff hFrame hSome,
      listed_iff_forall₂ hParts hCommas, forall₂_readsAs_iff hEnds, and_comm]
  · exact ⟨fun lowest => (operand_follows _ lowest).keepsDepth hRange rfl, fun hDepth =>
      ⟨Follows.expressions.keepsDepth hRange hDepth,
        fun mode => (statement_follows mode).keepsDepth hRange hDepth⟩⟩

/-- The lexemes of `(pi)`. -/
def enclosedPi : List Lexeme :=
  [Token.lexeme (.symbol .leftParen), Token.lexeme (.keyword .pi),
    Token.lexeme (.symbol .rightParen)]

/-- The lexemes of `reset q; g((pi), pi) q;`. -/
def callBehindReset : List Lexeme :=
  (cutLexemes ++ [Token.lexeme (.symbol .semicolon)]) ++ Token.lexeme (.identifier "g") ::
    Token.lexeme (.symbol .leftParen) ::
      ((enclosedPi ++ Token.lexeme (.symbol .comma) :: [Token.lexeme (.keyword .pi)]) ++
        [Token.lexeme (.symbol .rightParen), Token.lexeme (.identifier "q"),
          Token.lexeme (.symbol .semicolon)])

theorem Program.ofLexemes_call_twice :
    Program.ofLexemes .circuit callBehindReset =
      .ok ⟨[.reset ⟨"q", none, .start⟩ .start,
        .call ⟨"g", [.pi, .pi], [⟨"q", none, .start⟩], .start⟩]⟩ ∧
    (Cursor.program .circuit).Ends (Cursor.start callBehindReset)
      (.ok ⟨[.reset ⟨"q", none, .start⟩ .start,
        .call ⟨"g", [.pi, .pi], [⟨"q", none, .start⟩], .start⟩]⟩) ∧
    KeepsDepth Cursor.expressions (Cursor.start enclosedPi) := by
  have hPi : ReadsAs [Token.lexeme (.keyword .pi)] .pi :=
    Expr.ofLexemes_eq_ok.mpr ⟨0, (Derives.leaf rfl).loosen (by decide), by decide, by decide⟩
  have hEnclosed : ReadsAs enclosedPi .pi := by
    have hInner : Derives 0 [Token.lexeme (.keyword .pi)] .pi 0 :=
      (Derives.leaf rfl).loosen (by decide)
    have hDerives : Derives 5 enclosedPi .pi 1 := .parenthesis rfl hInner rfl
    exact Expr.ofLexemes_eq_ok.mpr ⟨1, hDerives.loosen (by decide), by decide, by decide⟩
  have hReset : Program.ofLexemes .circuit (cutLexemes ++ [Token.lexeme (.symbol .semicolon)]) =
      .ok ⟨[.reset ⟨"q", none, .start⟩ .start]⟩ := by
    refine Program.ofLexemes_eq_ok.mpr ⟨?_, fun s _ => Mode.circuit_allows s⟩
    exact isProgram_singleton.mpr (.reset rfl (.whole rfl) rfl)
  have hParts : Listed Eq (enclosedPi ++ Token.lexeme (.symbol .comma) ::
      [Token.lexeme (.keyword .pi)]) [enclosedPi, [Token.lexeme (.keyword .pi)]] :=
    .more rfl rfl (.one rfl)
  have hFrame : IsFrame (Token.lexeme (.identifier "g")) (Token.lexeme (.symbol .leftParen))
      (Token.lexeme (.symbol .rightParen)) (Token.lexeme (.identifier "q"))
      (Token.lexeme (.symbol .semicolon)) "g" "q" :=
    ⟨rfl, rfl, rfl, rfl, rfl⟩
  obtain ⟨hCall, hEnds, hDepth⟩ :=
    Program.ofLexemes_call (by decide) hReset hFrame hParts (by decide)
  have hRead := (hCall ⟨"g", [.pi, .pi], [⟨"q", none, .start⟩], .start⟩ rfl).mpr
    ⟨rfl, .cons hEnclosed (.cons hPi .nil)⟩
  rw [hRead] at hEnds
  exact ⟨hRead, hEnds, ((hDepth _ (Cursor.start_inRange _)).2 rfl).1⟩

end QuantumCircuit
