import QuantumCircuit.Proofs.Grammar.Guidance

/-!
# Statements that can be finished

What has been read of a program until an error is reported can be finished, and with each of the
lexemes that the error lists.

* `Allowed` : the statements of a mode, with parameters of any nesting.
* `statement_guides` : the reader of statements expects what goes on to one of them.
* `statements_expects` : so does the reader of programs.
-/

namespace QuantumCircuit
namespace Grammar

variable {mode : Mode}

/-! ### Parts of statements -/

theorem reference_guides : Guides reference IsReference where
  sound := reference_sound
  expects := fun lexemes => by
    refine (identifier_guides.expects lexemes).bind (fun part found hPart => ?_)
      fun found behind hRead => ?_
    · obtain ⟨hName⟩ := hPart
      exact ⟨[], _, .whole hName⟩
    · obtain ⟨front, hFront, ⟨hName⟩⟩ := identifier_sound _ _ _ hRead
      refine ⟨_, hFront, .ifNext (fun opening rest _ hOpening => ?_) (.of_ok rfl)⟩
      refine ((integer_guides.bind fun index => (symbol_guides .rightBracket).bind fun _ =>
        Guides.pure _).expects rest).mono ?_
      rintro _ _ ⟨⟨hNumber⟩, ⟨⟨hClosing⟩, ⟨⟩⟩⟩
      exact .element hName hOpening hNumber hClosing
  inhabited := ⟨[Token.lexeme (.identifier "q")], _, .whole rfl⟩

theorem references_guides : Guides references (Listed IsReference) :=
  separated_guides _ reference_guides

theorem names_guides : Guides names (Listed IsFormal) where
  sound := names_sound
  expects := fun lexemes =>
    (separated_expects _ identifier_guides lexemes).map
      (fun _ _ hListed => listed_formal_of_placed hListed) (separated_sound _ identifier_sound)
  inhabited := ⟨[Token.lexeme (.identifier "q")], _, .one (.mk rfl)⟩

theorem header_guides : Guides header IsHeader := by
  refine (identifier_guides.bind fun _ => (inParentheses_guides names_guides).bind fun _ =>
    names_guides.bind fun _ => Guides.pure _).mono ?_
  rintro _ _ ⟨⟨hName⟩, ⟨hParams, ⟨hQubits, ⟨⟩⟩⟩⟩
  simpa using IsHeader.mk hName hParams hQubits

theorem gateCall_guides : Guides gateCall (IsCall IsFormula) := by
  refine (identifier_guides.bind fun _ =>
    (inParentheses_guides (separated_guides expression_shortens expression_guides)).bind fun _ =>
      references_guides.bind fun _ => Guides.pure _).mono ?_
  rintro _ _ ⟨⟨hName⟩, ⟨hParams, ⟨hQubits, ⟨⟩⟩⟩⟩
  simpa using IsCall.mk hName hParams hQubits

/-! ### Gate bodies -/

/-- A body and the brace behind it. -/
inductive IsClosedBody : List Lexeme → List GateCall → Prop
  | mk {closing : Lexeme} {inner : List Lexeme} {calls : List GateCall}
      (hBody : IsBody IsFormula inner calls) (hClosing : closing.token = .symbol .rightBrace) :
      IsClosedBody (inner ++ [closing]) calls

theorem closed_gateCall_guides :
    Guides (closed gateCall) (EndedBy .semicolon (IsCall IsFormula)) :=
  endedBy_guides .semicolon gateCall_guides

theorem bodyCall_sound : Sound bodyCall (EndedBy .semicolon (IsCall IsFormula)) := by
  intro lexemes call rest hRead
  rw [bodyCall] at hRead
  split at hRead
  · exact closed_gateCall_guides.sound _ _ _ hRead
  · cases hRead

/-- Where a body can go on, a call can stand or the brace behind the body. -/
theorem bodyCall_expects (lexemes : List Lexeme) :
    Expects bodyCall (fun part call => EndedBy .semicolon (IsCall IsFormula) part call ∨
      IsClosedBody part []) lexemes := by
  cases hBegins : beginsWithIdentifier lexemes with
  | true =>
      refine ((closed_gateCall_guides.expects lexemes).mono fun _ _ hCall => Or.inl hCall).congr ?_
      rw [bodyCall, if_pos hBegins]
  | false =>
      refine .of_here (by rw [bodyCall, hBegins]; rfl) (by decide) ?_
      obtain ⟨part, call, hCall⟩ := closed_gateCall_guides.inhabited
      obtain @⟨semicolon, inner, call, hInner, hSemicolon⟩ := hCall
      obtain ⟨name, others, rfl, hName⟩ := isCall_head hInner
      let brace : Lexeme := Token.lexeme (.symbol .rightBrace)
      simp only [bodyContinuation, List.forall_mem_cons]
      exact ⟨⟨name, _, call, by simp [Expectation.Describes, hName, Token.kind],
        Or.inl (.mk hInner hSemicolon)⟩, ⟨brace, [], call, rfl, Or.inr (.mk .nil rfl)⟩,
        List.forall_mem_nil _⟩

theorem IsClosedBody.cons {part others : List Lexeme} {call : GateCall} {calls : List GateCall}
    (hCall : EndedBy .semicolon (IsCall IsFormula) part call) (h : IsClosedBody others calls) :
    IsClosedBody (part ++ others) (call :: calls) := by
  obtain ⟨hCall, hSemicolon⟩ := hCall
  obtain ⟨hBody, hClosing⟩ := h
  simpa using IsClosedBody.mk (.cons hCall hSemicolon hBody) hClosing

theorem body_expects (lexemes : List Lexeme) : Expects body IsClosedBody lexemes := by
  cases hDone : beginsWith .rightBrace lexemes with
  | true => exact .of_ok (repeated_done bodyCall_shortens hDone)
  | false =>
      refine Expects.congr ?_ (repeated_eq bodyCall_shortens hDone)
      refine (bodyCall_expects lexemes).bind (fun part call hPart => ?_) fun call rest hRead => ?_
      · -- behind a call the body can be closed, and a brace has closed it already
        obtain hCall | hBrace := hPart
        · let brace : Lexeme := Token.lexeme (.symbol .rightBrace)
          exact ⟨[brace], [call], .cons hCall (.mk .nil rfl)⟩
        · exact ⟨[], [], by simpa using hBrace⟩
      · have hShorter := bodyCall_shortens _ _ _ hRead
        obtain ⟨front, hFront, hCall⟩ := bodyCall_sound _ _ _ hRead
        exact ⟨front, hFront,
          (body_expects rest).map (fun _ _ hPart => .cons hCall hPart) body_sound⟩
termination_by lexemes.length

/-- A body, its closing brace and what is made of the calls. -/
theorem closedBody_guides (f : List GateCall → Statement) :
    Guides (do
      let calls ← body
      symbol .rightBrace
      return f calls) fun part value => ∃ calls, IsClosedBody part calls ∧ f calls = value where
  sound := by
    intro lexemes value rest hRead
    rw [bind_eq_ok] at hRead
    obtain ⟨calls, behind, hBody, hRead⟩ := hRead
    obtain ⟨inner, rfl, hInner⟩ := body_sound _ _ _ hBody
    obtain ⟨back, rfl, ⟨hClosing⟩, ⟨⟩⟩ :=
      ((symbol_guides .rightBrace).bind fun _ => Guides.pure (f calls)).sound _ _ _ hRead
    have hFormula := hInner.mono fun _ _ _ _ _ _ hItem => hItem.isFormula
    exact ⟨inner ++ [_], by simp, calls, .mk hFormula hClosing, rfl⟩
  expects := fun lexemes => by
    -- the calls alone are no `Guides`: they expect the brace that is read behind them
    refine (body_expects lexemes).bind (fun part calls hPart => ?_) fun calls behind hBody => ?_
    · exact ⟨[], f calls, calls, by simpa using hPart, rfl⟩
    · obtain ⟨inner, hFront, hInner⟩ := body_sound _ _ _ hBody
      have hFormula := hInner.mono fun _ _ _ _ _ _ hItem => hItem.isFormula
      have hBrace := (symbol_guides .rightBrace).bind fun _ => Guides.pure (f calls)
      refine ⟨inner, hFront, (hBrace.expects behind).mono ?_⟩
      rintro _ _ ⟨⟨hClosing⟩, ⟨⟩⟩
      exact ⟨calls, .mk hFormula hClosing, rfl⟩
  inhabited := by
    let brace : Lexeme := Token.lexeme (.symbol .rightBrace)
    exact ⟨[brace], f [], [], .mk .nil rfl, rfl⟩

/-! ### Statements -/

/-- A statement of a mode, with parameters of any nesting. -/
structure Allowed (mode : Mode) (lexemes : List Lexeme) (found : Statement) : Prop where
  statement : IsStatement IsFormula lexemes found
  allows : mode.Allows found

theorem definition_guides (mode : Mode) : Guides definition (Allowed mode) := by
  refine ((keyword_guides .gate).bind fun position => header_guides.bind fun header =>
    (symbol_guides .leftBrace).bind fun _ =>
      closedBody_guides fun calls => .gate ⟨header, calls, position⟩).mono ?_
  rintro _ _ ⟨⟨hWord⟩, ⟨hHeader, ⟨⟨hOpening⟩, ⟨calls, ⟨hBody, hClosing⟩, rfl⟩⟩⟩⟩
  exact ⟨by simpa using IsStatement.gate hWord hHeader hOpening hBody hClosing, trivial⟩

theorem opaqueDeclaration_guides (mode : Mode) :
    Guides (closed opaqueDeclaration) (Allowed mode) := by
  refine (endedBy_guides .semicolon ((keyword_guides .opaqueGate).bind fun _ =>
    header_guides.bind fun _ => Guides.pure _)).mono ?_
  rintro _ _ ⟨⟨⟨hWord⟩, ⟨hHeader, ⟨⟩⟩⟩, hSemicolon⟩
  exact ⟨by simpa using IsStatement.opaqueGate hWord hHeader hSemicolon, trivial⟩

theorem version_guides : Guides (closed version) (IsStatement IsFormula) := by
  refine (endedBy_guides .semicolon ((keyword_guides .version).bind fun _ =>
    versionNumber_guides.bind fun _ => Guides.pure _)).mono ?_
  rintro _ _ ⟨⟨⟨hWord⟩, ⟨⟨hNumber⟩, ⟨⟩⟩⟩, hSemicolon⟩
  exact .version hWord hNumber hSemicolon

theorem inclusion_guides : Guides (closed inclusion) (IsStatement IsFormula) := by
  refine (endedBy_guides .semicolon ((keyword_guides .inclusion).bind fun _ =>
    string_guides.bind fun _ => Guides.pure _)).mono ?_
  rintro _ _ ⟨⟨⟨hWord⟩, ⟨⟨hPath⟩, ⟨⟩⟩⟩, hSemicolon⟩
  exact .inclusion hWord hPath hSemicolon

theorem register_guides (kind : RegisterKind) :
    Guides (closed (registerOf kind (registerWord kind))) (IsStatement IsFormula) := by
  refine (endedBy_guides .semicolon ((keyword_guides (registerWord kind)).bind fun _ =>
    identifier_guides.bind fun _ => (symbol_guides .leftBracket).bind fun _ =>
      integer_guides.bind fun _ => (symbol_guides .rightBracket).bind fun _ =>
        Guides.pure _)).mono ?_
  rintro _ _ ⟨⟨⟨hWord⟩, ⟨⟨hName⟩, ⟨⟨hOpening⟩, ⟨⟨hNumber⟩, ⟨⟨hClosing⟩, ⟨⟩⟩⟩⟩⟩⟩, hSemicolon⟩
  exact .register hWord hName hOpening hNumber hClosing hSemicolon

theorem application_guides : Guides (closed application) (IsStatement IsFormula) := by
  refine (endedBy_guides .semicolon (gateCall_guides.bind fun _ => Guides.pure _)).mono ?_
  rintro _ _ ⟨⟨hCall, ⟨⟩⟩, hSemicolon⟩
  simpa using IsStatement.call hCall hSemicolon

theorem measure_guides : Guides (closed measure) (IsStatement IsFormula) := by
  refine (endedBy_guides .semicolon ((keyword_guides .measure).bind fun _ =>
    reference_guides.bind fun _ => (symbol_guides .arrow).bind fun _ =>
      reference_guides.bind fun _ => Guides.pure _)).mono ?_
  rintro _ _ ⟨⟨⟨hWord⟩, ⟨hSource, ⟨⟨hArrow⟩, ⟨hTarget, ⟨⟩⟩⟩⟩⟩, hSemicolon⟩
  simpa using IsStatement.measure hWord hSource hArrow hTarget hSemicolon

theorem reset_guides : Guides (closed reset) (IsStatement IsFormula) := by
  refine (endedBy_guides .semicolon ((keyword_guides .reset).bind fun _ =>
    reference_guides.bind fun _ => Guides.pure _)).mono ?_
  rintro _ _ ⟨⟨⟨hWord⟩, ⟨hTarget, ⟨⟩⟩⟩, hSemicolon⟩
  simpa using IsStatement.reset hWord hTarget hSemicolon

theorem barrier_guides : Guides (closed barrier) (IsStatement IsFormula) := by
  refine (endedBy_guides .semicolon ((keyword_guides .barrier).bind fun _ =>
    references_guides.bind fun _ => Guides.pure _)).mono ?_
  rintro _ _ ⟨⟨⟨hWord⟩, ⟨hTargets, ⟨⟩⟩⟩, hSemicolon⟩
  simpa using IsStatement.barrier hWord hTargets hSemicolon

theorem condition_guides : Guides (closed condition) (IsStatement IsFormula) := by
  refine (endedBy_guides .semicolon ((keyword_guides .condition).bind fun _ =>
    (symbol_guides .leftParen).bind fun _ => identifier_guides.bind fun _ =>
      (symbol_guides .equals).bind fun _ => integer_guides.bind fun _ =>
        (symbol_guides .rightParen).bind fun _ => gateCall_guides.bind fun _ =>
          Guides.pure _)).mono ?_
  rintro _ _ ⟨⟨⟨hWord⟩, ⟨⟨hOpening⟩, ⟨⟨hName⟩, ⟨⟨hEquals⟩, ⟨⟨hNumber⟩, ⟨⟨hClosing⟩,
    ⟨hCall, ⟨⟩⟩⟩⟩⟩⟩⟩⟩, hSemicolon⟩
  simpa using
    IsStatement.condition hWord hOpening hName hEquals hNumber hClosing hCall hSemicolon

theorem statementFor?_guides {token : Token} {reader : Reader Statement}
    (h : statementFor? mode token = some reader) : Guides reader (Allowed mode) := by
  have hCircuit {reader : Reader Statement} (hReader : Guides reader (IsStatement IsFormula)) :
      Guides reader (Allowed .circuit) :=
    hReader.mono fun _ _ hStatement => ⟨hStatement, Mode.circuit_allows _⟩
  unfold statementFor? at h
  split at h <;> cases h
  · exact definition_guides mode
  · exact opaqueDeclaration_guides mode
  · exact hCircuit version_guides
  · exact hCircuit inclusion_guides
  · exact hCircuit (register_guides .quantum)
  · exact hCircuit (register_guides .classical)
  · exact hCircuit measure_guides
  · exact hCircuit reset_guides
  · exact hCircuit barrier_guides
  · exact hCircuit condition_guides
  · exact hCircuit application_guides

/-- Each of the lexemes that can begin a statement is the first one that some reader asks for. -/
theorem startOf_readers : ∀ expectation ∈ startOf mode, ∃ token reader,
    statementFor? mode token = some reader ∧ reader [] = .error ⟨[expectation], []⟩ := by
  cases mode with
  | library =>
      simp only [startOf, declarationStart, List.forall_mem_cons]
      exact ⟨⟨.keyword .gate, _, rfl, rfl⟩, ⟨.keyword .opaqueGate, _, rfl, rfl⟩,
        List.forall_mem_nil _⟩
  | circuit =>
      simp only [startOf, statementStart, List.forall_mem_cons]
      exact ⟨⟨.keyword .version, _, rfl, rfl⟩, ⟨.keyword .inclusion, _, rfl, rfl⟩,
        ⟨.keyword .qreg, _, rfl, rfl⟩, ⟨.keyword .creg, _, rfl, rfl⟩,
        ⟨.keyword .gate, _, rfl, rfl⟩, ⟨.keyword .opaqueGate, _, rfl, rfl⟩,
        ⟨.keyword .measure, _, rfl, rfl⟩, ⟨.keyword .reset, _, rfl, rfl⟩,
        ⟨.keyword .barrier, _, rfl, rfl⟩, ⟨.keyword .condition, _, rfl, rfl⟩,
        ⟨.identifier "x", _, rfl, rfl⟩, List.forall_mem_nil _⟩

/-- With each of them a statement begins. -/
theorem startOf_begins : ∀ expectation ∈ startOf mode, ∃ lexeme more found,
    expectation.Describes lexeme ∧ Allowed mode (lexeme :: more) found := by
  intro expectation hMember
  obtain ⟨token, reader, hReader, hEmpty⟩ := startOf_readers expectation hMember
  have hShallow : [expectation] ≠ [.shallowerNesting] := by
    rintro hSame
    cases hSame
    cases mode <;> simp [startOf, statementStart, declarationStart] at hMember
  obtain ⟨front, hFront, -, hAll⟩ := (statementFor?_guides hReader).expects [] _ _ hEmpty hShallow
  rw [List.append_nil] at hFront
  subst hFront
  exact hAll expectation (List.mem_singleton_self _)

theorem statement_guides (mode : Mode) : Guides (statement mode) (Allowed mode) where
  sound := by
    intro lexemes found rest hRead
    cases lexemes with
    | nil => cases hRead
    | cons first others =>
        cases hReader : statementFor? mode first.token with
        | none =>
            rw [statement, hReader] at hRead
            cases hRead
        | some reader =>
            rw [statement, hReader] at hRead
            exact (statementFor?_guides hReader).sound _ _ _ hRead
  expects := by
    intro lexemes
    have hSome : startOf mode ≠ [] := by cases mode <;> decide
    cases lexemes with
    | nil => exact .of_here rfl hSome startOf_begins
    | cons first others =>
        cases hReader : statementFor? mode first.token with
        | none => exact .of_here (by rw [statement, hReader]) hSome startOf_begins
        | some reader =>
            refine ((statementFor?_guides hReader).expects (first :: others)).congr ?_
            rw [statement, hReader]
  inhabited := (definition_guides mode).inhabited

/-! ### Programs -/

/-- A program of a mode, with parameters of any nesting. -/
structure IsProgramOf (mode : Mode) (lexemes : List Lexeme) (found : List Statement) : Prop where
  program : IsProgram IsFormula lexemes found
  allows : ∀ s ∈ found, mode.Allows s

theorem IsProgramOf.cons {first others : List Lexeme} {found : Statement} {rest : List Statement}
    (hFirst : Allowed mode first found) (h : IsProgramOf mode others rest) :
    IsProgramOf mode (first ++ others) (found :: rest) :=
  ⟨.cons hFirst.statement h.program, List.forall_mem_cons.mpr ⟨hFirst.allows, h.allows⟩⟩

theorem IsProgramOf.nil : IsProgramOf mode [] [] := ⟨.nil, List.forall_mem_nil _⟩

/-- **What is expected can follow.**  Where a program is refused, and not for its nesting, what has
been read goes on to a program with each of the lexemes that are expected. -/
theorem statements_expects (mode : Mode) (lexemes : List Lexeme) :
    Expects (statements mode) (IsProgramOf mode) lexemes := by
  have hShortens := statement_shortens mode
  cases hDone : lexemes.isEmpty with
  | true => exact .of_ok (repeated_done hShortens hDone)
  | false =>
      refine Expects.congr ?_ (repeated_eq hShortens hDone)
      refine ((statement_guides mode).expects lexemes).bind (fun part found hPart => ?_)
        fun found rest hRead => ?_
      · exact ⟨[], [found], .cons hPart .nil⟩
      · have hShorter := hShortens _ _ _ hRead
        obtain ⟨front, hFront, hFound⟩ := (statement_guides mode).sound _ _ _ hRead
        have hSound : Sound (statements mode) (IsProgram IsExpression) := by
          intro lexemes found rest hRead
          obtain ⟨rfl, hProgram, -⟩ := statements_sound hRead
          exact ⟨lexemes, (List.append_nil _).symm, hProgram⟩
        exact ⟨front, hFront,
          (statements_expects mode rest).map (fun _ _ hPart => .cons hFound hPart) hSound⟩
termination_by lexemes.length

end Grammar
end QuantumCircuit
