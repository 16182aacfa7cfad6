import QuantumCircuit.Proofs.Grammar.Reading

/-!
# What is read can be written down

The grammar and the tokens of a text together leave no room for illegible trees: names come from
identifiers, numbers from integers and finite literals, and no list of qubits is empty.

* `Derives.legible`, `IsStatement.legible` : the trees of proper lexemes are legible.
* `Program.legible_of_parse` : so is every program that is read from a text.
-/

namespace QuantumCircuit
namespace Grammar

variable {α : Type} {phrase : List Lexeme → α → Prop} {lexemes : List Lexeme}

/-! ### Lists -/

theorem Listed.ne_nil {values : List α} (h : Listed phrase lexemes values) : values ≠ [] := by
  cases h <;> simp

/-- What every item of a list shows, the values of the list show. -/
theorem Listed.forall_values {P : Lexeme → Prop} {Q : α → Prop} {values : List α}
    (hItem : ∀ lexemes value, phrase lexemes value → (∀ lexeme ∈ lexemes, P lexeme) → Q value)
    (h : Listed phrase lexemes values) (hLexemes : ∀ lexeme ∈ lexemes, P lexeme) :
    ∀ value ∈ values, Q value := by
  induction h with
  | one hOne =>
      rw [List.forall_mem_singleton]
      exact hItem _ _ hOne hLexemes
  | more hFirst hComma hOthers ih =>
      rw [List.forall_mem_append, List.forall_mem_cons] at hLexemes
      obtain ⟨hFront, -, hBack⟩ := hLexemes
      rw [List.forall_mem_cons]
      exact ⟨hItem _ _ hFirst hFront, ih hBack⟩

theorem InParentheses.forall_values {P : Lexeme → Prop} {Q : α → Prop} {values : List α}
    (hItem : ∀ lexemes value, phrase lexemes value → (∀ lexeme ∈ lexemes, P lexeme) → Q value)
    (h : InParentheses phrase lexemes values) (hLexemes : ∀ lexeme ∈ lexemes, P lexeme) :
    ∀ value ∈ values, Q value := by
  cases h with
  | absent => exact List.forall_mem_nil _
  | empty hOpening hClosing => exact List.forall_mem_nil _
  | given hOpening hInner hClosing =>
      rw [List.forall_mem_cons, List.forall_mem_append] at hLexemes
      exact hInner.forall_values hItem hLexemes.2.1

/-! ### Expressions -/

/-- An integer of a text is a finite number. -/
theorem isFinite_integer (value : UInt64) :
    (Decimal.toBinary64 ⟨value.toNat, 0⟩).isFinite = true := by
  apply Decimal.isFinite_toBinary64
  have hWord : (value.toNat : ℚ) < 2 ^ 64 := by exact_mod_cast value.toNat_lt
  simpa [Decimal.value] using hWord

theorem opening?_legible {token : Token} {e : Expr} (h : opening? token = some (.leaf e))
    (hProper : token.Proper) : e.Legible := by
  unfold opening? at h
  split at h <;> cases h
  · trivial
  · exact ⟨isFinite_integer _, Decimal.isNegative_toBinary64 _⟩
  · exact hProper
  · exact hProper

/-- The tree of an expression is legible. -/
theorem Derives.legible {level : Nat} {e : Expr} {cost : Nat} (h : Derives level lexemes e cost)
    (hProper : ∀ lexeme ∈ lexemes, lexeme.token.Proper) : e.Legible := by
  induction h with
  | leaf hLeaf => exact opening?_legible hLeaf (hProper _ (List.mem_singleton_self _))
  | parenthesis hOpening hInner hClosing ih =>
      rw [List.forall_mem_cons, List.forall_mem_append] at hProper
      exact ih hProper.2.1
  | call hName hOpening hInner hClosing ih =>
      rw [List.forall_mem_cons, List.forall_mem_cons, List.forall_mem_append] at hProper
      exact ih hProper.2.2.1
  | minus hSign hOperand ih =>
      rw [List.forall_mem_cons] at hProper
      exact ih hProper.2
  | binary hSign hOperator hLeft hRight ihLeft ihRight =>
      rw [List.forall_mem_append, List.forall_mem_cons] at hProper
      exact ⟨ihLeft hProper.1, ihRight hProper.2.2⟩
  | tighter hTighter ih => exact ih hProper

theorem IsExpression.legible {lexemes : List Lexeme} {e : Expr} (h : IsExpression lexemes e)
    (hProper : ∀ lexeme ∈ lexemes, lexeme.token.Proper) : e.Legible := by
  obtain ⟨cost, hDerives, -, -⟩ := h
  exact hDerives.legible hProper

/-! ### Parts of statements -/

/-- An identifier of a text is a name. -/
theorem isName_of_proper {lexeme : Lexeme} {name : String} (hProper : lexeme.token.Proper)
    (h : lexeme.token = .identifier name) : IsName name := by
  rw [h] at hProper
  exact hProper

theorem IsFormal.isName {lexemes : List Lexeme} {name : String} (h : IsFormal lexemes name)
    (hProper : ∀ lexeme ∈ lexemes, lexeme.token.Proper) : IsName name := by
  obtain ⟨hName⟩ := h
  exact isName_of_proper (hProper _ (List.mem_singleton_self _)) hName

theorem IsReference.isName {lexemes : List Lexeme} {reference : RegisterRef}
    (h : IsReference lexemes reference) (hProper : ∀ lexeme ∈ lexemes, lexeme.token.Proper) :
    IsName reference.register := by
  cases h with
  | whole hName => exact isName_of_proper (hProper _ (List.mem_cons_self ..)) hName
  | element hName => exact isName_of_proper (hProper _ (List.mem_cons_self ..)) hName

theorem IsHeader.legible {header : GateHeader} (h : IsHeader lexemes header)
    (hProper : ∀ lexeme ∈ lexemes, lexeme.token.Proper) : header.Legible := by
  obtain ⟨hName, hParams, hQubits⟩ := h
  rw [List.forall_mem_cons, List.forall_mem_append] at hProper
  obtain ⟨hFirst, hFront, hBack⟩ := hProper
  exact ⟨isName_of_proper hFirst hName, hParams.forall_values (fun _ _ => IsFormal.isName) hFront,
    hQubits.forall_values (fun _ _ => IsFormal.isName) hBack, hQubits.ne_nil⟩

theorem IsCall.legible {call : GateCall} (h : IsCall IsExpression lexemes call)
    (hProper : ∀ lexeme ∈ lexemes, lexeme.token.Proper) : call.Legible := by
  obtain ⟨hName, hParams, hQubits⟩ := h
  rw [List.forall_mem_cons, List.forall_mem_append] at hProper
  obtain ⟨hFirst, hFront, hBack⟩ := hProper
  exact ⟨isName_of_proper hFirst hName,
    hParams.forall_values (fun _ _ => IsExpression.legible) hFront,
    hQubits.forall_values (fun _ _ => IsReference.isName) hBack, hQubits.ne_nil⟩

theorem IsBody.legible {calls : List GateCall} (h : IsBody IsExpression lexemes calls)
    (hProper : ∀ lexeme ∈ lexemes, lexeme.token.Proper) : ∀ call ∈ calls, call.Legible := by
  induction h with
  | nil => exact List.forall_mem_nil _
  | cons hCall hSemicolon hOthers ih =>
      rw [List.forall_mem_append, List.forall_mem_cons] at hProper
      obtain ⟨hFront, -, hBack⟩ := hProper
      rw [List.forall_mem_cons]
      exact ⟨hCall.legible hFront, ih hBack⟩

/-! ### Statements -/

/-- The tree of a statement is legible. -/
theorem IsStatement.legible {statement : Statement} (h : IsStatement IsExpression lexemes statement)
    (hProper : ∀ lexeme ∈ lexemes, lexeme.token.Proper) : statement.Legible := by
  cases h with
  | version hWord hNumber hSemicolon => trivial
  | @inclusion word content semicolon path hWord hPath hSemicolon =>
      have hContent := hProper content (by simp)
      rw [hPath] at hContent
      exact hContent
  | @register kind word name opening number closing semicolon register size hWord hName =>
      exact isName_of_proper (hProper name (by simp)) hName
  | gate hWord hHeader hOpening hBody hClosing =>
      simp only [List.forall_mem_cons, List.forall_mem_append] at hProper
      obtain ⟨-, hFront, -, hBack, -⟩ := hProper
      exact ⟨hHeader.legible hFront, hBody.legible hBack⟩
  | opaqueGate hWord hHeader hSemicolon =>
      simp only [List.forall_mem_cons, List.forall_mem_append] at hProper
      exact hHeader.legible hProper.2.1
  | call hCall hSemicolon =>
      rw [List.forall_mem_append] at hProper
      exact hCall.legible hProper.1
  | measure hWord hSource hArrow hTarget hSemicolon =>
      simp only [List.forall_mem_cons, List.forall_mem_append] at hProper
      obtain ⟨-, hFront, -, hBack, -⟩ := hProper
      exact ⟨hSource.isName hFront, hTarget.isName hBack⟩
  | reset hWord hTarget hSemicolon =>
      simp only [List.forall_mem_cons, List.forall_mem_append] at hProper
      exact hTarget.isName hProper.2.1
  | barrier hWord hTargets hSemicolon =>
      simp only [List.forall_mem_cons, List.forall_mem_append] at hProper
      exact ⟨hTargets.ne_nil,
        hTargets.forall_values (fun _ _ => IsReference.isName) hProper.2.1⟩
  | @condition word opening name equals number closing semicolon front register value application
      hWord hOpening hName hEquals hNumber hClosing hCall hSemicolon =>
      simp only [List.forall_mem_cons, List.forall_mem_append] at hProper
      obtain ⟨-, -, hRegister, -, -, -, hFront, -⟩ := hProper
      exact ⟨isName_of_proper hRegister hName, hCall.legible hFront⟩

theorem IsProgram.legible {statements : List Statement}
    (h : IsProgram IsExpression lexemes statements)
    (hProper : ∀ lexeme ∈ lexemes, lexeme.token.Proper) : ∀ s ∈ statements, s.Legible := by
  induction h with
  | nil => exact List.forall_mem_nil _
  | cons hStatement hOthers ih =>
      rw [List.forall_mem_append] at hProper
      rw [List.forall_mem_cons]
      exact ⟨hStatement.legible hProper.1, ih hProper.2⟩

/-! ### Heights -/

/-- The parameters of a program are within the nesting limit. -/
theorem IsProgram.height_le {statements : List Statement}
    (h : IsProgram IsExpression lexemes statements) :
    ∀ s ∈ statements, ∀ call ∈ s.calls, ∀ e ∈ call.params, e.height ≤ nestingLimit := by
  intro s hs call hCall e he
  obtain ⟨part, cost, -, -, hHeight⟩ := h.exists_param s hs call hCall e he
  exact hHeight

end Grammar

open Grammar

/-! ### Programs -/

/-- The lexemes of a text that is read as a program. -/
theorem Program.isProgram_of_parse {mode : Mode} {source : String} {program : Program}
    (h : Program.parse mode source = .ok program) :
    ∃ lexemes, tokenize source = .ok lexemes ∧
      IsProgram IsExpression (properLexemes lexemes) program.statements ∧
      ∀ s ∈ program.statements, mode.Allows s := by
  rw [Program.parse, lexemesOf] at h
  cases hTokens : tokenize source with
  | error error =>
      rw [hTokens] at h
      cases h
  | ok lexemes =>
      rw [hTokens] at h
      change (Program.ofLexemes mode lexemes).mapError Diagnostic.syntactic = .ok program at h
      cases hRead : Program.ofLexemes mode lexemes with
      | error error =>
          rw [hRead] at h
          cases h
      | ok found =>
          rw [hRead] at h
          cases h
          exact ⟨lexemes, rfl, Program.ofLexemes_eq_ok.mp hRead⟩

/-- The lexemes in front of the end of a text are proper. -/
theorem proper_of_tokenize {source : String} {lexemes : List Lexeme}
    (h : tokenize source = .ok lexemes) :
    ∀ lexeme ∈ properLexemes lexemes, lexeme.token.Proper := by
  obtain ⟨marks, hScan, hMarks⟩ := scan_of_tokenize h
  have hProper := scan_proper hScan
  rw [← properLexemes_marks hMarks hProper, List.forall_mem_map] at hProper
  exact hProper

/-- A program that is read from a text is legible. -/
theorem Program.legible_of_parse {mode : Mode} {source : String} {program : Program}
    (h : Program.parse mode source = .ok program) : program.Legible := by
  obtain ⟨lexemes, hTokens, hProgram, -⟩ := Program.isProgram_of_parse h
  exact hProgram.legible (proper_of_tokenize hTokens)

/-- The parameters of a program that is read from a text are within the nesting limit. -/
theorem Program.height_le_of_parse {mode : Mode} {source : String} {program : Program}
    (h : Program.parse mode source = .ok program) :
    ∀ e ∈ program.parameters, e.height ≤ nestingLimit := by
  obtain ⟨lexemes, -, hProgram, -⟩ := Program.isProgram_of_parse h
  intro e he
  simp only [Program.parameters, Statement.parameters, List.mem_flatMap] at he
  obtain ⟨s, hs, call, hCall, he⟩ := he
  exact hProgram.height_le s hs call hCall e he

end QuantumCircuit
