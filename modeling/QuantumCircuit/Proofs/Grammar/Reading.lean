import Mathlib.Data.List.TakeWhile
import QuantumCircuit.Proofs.Grammar.Nesting
import QuantumCircuit.Proofs.Token.Proper

/-!
# Reading a whole input

A phrase is read from the lexemes in front of the end of an input and has to take all of them.

* `Expr.ofLexemes_eq_ok`, `Program.ofLexemes_eq_ok` : what is read is what is derived.
* `Program.ofLexemes_circuit` : a circuit is read exactly if it is derived with parameters that
  are read as expressions, and it has one tree.
-/

namespace QuantumCircuit

open Grammar

variable {lexemes : List Lexeme}

/-! ### The end of an input -/

theorem properLexemes_of_forall (h : ∀ lexeme ∈ lexemes, lexeme.token ≠ .endOfInput) :
    properLexemes lexemes = lexemes := by
  rw [properLexemes, List.takeWhile_eq_self_iff]
  intro lexeme hMember
  simpa [Lexeme.isEnd] using h lexeme hMember

/-- The error of an expression that is nested too deeply. -/
def SyntaxError.IsNesting (error : SyntaxError) : Prop :=
  error.expected = [Expectation.shallowerNesting.description]

/-- The end of an input stands behind its proper lexemes. -/
theorem append_finalLexeme (lexemes : List Lexeme) :
    (finalLexeme lexemes).token = .endOfInput ∧ ∃ after,
      lexemes ++ [finalLexeme lexemes] = properLexemes lexemes ++ finalLexeme lexemes :: after := by
  rw [finalLexeme]
  cases hFind : lexemes.find? Lexeme.isEnd with
  | some final =>
      obtain ⟨hFinal, front, back, rfl, hFront⟩ := List.find?_eq_some_iff_append.mp hFind
      have hToken : final.token = .endOfInput := by simpa [Lexeme.isEnd] using hFinal
      have hProper : ∀ lexeme ∈ front, lexeme.token ≠ .endOfInput := by
        intro lexeme hMember
        simpa [Lexeme.isEnd] using hFront lexeme hMember
      rw [properLexemes_append_end hProper hToken]
      exact ⟨hToken, back ++ [final], by simp⟩
  | none =>
      have hProper : ∀ lexeme ∈ lexemes, lexeme.token ≠ .endOfInput := by
        intro lexeme hMember
        simpa [Lexeme.isEnd] using List.find?_eq_none.mp hFind lexeme hMember
      rw [properLexemes_of_forall hProper]
      cases lexemes.getLast? with
      | none => exact ⟨rfl, [], rfl⟩
      | some last => exact ⟨rfl, [], rfl⟩

theorem token_ne_end_of_mem_proper {lexeme : Lexeme} (h : lexeme ∈ properLexemes lexemes) :
    lexeme.token ≠ .endOfInput := by
  simpa [Lexeme.isEnd] using List.mem_takeWhile_imp h

theorem readAll_eq_ok {α : Type} {reader : Reader α} {value : α} :
    readAll reader lexemes = .ok value ↔ reader (properLexemes lexemes) = .ok (value, []) := by
  rw [readAll]
  constructor
  · intro h
    split at h
    · rename_i hRead
      cases h
      exact hRead
    · cases h
    · cases h
  · intro h
    rw [h]

/-! ### Whole phrases -/

namespace Grammar

theorem expression_eq_ok {e : Expr} :
    expression lexemes = .ok (e, []) ↔ IsExpression lexemes e := by
  constructor
  · intro h
    obtain ⟨front, hFront, hExpression⟩ := expression_sound _ _ _ h
    rw [List.append_nil] at hFront
    rwa [hFront]
  · rintro ⟨cost, hDerives, hCost, hHeight⟩
    have hStops (bound : Nat) : Stops bound [] := fun _ _ hFront => nomatch hFront
    have hRead := (hDerives.reads (Nat.le_sub_one_of_lt hCost)).expressionWithin hHeight
      (hStops _) (hStops _)
    rwa [List.append_nil] at hRead

theorem statements_eq_ok {mode : Mode} {found : List Statement} :
    statements mode lexemes = .ok (found, []) ↔
      IsProgram IsExpression lexemes found ∧ ∀ s ∈ found, mode.Allows s :=
  ⟨fun h => (statements_sound h).2, fun ⟨hProgram, hMode⟩ => statements_completes hProgram hMode⟩

end Grammar

theorem Expr.ofLexemes_eq_ok {e : Expr} :
    Expr.ofLexemes lexemes = .ok e ↔ IsExpression (properLexemes lexemes) e := by
  rw [Expr.ofLexemes, readAll_eq_ok, expression_eq_ok]

theorem Program.ofLexemes_eq_ok {mode : Mode} {program : Program} :
    Program.ofLexemes mode lexemes = .ok program ↔
      IsProgram IsExpression (properLexemes lexemes) program.statements ∧
        ∀ s ∈ program.statements, mode.Allows s := by
  rw [← statements_eq_ok, ← readAll_eq_ok, Program.ofLexemes]
  constructor
  · intro h
    cases hRead : readAll (Grammar.statements mode) lexemes with
    | error error =>
        rw [hRead] at h
        cases h
    | ok found =>
        rw [hRead] at h
        cases h
        rfl
  · intro h
    rw [h]
    rfl

/-- Where the statements of an input are not read. -/
theorem Program.ofLexemes_eq_error {mode : Mode} {error : SyntaxError}
    (h : Program.ofLexemes mode lexemes = .error error) :
    ∃ mismatch, Grammar.statements mode (properLexemes lexemes) = .error mismatch ∧
      error = mismatch.report (finalLexeme lexemes) := by
  rw [Program.ofLexemes, readAll] at h
  cases hRead : Grammar.statements mode (properLexemes lexemes) with
  | ok found =>
      obtain ⟨found, rest⟩ := found
      obtain ⟨rfl, -, -⟩ := statements_sound hRead
      rw [hRead] at h
      cases h
  | error mismatch =>
      rw [hRead] at h
      cases h
      exact ⟨mismatch, rfl, rfl⟩

/-- A circuit may hold every statement. -/
theorem Grammar.Mode.circuit_allows (statement : Statement) : Mode.circuit.Allows statement := by
  cases statement <;> simp [Mode.Allows]

/-! ### The grammar of circuits -/

/-- The lexemes are read as an expression on their own. -/
def ReadsAs (lexemes : List Lexeme) (e : Expr) : Prop := Expr.ofLexemes lexemes = .ok e

/-- In front of the end of the input the parameters that are read are the expressions within the
limits. -/
theorem isProgram_readsAs (h : ∀ lexeme ∈ lexemes, lexeme.token ≠ .endOfInput)
    {found : List Statement} :
    IsProgram ReadsAs lexemes found ↔ IsProgram IsExpression lexemes found := by
  have hParam : ∀ part ⊆ lexemes, ∀ e, ReadsAs part e ↔ IsExpression part e := by
    intro part hPart e
    rw [ReadsAs, Expr.ofLexemes_eq_ok, properLexemes_of_forall fun l hl => h l (hPart hl)]
  constructor
  · exact fun hFound => hFound.mono fun part hPart _ _ _ _ e _ => (hParam part hPart e).mp
  · exact fun hFound => hFound.mono fun part hPart _ _ _ _ e _ => (hParam part hPart e).mpr

/-- **The grammar.**  Lexemes in front of the end of the input are read as a circuit exactly if
they are derived, with parameters that are read as expressions; the circuit is the tree of the
derivation, and no other derivation has another tree. -/
theorem Program.ofLexemes_circuit (h : ∀ lexeme ∈ lexemes, lexeme.token ≠ .endOfInput)
    {final : Lexeme} (hFinal : final.token = .endOfInput) :
    (∀ program, Program.ofLexemes .circuit (lexemes ++ [final]) = .ok program ↔
      IsProgram ReadsAs lexemes program.statements) ∧
      ∀ first second, IsProgram ReadsAs lexemes first → IsProgram ReadsAs lexemes second →
        first = second := by
  constructor
  · intro program
    rw [Program.ofLexemes_eq_ok, properLexemes_append_end h hFinal, isProgram_readsAs h]
    exact and_iff_left fun s _ => Mode.circuit_allows s
  · intro first second hFirst hSecond
    rw [isProgram_readsAs h] at hFirst hSecond
    have hRead := statements_completes hFirst fun s _ => Mode.circuit_allows s
    rw [statements_completes hSecond fun s _ => Mode.circuit_allows s] at hRead
    cases hRead
    rfl

/-- A lexeme of a token, apart from any text. -/
def Token.lexeme (token : Token) : Lexeme := ⟨token, token.text, 0, 0, .start⟩

/-- The lexemes of `turn(pi) q;`. -/
def turnLexemes : List Lexeme :=
  [.identifier "turn", .symbol .leftParen, .keyword .pi, .symbol .rightParen, .identifier "q",
    .symbol .semicolon].map Token.lexeme

theorem Program.ofLexemes_circuit_turn :
    (∀ lexeme ∈ turnLexemes, lexeme.token ≠ .endOfInput) ∧
      (Token.lexeme .endOfInput).token = .endOfInput ∧
      Program.ofLexemes .circuit (turnLexemes ++ [Token.lexeme .endOfInput]) =
        .ok ⟨[.call ⟨"turn", [.pi], [⟨"q", none, .start⟩], .start⟩]⟩ := by
  have hProper : ∀ lexeme ∈ turnLexemes, lexeme.token ≠ .endOfInput := by decide
  refine ⟨hProper, rfl, ((Program.ofLexemes_circuit hProper rfl).1 _).mpr ?_⟩
  have hPi : ReadsAs [Token.lexeme (.keyword .pi)] .pi :=
    Expr.ofLexemes_eq_ok.mpr ⟨0, (Derives.leaf rfl).loosen (by decide), by decide, by decide⟩
  exact .cons (.call (.mk rfl (.given rfl (.one hPi) rfl) (.one (.whole rfl))) rfl) .nil

end QuantumCircuit
