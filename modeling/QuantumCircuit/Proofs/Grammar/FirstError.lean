import QuantumCircuit.Proofs.Grammar.Viable

/-!
# Syntax errors

A syntax error is reported at the first lexeme that cannot stand where it stands: what is in front
of it goes on to a program, and with the lexeme it does not.  The report lists lexemes that could
have stood there.

* `IsProgramOf.refused` : a program is refused for its nesting or not at all.
* `Program.ofLexemes_error` : the place and the contents of a syntax error.
-/

namespace QuantumCircuit

open Grammar

variable {mode : Mode} {lexemes : List Lexeme}

/-- A program is refused for its nesting, if it is refused at all. -/
theorem Grammar.IsProgramOf.refused {found : List Statement} (h : IsProgramOf mode lexemes found)
    {expected : List Expectation} {rest : List Lexeme}
    (hRead : statements mode lexemes = .error ⟨expected, rest⟩) :
    expected = [.shallowerNesting] := by
  obtain hWithin | ⟨behind, hRefused⟩ :=
    h.program.within_or_refused (fun _ _ hFormula => hFormula) h.allows
  · rw [statements_completes hWithin.isExpression h.allows] at hRead
    cases hRead
  · rw [hRefused] at hRead
    cases hRead
    rfl

/-- The lexemes go on to a program of the mode. -/
def Grammar.GoesOn (mode : Mode) (lexemes : List Lexeme) : Prop :=
  ∃ more found, IsProgramOf mode (lexemes ++ more) found

/-- The error is reported at `next`, the first lexeme that cannot stand where it stands. -/
structure SyntaxError.IsFirst (error : SyntaxError) (mode : Mode) (before : List Lexeme)
    (next : Lexeme) : Prop where
  proper : ∀ lexeme ∈ before, lexeme.token ≠ .endOfInput
  position : error.position = next.position
  found : error.found = next.found
  /-- What is in front of the lexeme goes on to a program. -/
  viable : GoesOn mode before
  /-- With the lexeme it does not. -/
  stuck : next.token ≠ .endOfInput → ¬ GoesOn mode (before ++ [next])
  /-- In front of the end of the input it is no program yet. -/
  unfinished : next.token = .endOfInput → ∀ found, ¬ IsProgramOf mode before found
  /-- With lexemes of the kinds that are listed it does. -/
  expected : ∀ text ∈ error.expected, ∃ (expectation : Expectation) (lexeme : Lexeme),
    expectation.description = text ∧ expectation.Describes lexeme ∧
      GoesOn mode (before ++ [lexeme])

/-- **The first error.**  A syntax error, other than one for nesting, is reported at the first
lexeme of the input with which no program begins, and lists lexemes that could stand there. -/
theorem Program.ofLexemes_error {error : SyntaxError}
    (h : Program.ofLexemes mode lexemes = .error error) (hNesting : ¬ error.IsNesting) :
    ∃ before next after, lexemes ++ [finalLexeme lexemes] = before ++ next :: after ∧
      error.IsFirst mode before next := by
  obtain ⟨⟨expected, rest⟩, hRead, rfl⟩ := Program.ofLexemes_eq_error h
  have hShallow : expected ≠ [.shallowerNesting] := by
    rintro rfl
    exact hNesting rfl
  obtain ⟨front, hFront, hSome, hAll⟩ := statements_expects mode _ _ _ hRead hShallow
  obtain ⟨front', hFront', hSame⟩ := (statements_looks mode _).of_error hRead
  obtain rfl : front = front' := List.append_cancel_right (hFront.symm.trans hFront')
  -- the readers see no further than the lexeme at which they stop
  have hStuck : ∀ other, other.head? = rest.head? → ∀ found,
      ¬ IsProgramOf mode (front ++ other) found :=
    fun other hHead found hProgram => hShallow (hProgram.refused (hSame other hHead))
  have hBefore : ∀ lexeme ∈ front, lexeme.token ≠ .endOfInput := by
    intro lexeme hMember
    exact token_ne_end_of_mem_proper (hFront ▸ List.mem_append_left rest hMember)
  have hViable : GoesOn mode front := by
    obtain ⟨expectation, hMember⟩ := List.exists_mem_of_ne_nil _ hSome
    obtain ⟨lexeme, more, found, -, hProgram⟩ := hAll expectation hMember
    exact ⟨lexeme :: more, found, hProgram⟩
  have hExpected : ∀ text ∈ expected.map Expectation.description,
      ∃ (expectation : Expectation) (lexeme : Lexeme), expectation.description = text ∧
        expectation.Describes lexeme ∧ GoesOn mode (front ++ [lexeme]) := by
    rw [List.forall_mem_map]
    intro expectation hMember
    obtain ⟨lexeme, more, found, hDescribes, hProgram⟩ := hAll expectation hMember
    exact ⟨expectation, lexeme, rfl, hDescribes, more, found, by simpa using hProgram⟩
  obtain ⟨hFinal, after, hInput⟩ := append_finalLexeme lexemes
  rw [hFront] at hInput
  cases rest with
  | nil =>
      rw [List.append_nil] at hInput
      refine ⟨front, finalLexeme lexemes, after, hInput, hBefore, rfl, rfl, hViable,
        fun hOther => absurd hFinal hOther, fun _ found => ?_, hExpected⟩
      have hEnd := hStuck [] rfl found
      rwa [List.append_nil] at hEnd
  | cons next others =>
      have hNext : next.token ≠ .endOfInput :=
        token_ne_end_of_mem_proper (hFront ▸ List.mem_append_right front (List.mem_cons_self ..))
      rw [List.append_assoc, List.cons_append] at hInput
      refine ⟨front, next, _, hInput, hBefore, rfl, rfl, hViable, fun _ => ?_,
        fun hEnd => absurd hEnd hNext, hExpected⟩
      rintro ⟨more, found, hProgram⟩
      rw [List.append_assoc, List.singleton_append] at hProgram
      exact hStuck (next :: more) rfl found hProgram

/-- The lexemes of `qreg q[2;`. -/
def unclosedLexemes : List Lexeme :=
  [.keyword .qreg, .identifier "q", .symbol .leftBracket, .integer 2, .symbol .semicolon].map
    Token.lexeme

theorem Program.ofLexemes_error_unclosed :
    ∃ error, Program.ofLexemes .circuit unclosedLexemes = .error error ∧ ¬ error.IsNesting ∧
      error.expected = ["`]`"] ∧ error.found = "`;`" ∧
      ∃ before next after, unclosedLexemes ++ [finalLexeme unclosedLexemes] =
        before ++ next :: after ∧ error.IsFirst .circuit before next := by
  have hRead : Grammar.statements .circuit (properLexemes unclosedLexemes) =
      .error ⟨[.token (.symbol .rightBracket)], [Token.lexeme (.symbol .semicolon)]⟩ :=
    repeated_error _ rfl rfl
  have hError : Program.ofLexemes .circuit unclosedLexemes =
      .error ⟨.start, ["`]`"], "`;`"⟩ := by
    rw [Program.ofLexemes, readAll, hRead]
    rfl
  have hNesting : ¬ (⟨.start, ["`]`"], "`;`"⟩ : SyntaxError).IsNesting := by
    rw [SyntaxError.IsNesting]
    decide
  exact ⟨_, hError, hNesting, rfl, rfl, Program.ofLexemes_error hError hNesting⟩

end QuantumCircuit
