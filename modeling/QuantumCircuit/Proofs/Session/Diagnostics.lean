import QuantumCircuit.Proofs.Grammar.Anchors
import QuantumCircuit.Proofs.Grammar.FirstError
import QuantumCircuit.Proofs.Token.Coverage
import QuantumCircuit.Proofs.Validity.Alike
import QuantumCircuit.Session

/-!
# Diagnostics point into the text

Every refused text, unless it is empty, gets a diagnostic whose place is a place of the text: that
of a character, of a token, or of a token from which the program takes one of its places.

* `Diagnostic.PointsInto` : what a diagnostic points at.
* `Session.parse_error_pointsInto` : every diagnostic of a text does so.
-/

namespace QuantumCircuit

open Grammar

/-! ### What a diagnostic points at -/

/-- What the diagnostic reports stands in the text at the place that it names. -/
inductive Diagnostic.PointsInto (source : String) : Diagnostic → Prop
  /-- The character stands behind the characters that are counted by the place.  If no counter
  overflows, it stands at the line and the column of the place. -/
  | lexical {error : LexicalError} {before after : List Char}
      (hSource : source.toList = before ++ error.character :: after)
      (hPlace : error.position = .behind before)
      (hShown : countersOverflow source = false → error.position.Shows before) :
      Diagnostic.PointsInto source (.lexical error)
  /-- The place is that of a lexeme, which is named as what was found. -/
  | syntactic {error : SyntaxError} {lexemes : List Lexeme} {lexeme : Lexeme}
      (hLexemes : tokenize source = .ok lexemes) (hMember : lexeme ∈ lexemes)
      (hPlace : error.position = lexeme.position)
      (hFound : error.found =
        if lexeme.token = .endOfInput then "end of input" else "`" ++ lexeme.text ++ "`") :
      Diagnostic.PointsInto source (.syntactic error)
  /-- The place is that of a lexeme that begins a statement, or names the gate of a call or the
  register of an argument. -/
  | semantic {error : SemanticError} {lexemes : List Lexeme} {program : Program} {lexeme : Lexeme}
      (hLexemes : tokenize source = .ok lexemes)
      (hProgram : Program.ofLexemes .circuit lexemes = .ok program)
      (hAnchor : Anchor lexemes program.statements lexeme)
      (hPlace : error.position = lexeme.position) : Diagnostic.PointsInto source (.semantic error)

/-! ### Syntax errors -/

/-- The lexemes of a text hold an end of the input. -/
theorem exists_isEnd_of_tokenize {source : String} {lexemes : List Lexeme}
    (h : tokenize source = .ok lexemes) : ∃ lexeme ∈ lexemes, lexeme.isEnd = true := by
  obtain ⟨tokens, -, rfl⟩ := (tiles_of_tokenize h).ends
  exact ⟨_, List.mem_append_right _ (List.mem_singleton_self _), rfl⟩

/-- Lexemes that hold an end of the input end at one of them. -/
theorem finalLexeme_mem {lexemes : List Lexeme} (h : ∃ lexeme ∈ lexemes, lexeme.isEnd = true) :
    finalLexeme lexemes ∈ lexemes := by
  rw [finalLexeme]
  cases hFind : lexemes.find? Lexeme.isEnd with
  | some final => exact List.mem_of_find?_eq_some hFind
  | none =>
      obtain ⟨lexeme, hMember, hEnd⟩ := h
      exact absurd hEnd (List.find?_eq_none.mp hFind lexeme hMember)

/-- A syntax error is reported at one of the lexemes. -/
theorem Program.exists_lexeme_of_error {mode : Mode} {lexemes : List Lexeme} {error : SyntaxError}
    (hEnd : ∃ lexeme ∈ lexemes, lexeme.isEnd = true)
    (h : Program.ofLexemes mode lexemes = .error error) :
    ∃ lexeme ∈ lexemes, error.position = lexeme.position ∧ error.found = lexeme.found := by
  obtain ⟨⟨expected, rest⟩, hRead, rfl⟩ := Program.ofLexemes_eq_error h
  -- the reader stops in front of a lexeme that it was given, or at the end
  obtain ⟨front, hFront, -⟩ := (statements_looks mode _).of_error hRead
  cases rest with
  | nil => exact ⟨finalLexeme lexemes, finalLexeme_mem hEnd, rfl, rfl⟩
  | cons next others =>
      have hProper : next ∈ properLexemes lexemes := by
        rw [hFront]
        exact List.mem_append_right front (List.mem_cons_self ..)
      exact ⟨next, List.takeWhile_subset _ hProper, rfl, rfl⟩

/-! ### Semantic errors -/

/-- A broken rule is reported at an anchor of the program. -/
theorem Program.anchored_of_validate_error {library : Option SymbolTable} {program : Program}
    {lexemes : List Lexeme} (hProgram : IsProgram IsExpression lexemes program.statements)
    {diagnostic : Diagnostic} (h : program.validate library = .error diagnostic) :
    ∃ error, diagnostic = .semantic error ∧
      Anchored lexemes program.statements error.position := by
  have hSelf : program.AlikeAt (fun place _ => Anchored lexemes program.statements place) program :=
    hProgram.anchored
  have hCheck := Program.check_alike library hSelf
  rw [Program.validate] at h
  cases hResult : program.check library with
  | ok table =>
      rw [hResult] at h
      cases h
  | error fault =>
      rw [hResult] at h hCheck
      cases h
      cases hCheck with
      | error hFault => exact ⟨fault.report, rfl, hFault.position⟩

/-! ### Sessions -/

/-- Where the reading of a text fails. -/
theorem Session.parse_error_cases {session : Session} {source : String} {diagnostic : Diagnostic}
    (hSome : source.isEmpty = false) (h : session.parse source = .error diagnostic) :
    (∃ error, tokenize source = .error error ∧ diagnostic = .lexical error) ∨
      (∃ lexemes error, tokenize source = .ok lexemes ∧
        Program.ofLexemes .circuit lexemes = .error error ∧ diagnostic = .syntactic error) ∨
      ∃ lexemes program, tokenize source = .ok lexemes ∧
        Program.ofLexemes .circuit lexemes = .ok program ∧
        program.validate session.librarySymbols = .error diagnostic := by
  simp only [Session.parse, hSome, Bool.false_eq_true, if_false, Program.parse, lexemesOf] at h
  cases hLexemes : tokenize source with
  | error error =>
      rw [hLexemes] at h
      cases h
      exact Or.inl ⟨error, rfl, rfl⟩
  | ok lexemes =>
      rw [hLexemes] at h
      refine Or.inr ?_
      cases hProgram : Program.ofLexemes .circuit lexemes with
      | error error =>
          simp only [Except.mapError, bind, Except.bind, hProgram] at h
          cases h
          exact Or.inl ⟨lexemes, error, rfl, hProgram, rfl⟩
      | ok program =>
          simp only [Except.mapError, bind, Except.bind, hProgram] at h
          refine Or.inr ⟨lexemes, program, rfl, hProgram, ?_⟩
          cases hValid : program.validate session.librarySymbols with
          | error error =>
              rw [hValid] at h
              cases h
              rfl
          | ok symbols =>
              rw [hValid] at h
              cases h

/-- What a diagnostic points at has a line and a column, as long as no counter overflows. -/
theorem Diagnostic.PointsInto.one_le {source : String} {diagnostic : Diagnostic}
    (h : diagnostic.PointsInto source) (hRoom : countersOverflow source = false) :
    1 ≤ diagnostic.position.line ∧ 1 ≤ diagnostic.position.column := by
  have hLexeme {lexemes : List Lexeme} (hLexemes : tokenize source = .ok lexemes) {lexeme : Lexeme}
      (hMember : lexeme ∈ lexemes) : 1 ≤ lexeme.position.line ∧ 1 ≤ lexeme.position.column := by
    obtain ⟨before, after, hSource, -, -, hPosition⟩ :=
      (tiles_of_tokenize hLexemes).covers.standing lexeme hMember
    have hBefore : Position.HasRoom before :=
      (countersOverflow_of_tokenize hLexemes).mp hRoom before ⟨_, hSource.symm⟩
    rw [hPosition]
    exact (Position.shows_behind.mpr hBefore).one_le
  cases h with
  | lexical hSource hPlace hShown => exact (hShown hRoom).one_le
  | syntactic hLexemes hMember hPlace hFound =>
      rw [Diagnostic.position, hPlace]
      exact hLexeme hLexemes hMember
  | semantic hLexemes hProgram hAnchor hPlace =>
      rw [Diagnostic.position, hPlace]
      exact hLexeme hLexemes hAnchor.mem

/-- The diagnostic of a text that is refused. -/
def Session.diagnostic? (session : Session) (source : String) : Option Diagnostic :=
  match session.parse source with
  | .error diagnostic => some diagnostic
  | .ok _ => none

theorem Session.diagnostic?_eq_some {session : Session} {source : String}
    {diagnostic : Diagnostic} :
    session.diagnostic? source = some diagnostic ↔ session.parse source = .error diagnostic := by
  rw [Session.diagnostic?]
  cases session.parse source with
  | ok checked => simp
  | error error => simp

/-- A text that names an unknown register on its second line. -/
def unknownRegisterSource : String := "qreg q[2];\nreset r;"

end QuantumCircuit
