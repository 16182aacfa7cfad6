import QuantumCircuit.Proofs.Grammar.Anchors
import QuantumCircuit.Proofs.Grammar.Reading

/-!
# The texts of a library among those of circuits

The two modes read declarations of gates alike, and a library holds nothing else.  So the readings
of an input in both modes go side by side up to the first lexeme at which a statement is expected
and no declaration begins; there a library is refused, and a circuit is read on.

* `statement_of_begins`, `statement_library_refuses` : one statement.
* `statements_sideBySide` : all statements.
* `Program.ofLexemes_library` : what is read as a library, and where it is refused.
-/

namespace QuantumCircuit

open Grammar

/-- The token begins the declaration of a gate. -/
def Token.BeginsDeclaration (token : Token) : Prop :=
  token = .keyword .gate ∨ token = .keyword .opaqueGate

/-- The statement is the declaration of a gate. -/
def Statement.DeclaresGate : Statement → Prop
  | .gate _ | .opaqueGate _ _ => True
  | _ => False

namespace Grammar

variable {lexemes rest : List Lexeme} {lexeme : Lexeme}

theorem Mode.library_allows (s : Statement) : Mode.library.Allows s ↔ s.DeclaresGate := by
  cases s <;> simp [Mode.Allows, Statement.DeclaresGate]

theorem firstToken_beginsDeclaration (s : Statement) :
    (firstToken s).BeginsDeclaration ↔ s.DeclaresGate := by
  cases s with
  | register kind => cases kind <;> simp [firstToken, registerWord, Token.BeginsDeclaration,
      Statement.DeclaresGate]
  | _ => simp [firstToken, Token.BeginsDeclaration, Statement.DeclaresGate]

/-! ### One statement -/

/-- Where a declaration begins, both modes read on in the same way. -/
theorem statement_of_begins (h : lexeme.token.BeginsDeclaration) (first second : Mode) :
    statement first (lexeme :: rest) = statement second (lexeme :: rest) := by
  rcases h with h | h <;> simp only [statement, h, statementFor?]

/-- Where no declaration begins, a library is refused. -/
theorem statement_library_refuses (h : ¬ lexeme.token.BeginsDeclaration) :
    statement .library (lexeme :: rest) = .error ⟨declarationStart, lexeme :: rest⟩ := by
  have hNone : statementFor? .library lexeme.token = none := by
    unfold statementFor?
    split
    all_goals simp_all [Token.BeginsDeclaration]
  simp only [statement, hNone, startOf]

/-! ### All statements -/

/-- The reading of a library stands behind declarations, in front of a lexeme with which none
begins. -/
structure StandsBefore (lexemes before : List Lexeme) (found : List Statement) (next : Lexeme)
    (rest : List Lexeme) : Prop where
  split : lexemes = before ++ next :: rest
  program : IsProgram IsExpression before found
  declarations : ∀ s ∈ found, s.DeclaresGate
  other : ¬ next.token.BeginsDeclaration

/-- **Side by side.**  Both modes read an input alike, or up to a lexeme with which no declaration
begins. -/
theorem statements_sideBySide (lexemes : List Lexeme) :
    statements .library lexemes = statements .circuit lexemes ∨
      ∃ before found next rest, StandsBefore lexemes before found next rest := by
  induction hLength : lexemes.length using Nat.strong_induction_on generalizing lexemes with
  | _ length ih =>
  cases lexemes with
  | nil => exact .inl (by simp only [statements, repeated_done _ List.isEmpty_nil])
  | cons first others =>
      by_cases hBegins : first.token.BeginsDeclaration
      · have hSame : statement .library (first :: others) = statement .circuit (first :: others) :=
          statement_of_begins hBegins .library .circuit
        cases hRead : statement .library (first :: others) with
        | error mismatch =>
            left
            rw [statements, statements, repeated_error _ rfl hRead,
              repeated_error _ rfl (hSame.symm.trans hRead)]
        | ok pair =>
            obtain ⟨s, behind⟩ := pair
            have hShorter := statement_shortens .library _ _ _ hRead
            obtain ⟨front, hFront, hStatement, hAllows⟩ := statement_sound hRead
            rcases ih behind.length (by omega) behind rfl with hAlike |
              ⟨before, found, next, rest, hStands⟩
            · left
              rw [statements, statements, repeated_eq _ rfl, repeated_eq _ rfl, bind_of_ok hRead,
                bind_of_ok (hSame.symm.trans hRead)]
              exact bind_congr_at hAlike
            · right
              refine ⟨front ++ before, s :: found, next, rest, ?_, ?_, ?_, hStands.other⟩
              · rw [hFront, hStands.split, List.append_assoc]
              · exact .cons hStatement hStands.program
              · rw [List.forall_mem_cons]
                exact ⟨(Mode.library_allows s).mp hAllows, hStands.declarations⟩
      · exact .inr ⟨[], [], first, others, rfl, .nil, List.forall_mem_nil _, hBegins⟩

variable {before : List Lexeme} {found : List Statement} {next : Lexeme}

theorem StandsBefore.allows (h : StandsBefore lexemes before found next rest) (mode : Mode) :
    ∀ s ∈ found, mode.Allows s := by
  intro s hMember
  cases mode with
  | library => exact (Mode.library_allows s).mpr (h.declarations s hMember)
  | circuit => exact Mode.circuit_allows s

/-- Both modes read the declarations and go on at the lexeme behind them. -/
theorem StandsBefore.statements_eq (h : StandsBefore lexemes before found next rest)
    (mode : Mode) :
    statements mode lexemes = (do
      let more ← statements mode
      return found ++ more : Reader (List Statement)) (next :: rest) := by
  rw [h.split]
  exact statements_append h.program (h.allows mode) (next :: rest)

/-- A library is refused at the lexeme behind the declarations. -/
theorem StandsBefore.library_refused (h : StandsBefore lexemes before found next rest) :
    statements .library lexemes = .error ⟨declarationStart, next :: rest⟩ := by
  have hNext : statements .library (next :: rest) = .error ⟨declarationStart, next :: rest⟩ :=
    repeated_error _ rfl (statement_library_refuses h.other)
  rw [h.statements_eq .library, bind_of_error hNext]

/-- What a circuit has behind the declarations begins with a statement of another kind. -/
theorem StandsBefore.circuit_goesOn {program : List Statement}
    (h : StandsBefore lexemes before found next rest)
    (hRead : statements .circuit lexemes = .ok (program, [])) :
    ∃ s more, program = found ++ s :: more ∧ ¬ s.DeclaresGate ∧ s.position = next.position := by
  rw [h.statements_eq .circuit, bind_eq_ok] at hRead
  obtain ⟨others, behind, hOthers, hPure⟩ := hRead
  rw [pure_eq_ok] at hPure
  obtain ⟨rfl, rfl⟩ := hPure
  obtain ⟨hProgram, -⟩ := statements_eq_ok.mp hOthers
  generalize hLexemes : next :: rest = lexemes at hProgram
  cases hProgram with
  | nil => cases hLexemes
  | @cons first more s others hStatement hMore =>
      obtain ⟨head, tail, rfl, hHead⟩ := isStatement_head hStatement
      obtain ⟨head', tail', hSame, hPosition⟩ := hStatement.exists_first
      cases hSame
      cases hLexemes
      refine ⟨s, others, rfl, fun hDeclares => h.other ?_, hPosition.symm⟩
      rw [hHead, firstToken_beginsDeclaration]
      exact hDeclares

end Grammar

/-! ### Inputs -/

variable {lexemes : List Lexeme}

/-- Lexemes that both modes read alike give the same answer in both. -/
theorem Program.ofLexemes_congr {first second : Mode}
    (h : Grammar.statements first (properLexemes lexemes) =
      Grammar.statements second (properLexemes lexemes)) :
    Program.ofLexemes first lexemes = Program.ofLexemes second lexemes := by
  simp only [Program.ofLexemes, readAll, h]

/-- The error is reported at `next`, the first lexeme of the first statement that is no declaration
of a gate; those in front of it are read in both modes. -/
structure SyntaxError.IsOther (error : SyntaxError) (lexemes before : List Lexeme)
    (found : List Statement) (next : Lexeme) (rest : List Lexeme) : Prop where
  input : properLexemes lexemes = before ++ next :: rest
  /-- In both modes the declarations in front are read as on their own. -/
  declarations : ∀ mode, Program.ofLexemes mode before = .ok ⟨found⟩
  onlyGates : ∀ s ∈ found, s.DeclaresGate
  /-- In both modes the statements that follow are read from `next` on. -/
  onward : ∀ mode, statements mode (properLexemes lexemes) = (do
    let more ← statements mode
    return found ++ more : Reader (List Statement)) (next :: rest)
  other : ¬ next.token.BeginsDeclaration
  error : error = ⟨next.position, ["`gate`", "`opaque`"], next.found⟩
  /-- A circuit has a statement of another kind there. -/
  circuit : ∀ program, Program.ofLexemes .circuit lexemes = .ok program →
    ∃ s more, program.statements = found ++ s :: more ∧ ¬ s.DeclaresGate ∧
      s.position = next.position

/-- **Modes.**  An input is read as a library exactly if it is read as a circuit that declares gates
and nothing else.  What refuses it as a library refuses it as a circuit in the same way, or is the
first lexeme of the first statement that is no declaration of a gate. -/
theorem Program.ofLexemes_library (lexemes : List Lexeme) :
    (∀ program, Program.ofLexemes .library lexemes = .ok program ↔
      Program.ofLexemes .circuit lexemes = .ok program ∧
        ∀ s ∈ program.statements, s.DeclaresGate) ∧
    ∀ error, Program.ofLexemes .library lexemes = .error error →
      Program.ofLexemes .circuit lexemes = .error error ∨
        ∃ before found next rest, error.IsOther lexemes before found next rest := by
  constructor
  · intro program
    simp only [Program.ofLexemes_eq_ok, Mode.library_allows, Mode.circuit_allows, implies_true,
      and_true]
  · intro error hError
    rcases statements_sideBySide (properLexemes lexemes) with hAlike |
      ⟨before, found, next, rest, hStands⟩
    · left
      rw [← Program.ofLexemes_congr hAlike]
      exact hError
    · right
      obtain ⟨mismatch, hRead, rfl⟩ := Program.ofLexemes_eq_error hError
      rw [hStands.library_refused] at hRead
      cases hRead
      have hBefore : ∀ lexeme ∈ before, lexeme.token ≠ .endOfInput := fun lexeme hMember =>
        token_ne_end_of_mem_proper (hStands.split ▸ List.mem_append_left _ hMember)
      refine ⟨before, found, next, rest, hStands.split, fun mode => ?_, hStands.declarations,
        hStands.statements_eq, hStands.other, rfl, fun program hProgram => ?_⟩
      · rw [Program.ofLexemes_eq_ok, properLexemes_of_forall hBefore]
        exact ⟨hStands.program, hStands.allows mode⟩
      · rw [Program.ofLexemes_eq_ok, ← statements_eq_ok] at hProgram
        exact hStands.circuit_goesOn hProgram

/-- The lexemes of `opaque turn q;`. -/
def turnDeclaration : List Lexeme :=
  [.keyword .opaqueGate, .identifier "turn", .identifier "q", .symbol .semicolon].map Token.lexeme

/-- The lexemes of `opaque turn q; reset q;`. -/
def turnThenReset : List Lexeme :=
  turnDeclaration ++
    [.keyword .reset, .identifier "q", .symbol .semicolon].map Token.lexeme

theorem Program.ofLexemes_library_reset :
    Program.ofLexemes .library turnDeclaration =
        .ok ⟨[.opaqueGate ⟨"turn", [], ["q"]⟩ .start]⟩ ∧
      Program.ofLexemes .library turnThenReset =
        .error ⟨.start, ["`gate`", "`opaque`"], "`reset`"⟩ ∧
      Program.ofLexemes .circuit turnThenReset =
        .ok ⟨[.opaqueGate ⟨"turn", [], ["q"]⟩ .start, .reset ⟨"q", none, .start⟩ .start]⟩ ∧
      ∃ before found next rest, (⟨.start, ["`gate`", "`opaque`"], "`reset`"⟩ : SyntaxError).IsOther
        turnThenReset before found next rest := by
  have hTurn : IsStatement IsExpression turnDeclaration
      (.opaqueGate ⟨"turn", [], ["q"]⟩ .start) :=
    .opaqueGate rfl (.mk rfl .absent (.one (.mk rfl))) rfl
  have hReset : IsStatement IsExpression
      ([.keyword .reset, .identifier "q", .symbol .semicolon].map Token.lexeme)
      (.reset ⟨"q", none, .start⟩ .start) :=
    .reset rfl (.whole rfl) rfl
  have hDeclared : Program.ofLexemes .circuit turnDeclaration = .ok ⟨[_]⟩ :=
    Program.ofLexemes_eq_ok.mpr ⟨.cons hTurn .nil, fun s _ => Mode.circuit_allows s⟩
  have hCircuit : Program.ofLexemes .circuit turnThenReset = .ok ⟨[_, _]⟩ :=
    Program.ofLexemes_eq_ok.mpr
      ⟨.cons hTurn (.cons hReset .nil), fun s _ => Mode.circuit_allows s⟩
  have hStands : StandsBefore (properLexemes turnThenReset) turnDeclaration
      [.opaqueGate ⟨"turn", [], ["q"]⟩ .start] (Token.lexeme (.keyword .reset))
      ([.identifier "q", .symbol .semicolon].map Token.lexeme) :=
    ⟨rfl, .cons hTurn .nil, by simp [Statement.DeclaresGate],
      by simp [Token.BeginsDeclaration, Token.lexeme]⟩
  have hRefused : Program.ofLexemes .library turnThenReset =
      .error ⟨.start, ["`gate`", "`opaque`"], "`reset`"⟩ := by
    rw [Program.ofLexemes, readAll, hStands.library_refused]
    rfl
  refine ⟨((Program.ofLexemes_library turnDeclaration).1 _).mpr
    ⟨hDeclared, hStands.declarations⟩, hRefused, hCircuit, ?_⟩
  rcases (Program.ofLexemes_library turnThenReset).2 _ hRefused with hAlike | hOther
  · rw [hCircuit] at hAlike
    cases hAlike
  · exact hOther

end QuantumCircuit
