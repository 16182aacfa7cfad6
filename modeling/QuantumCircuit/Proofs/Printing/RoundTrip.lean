import QuantumCircuit.Proofs.Grammar.Reading
import QuantumCircuit.Proofs.Printing.Nesting

/-!
# Printing and reading

Reading the text of a legible program gives the program again, but for its places.
-/

namespace QuantumCircuit

open Grammar

/-! ### Legibility can be computed -/

theorem isWord_iff {word : String} :
    IsWord word ↔
      (word.toList.head?.any Char.isAlpha && word.toList.all isWordChar) = true := by
  rw [Bool.and_eq_true, List.all_eq_true]
  constructor
  · rintro ⟨⟨first, rest, hWord, hAlpha⟩, hChars⟩
    exact ⟨by simp [hWord, hAlpha], hChars⟩
  · rintro ⟨hHead, hChars⟩
    cases hWord : word.toList with
    | nil => simp [hWord] at hHead
    | cons first rest => exact ⟨⟨first, rest, hWord, by simpa [hWord] using hHead⟩, hChars⟩

instance (word : String) : Decidable (IsWord word) := decidable_of_iff _ isWord_iff.symm

instance (name : String) : Decidable (IsName name) := decidable_of_iff _ isName_iff.symm

instance decidableExprLegible : (e : Expr) → Decidable e.Legible
  | .number value =>
    inferInstanceAs (Decidable (value.isFinite = true ∧ value.isNegative = false))
  | .pi => inferInstanceAs (Decidable True)
  | .identifier name => inferInstanceAs (Decidable (IsName name))
  | .neg operand => decidableExprLegible operand
  | .binary _ left right =>
    @instDecidableAnd _ _ (decidableExprLegible left) (decidableExprLegible right)
  | .call _ argument => decidableExprLegible argument

instance (header : GateHeader) : Decidable header.Legible :=
  decidable_of_iff (IsName header.name ∧ (∀ name ∈ header.params, IsName name) ∧
      (∀ name ∈ header.qubits, IsName name) ∧ header.qubits ≠ [])
    ⟨fun ⟨h₁, h₂, h₃, h₄⟩ => ⟨h₁, h₂, h₃, h₄⟩, fun ⟨h₁, h₂, h₃, h₄⟩ => ⟨h₁, h₂, h₃, h₄⟩⟩

instance (call : GateCall) : Decidable call.Legible :=
  decidable_of_iff (IsName call.name ∧ (∀ e ∈ call.params, e.Legible) ∧
      (∀ reference ∈ call.qubits, IsName reference.register) ∧ call.qubits ≠ [])
    ⟨fun ⟨h₁, h₂, h₃, h₄⟩ => ⟨h₁, h₂, h₃, h₄⟩, fun ⟨h₁, h₂, h₃, h₄⟩ => ⟨h₁, h₂, h₃, h₄⟩⟩

instance decidableStatementLegible : (statement : Statement) → Decidable statement.Legible
  | .version _ _ _ => inferInstanceAs (Decidable True)
  | .inclusion path _ =>
    -- The instance that is found by itself goes through all characters there are.
    decidable_of_iff (path.toList.all isStringChar = true) List.all_eq_true
  | .register _ name _ _ => inferInstanceAs (Decidable (IsName name))
  | .gate definition =>
    inferInstanceAs
      (Decidable (definition.header.Legible ∧ ∀ call ∈ definition.body, call.Legible))
  | .opaqueGate header _ => inferInstanceAs (Decidable header.Legible)
  | .call application => inferInstanceAs (Decidable application.Legible)
  | .measure source target _ =>
    inferInstanceAs (Decidable (IsName source.register ∧ IsName target.register))
  | .reset target _ => inferInstanceAs (Decidable (IsName target.register))
  | .barrier targets _ =>
    inferInstanceAs (Decidable (targets ≠ [] ∧ ∀ target ∈ targets, IsName target.register))
  | .condition name _ application _ =>
    inferInstanceAs (Decidable (IsName name ∧ application.Legible))

instance (program : Program) : Decidable program.Legible :=
  inferInstanceAs (Decidable (∀ s ∈ program.statements, s.Legible))

/-! ### The round trip -/

/-- The lexemes of the text of a legible program. -/
theorem Program.tokenize_text {program : Program} (h : program.Legible) :
    ∃ lexemes, tokenize program.text = .ok lexemes ∧
      (properLexemes lexemes).map Lexeme.mark = program.marks := by
  have hScan := Program.scan_text h
  obtain ⟨lexemes, hLexemes, hMarks⟩ := tokenize_of_scan hScan
  exact ⟨lexemes, hLexemes, properLexemes_marks hMarks (scan_proper hScan)⟩

/-- A text whose lexemes form a program is read as this program. -/
theorem Program.parse_of_isProgram {mode : Mode} {source : String} {lexemes : List Lexeme}
    {program : Program} (hLexemes : tokenize source = .ok lexemes)
    (h : IsProgram IsExpression (properLexemes lexemes) program.statements)
    (hAllows : ∀ s ∈ program.statements, mode.Allows s) :
    Program.parse mode source = .ok program := by
  rw [Program.parse, lexemesOf, hLexemes]
  show (Program.ofLexemes mode lexemes).mapError Diagnostic.syntactic = .ok program
  rw [Program.ofLexemes_eq_ok.mpr ⟨h, hAllows⟩]
  rfl

theorem Grammar.Mode.allows_erased (mode : Mode) (statement : Statement) :
    mode.Allows statement.erased ↔ mode.Allows statement := by
  cases statement <;> rfl

/-- The lexemes of the text of a legible program are derived as the program, but for its places,
and as statements of the same kinds. -/
theorem Program.isProgram_of_tokenize {mode : Mode} {program : Program} (h : program.Legible)
    (hAllows : ∀ s ∈ program.statements, mode.Allows s) :
    ∃ lexemes found, tokenize program.text = .ok lexemes ∧
      IsProgram IsPrinted (properLexemes lexemes) found ∧
      found.map Statement.erased = program.statements.map Statement.erased ∧
      ∀ s ∈ found, mode.Allows s := by
  obtain ⟨lexemes, hLexemes, hMarks⟩ := Program.tokenize_text h
  obtain ⟨⟨found⟩, hFound, hErased⟩ := Program.isProgram_of_marks h hMarks
  have hStatements : found.map Statement.erased = program.statements.map Statement.erased :=
    congrArg Program.statements hErased
  refine ⟨lexemes, found, hLexemes, hFound, hStatements, fun s hs => ?_⟩
  have hMember : s.erased ∈ program.statements.map Statement.erased := by
    rw [← hStatements]
    exact List.mem_map_of_mem hs
  obtain ⟨other, hOther, hSame⟩ := List.mem_map.mp hMember
  rw [← Mode.allows_erased, ← hSame, Mode.allows_erased]
  exact hAllows other hOther

/-- Programs that differ in their places only have the same parameters. -/
theorem Program.parameters_eq_of_erased_eq {first second : Program}
    (h : second.erased = first.erased) : second.parameters = first.parameters := by
  rw [← Program.parameters_erased second, h, Program.parameters_erased]

/-- A legible program whose parameters stay within the limits can be read from its text. -/
theorem Program.read_text {mode : Mode} {program : Program} (h : program.Legible)
    (hReadable : ∀ e ∈ program.parameters, e.Readable)
    (hAllows : ∀ s ∈ program.statements, mode.Allows s) :
    ∃ found, Program.parse mode program.text = .ok found ∧ found.erased = program.erased := by
  obtain ⟨lexemes, found, hLexemes, hFound, hErased, hFoundAllows⟩ :=
    Program.isProgram_of_tokenize h hAllows
  have hSame : Program.erased ⟨found⟩ = program.erased := by rw [erased, erased, hErased]
  have hFoundReadable : ∀ e ∈ Program.parameters ⟨found⟩, e.Readable := by
    rwa [Program.parameters_eq_of_erased_eq hSame]
  rw [Program.forall_parameters] at hFoundReadable
  have hProgram := isProgram_of_readable hFound hFoundReadable
  exact ⟨⟨found⟩, Program.parse_of_isProgram hLexemes hProgram hFoundAllows, hSame⟩

/-- A legible program with a parameter beyond the limits is refused for its nesting. -/
theorem Program.refuse_text {mode : Mode} {program : Program} (h : program.Legible)
    (hDeep : ¬ ∀ e ∈ program.parameters, e.Readable)
    (hAllows : ∀ s ∈ program.statements, mode.Allows s) :
    ∃ error, Program.parse mode program.text = .error (.syntactic error) ∧ error.IsNesting := by
  obtain ⟨lexemes, found, hLexemes, hFound, hErased, hFoundAllows⟩ :=
    Program.isProgram_of_tokenize h hAllows
  have hSame : Program.erased ⟨found⟩ = program.erased := by rw [erased, erased, hErased]
  have hFoundDeep : ¬ ∀ e ∈ Program.parameters ⟨found⟩, e.Readable := by
    rwa [Program.parameters_eq_of_erased_eq hSame]
  rw [Program.forall_parameters] at hFoundDeep
  obtain ⟨rest, hRefused⟩ := statements_refused hFound hFoundAllows hFoundDeep
  refine ⟨(tooDeep rest).report (finalLexeme lexemes), ?_, rfl⟩
  rw [Program.parse, lexemesOf, hLexemes]
  show (Program.ofLexemes mode lexemes).mapError Diagnostic.syntactic = _
  rw [Program.ofLexemes, readAll, hRefused]
  rfl

/-- **Round trip.**  Whatever its statements are and whether it is valid or not, a legible program
with parameters of height 128 at most is read from its text, but for its places. -/
theorem Program.parse_text {program : Program} (h : program.Legible)
    (hHeight : ∀ e ∈ program.parameters, e.height ≤ 128) :
    ∃ found, Program.parse .circuit program.text = .ok found ∧
      found.erased = program.erased :=
  Program.read_text h (fun e he => Expr.readable_of_height (hHeight e he))
    fun s _ => Mode.circuit_allows s

/-- A program with a statement of every kind. -/
def Program.everyKind : Program :=
  ⟨[.version 2 0 .start,
    .inclusion "qelib1.inc" .start,
    .opaqueGate ⟨"U", ["theta", "phi", "lambda"], ["q"]⟩ .start,
    .gate ⟨⟨"turn", ["theta"], ["a", "b"]⟩,
      [⟨"U", [.neg (.neg (.identifier "theta")), .pi, .number .zero],
        [.whole "a"], .start⟩], .start⟩,
    .register .quantum "q" 2 .start,
    .register .classical "c" 1 .start,
    .call ⟨"turn", [.binary .pow (.neg .pi) (.binary .pow .pi (.call .sin .pi))],
      [.element "q" 0, .element "q" 1], .start⟩,
    .measure (.element "q" 0) (.element "c" 0) .start,
    .reset (.whole "q") .start,
    .barrier [.element "q" 1, .element "q" 0] .start,
    .condition "c" 1 ⟨"turn", [.binary .sub .pi (.binary .sub .pi .pi)], [.whole "q"], .start⟩
      .start]⟩

theorem Program.parse_text_everyKind :
    (Program.everyKind.Legible ∧ ∀ e ∈ Program.everyKind.parameters, e.height ≤ 128) ∧
      ∃ found, Program.parse .circuit Program.everyKind.text = .ok found ∧
        found.erased = Program.everyKind.erased := by
  have hLegible : Program.everyKind.Legible := by decide
  have hHeight : ∀ e ∈ Program.everyKind.parameters, e.height ≤ 128 := by decide
  exact ⟨⟨hLegible, hHeight⟩, Program.parse_text hLegible hHeight⟩

end QuantumCircuit
