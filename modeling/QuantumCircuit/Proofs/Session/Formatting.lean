import QuantumCircuit.Proofs.Library.Load
import QuantumCircuit.Session

/-!
# Formatting accepted programs

A session that accepts a text can be given the text of the program instead.  It then finds the
same program but for its places, declares the same names, and writes the same text once more.

Two kinds of accepted programs are exceptions.  A program without statements has the empty text,
and a session takes the empty text for a missing one.  The printer puts a negation of a negation
in parentheses, which the source need not have done, so that the printed parameter can nest more
deeply than the source and exceed the limit.

* `Session.parse_text_accepted_iff` : which texts are accepted.
* `Session.parse_formatted` : the text of an accepted program.
-/

namespace QuantumCircuit

open Grammar

/-! ### Texts without places -/

@[simp]
theorem RegisterRef.text_erased (reference : RegisterRef) :
    reference.erased.text = reference.text := rfl

@[simp]
theorem GateCall.text_erased (call : GateCall) : call.erased.text = call.text := by
  simp [GateCall.text, GateCall.erased, Function.comp_def]

theorem Statement.lines_erased (statement : Statement) :
    statement.erased.lines = statement.lines := by
  cases statement with
  | gate definition =>
      simp [Statement.erased, Statement.lines, GateDefinition.lines, GateDefinition.erased,
        Function.comp_def]
  | _ => simp [Statement.erased, Statement.lines, Function.comp_def]

/-- The text of a program does not show its places. -/
theorem Program.text_erased (program : Program) : program.erased.text = program.text := by
  simp only [Program.text, Program.erased, List.flatMap_map, Statement.lines_erased]

theorem Program.text_eq_of_erased_eq {first second : Program}
    (h : second.erased = first.erased) : second.text = first.text := by
  rw [← Program.text_erased second, h, Program.text_erased]

/-! ### Empty texts -/

theorem Statement.lines_ne_nil (statement : Statement) : statement.lines ≠ [] := by
  cases statement <;> simp [Statement.lines, GateDefinition.lines]

/-- Only a program without statements has the empty text. -/
theorem Program.text_isEmpty (program : Program) : program.text.isEmpty = program.isEmpty := by
  obtain ⟨statements⟩ := program
  cases statements with
  | nil => rfl
  | cons first others =>
      have hLine : ∃ line rest, (first :: others).flatMap Statement.lines = line :: rest := by
        have hSome := List.exists_cons_of_ne_nil (Statement.lines_ne_nil first)
        obtain ⟨line, rest, hLines⟩ := hSome
        exact ⟨line, rest ++ others.flatMap Statement.lines, by simp [hLines]⟩
      obtain ⟨line, rest, hLines⟩ := hLine
      have hText : Program.text ⟨first :: others⟩ ≠ "" := by
        intro hEmpty
        have hChars := congrArg String.toList hEmpty
        simp [Program.text, hLines, String.toList_join] at hChars
      simp [Program.isEmpty, hText]

/-! ### Sessions -/

namespace Session

/-- The table of a session that was started is that of a loaded library. -/
theorem librarySymbols_isLoaded {options : Options} {session : Session}
    (hStart : Session.start options = .ok session) {table : SymbolTable}
    (hTable : session.librarySymbols = some table) : table.IsLoaded := by
  rw [start] at hStart
  split at hStart
  · cases hLoad : Library.load standardText with
    | error fault => simp [hLoad] at hStart
    | ok library =>
        simp only [hLoad, Except.ok.injEq] at hStart
        subst hStart
        simp only [librarySymbols, Option.map_some, Option.some.injEq] at hTable
        exact ⟨standardText, library, hLoad, hTable⟩
  · cases hStart
    cases hTable

/-- What accepting a text amounts to. -/
theorem parse_eq_ok {session : Session} {source : String} {checked : CheckedProgram} :
    session.parse source = .ok checked ↔
      source.isEmpty = false ∧ Program.parse .circuit source = .ok checked.program ∧
        checked.program.validate session.librarySymbols = .ok checked.symbols := by
  rw [Session.parse]
  split
  · rename_i hEmpty
    simp [hEmpty]
  · rename_i hSome
    simp only [except_bind_eq_ok, except_pure_eq_ok, hSome, true_and]
    constructor
    · rintro ⟨program, hParse, symbols, hSymbols, rfl⟩
      exact ⟨hParse, hSymbols⟩
    · rintro ⟨hParse, hSymbols⟩
      exact ⟨checked.program, hParse, checked.symbols, hSymbols, rfl⟩

theorem parse_of_parse_error {session : Session} {source : String} {fault : Diagnostic}
    (hSome : source.isEmpty = false) (h : Program.parse .circuit source = .error fault) :
    session.parse source = .error fault := by
  simp only [Session.parse, hSome, Bool.false_eq_true, if_false, h]
  rfl

theorem parse_of_isEmpty {session : Session} {source : String} (h : source.isEmpty = true) :
    session.parse source = .error (.missingArgument "circuit") := by
  simp only [Session.parse, h, if_true]

variable {options : Options} {session : Session} {source : String} {checked : CheckedProgram}

/-- The text of an accepted program is accepted if it is not empty and stays within the limits. -/
theorem parse_text_of_readable (hStart : Session.start options = .ok session)
    (h : session.parse source = .ok checked) (hSome : checked.program.isEmpty = false)
    (hCost : ∀ e ∈ checked.program.parameters, e.cost < nestingLimit) :
    ∃ again, session.parse checked.program.text = .ok again ∧
      again.program.erased = checked.program.erased ∧ again.symbols = checked.symbols ∧
        again.program.text = checked.program.text := by
  obtain ⟨-, hParse, hValid⟩ := parse_eq_ok.mp h
  have hHeight := Program.height_le_of_parse hParse
  have hReadable : ∀ e ∈ checked.program.parameters, e.Readable :=
    fun e he => ⟨hCost e he, hHeight e he⟩
  obtain ⟨found, hFound, hErased⟩ := Program.read_text (Program.legible_of_parse hParse) hReadable
    fun s _ => Mode.circuit_allows s
  -- validity and the table depend on the program without its places only
  have hLibrary : ∀ table, session.librarySymbols = some table → table.registers = [] :=
    fun table hTable => (librarySymbols_isLoaded hStart hTable).registers_eq_nil
  rw [Program.validate_eq_ok, Program.check_eq_ok hLibrary] at hValid
  obtain ⟨hLawful, hSymbols⟩ := hValid
  have hAgain : found.validate session.librarySymbols = .ok checked.symbols := by
    rw [Program.validate_eq_ok, Program.check_eq_ok hLibrary, hSymbols,
      declaredTable_of_erased_eq hErased]
    exact ⟨hLawful.of_erased_eq hErased, rfl⟩
  refine ⟨⟨found, checked.symbols⟩, ?_, hErased, rfl, Program.text_eq_of_erased_eq hErased⟩
  rw [parse_eq_ok, Program.text_isEmpty]
  exact ⟨hSome, hFound, hAgain⟩

/-- The text of an accepted program is refused for its nesting if it exceeds the limit. -/
theorem parse_text_of_deep (h : session.parse source = .ok checked)
    (hSome : checked.program.isEmpty = false)
    (hCost : ¬ ∀ e ∈ checked.program.parameters, e.cost < nestingLimit) :
    ∃ error, session.parse checked.program.text = .error (.syntactic error) ∧
      error.IsNesting := by
  obtain ⟨-, hParse, -⟩ := parse_eq_ok.mp h
  have hDeep : ¬ ∀ e ∈ checked.program.parameters, e.Readable := by
    intro hReadable
    exact hCost fun e he => (hReadable e he).cost
  obtain ⟨error, hError, hNesting⟩ := Program.refuse_text (Program.legible_of_parse hParse) hDeep
    fun s _ => Mode.circuit_allows s
  refine ⟨error, parse_of_parse_error ?_ hError, hNesting⟩
  rw [Program.text_isEmpty, hSome]

/-- The text of a program without statements is taken for a missing one. -/
theorem parse_text_of_isEmpty (h : checked.program.isEmpty = true) :
    session.parse checked.program.text = .error (.missingArgument "circuit") := by
  apply parse_of_isEmpty
  rw [Program.text_isEmpty, h]

/-- The text of an accepted program is accepted exactly if it is not empty and stays within the
limits. -/
theorem parse_text_accepted_iff (hStart : Session.start options = .ok session)
    (h : session.parse source = .ok checked) :
    (∃ again, session.parse checked.program.text = .ok again) ↔
      checked.program.isEmpty = false ∧
        ∀ e ∈ checked.program.parameters, e.cost < nestingLimit := by
  constructor
  · rintro ⟨again, hAgain⟩
    have hSome : checked.program.isEmpty = false := by
      by_contra hEmpty
      rw [Bool.not_eq_false] at hEmpty
      rw [parse_text_of_isEmpty hEmpty] at hAgain
      cases hAgain
    refine ⟨hSome, ?_⟩
    by_contra hCost
    obtain ⟨error, hError, -⟩ := parse_text_of_deep h hSome hCost
    rw [hError] at hAgain
    cases hAgain
  · rintro ⟨hSome, hCost⟩
    obtain ⟨again, hAgain, -⟩ := parse_text_of_readable hStart h hSome hCost
    exact ⟨again, hAgain⟩

/-- **Formatting.**  The text of an accepted program is accepted, gives the same program but for
its places, the same table and the same text, if the program has a statement and its parameters
are written with no more nesting than the limit allows.  The text of a program without statements
is empty and taken for a missing one. -/
theorem parse_formatted (hStart : Session.start options = .ok session)
    (h : session.parse source = .ok checked) :
    (checked.program.isEmpty = false →
      (∀ e ∈ checked.program.parameters, e.cost < nestingLimit) →
        ∃ again, session.parse checked.program.text = .ok again ∧
          again.program.erased = checked.program.erased ∧ again.symbols = checked.symbols ∧
            again.program.text = checked.program.text) ∧
      (checked.program.isEmpty = true →
        session.parse checked.program.text = .error (.missingArgument "circuit")) :=
  ⟨parse_text_of_readable hStart h, parse_text_of_isEmpty⟩

end Session

/-! ### Runs of minus signs -/

/-- The text of a circuit with a run of minus signs in its only parameter. -/
def signedSource (signs : Nat) : String :=
  "opaque g(a) b;\nqreg q[1];\ng(1-(1-(1-" ++ String.ofList (List.replicate signs '-') ++
    "1))) q[0];\n"

/-- The circuit of this text. -/
def signedProgram (signs : Nat) : Program :=
  let one : Expr := .number ⟨0x3FF0000000000000⟩
  ⟨[.opaqueGate ⟨"g", ["a"], ["b"]⟩ .unplaced,
    .register .quantum "q" 1 .unplaced,
    .call ⟨"g", [.binary .sub one (.binary .sub one (.binary .sub one (negated signs one)))],
      [.element "q" 0], .unplaced⟩]⟩

/-- Reading a text whose characters are known. -/
theorem Program.parse_of_toList {mode : Mode} {source : String} {chars : List Char}
    (h : source.toList = chars) :
    Program.parse mode source =
      match layOut 0 .start (pieces chars).2 (pieces chars).1 with
      | .ok lexemes => (Program.ofLexemes mode lexemes).mapError .syntactic
      | .error error => .error (.lexical error) := by
  subst h
  rw [Program.parse, lexemesOf, tokenize]
  dsimp only
  cases layOut 0 Position.start (pieces source.toList).2 (pieces source.toList).1 <;> rfl

theorem toList_signedSource (signs : Nat) :
    (signedSource signs).toList = "opaque g(a) b;\nqreg q[1];\ng(1-(1-(1-".toList ++
      (List.replicate signs '-' ++ "1))) q[0];\n".toList) := by
  -- a literal would be taken for the list of its characters, too
  unfold signedSource
  rw [String.toList_append, String.toList_append,
    @String.toList_ofList (List.replicate signs '-'), List.append_assoc]

/-- A session without a library accepts a text that is read as this circuit. -/
theorem Session.parse_signedSource {signs : Nat}
    (hRead : (Program.parse .circuit (signedSource signs)).toOption.map Program.erased =
      some (signedProgram signs))
    (hValid : (signedProgram signs).validate none =
      .ok (declaredTable (signedProgram signs).statements)) :
    ∃ checked, (Session.mk ⟨false⟩ none).parse (signedSource signs) = .ok checked ∧
      checked.program.erased = signedProgram signs := by
  obtain ⟨program, hProgram, hErased⟩ := Option.map_eq_some_iff.mp hRead
  have hParse : Program.parse .circuit (signedSource signs) = .ok program := by
    cases hResult : Program.parse .circuit (signedSource signs) with
    | error fault => simp [hResult, Except.toOption] at hProgram
    | ok found =>
        rw [hResult] at hProgram
        rw [Option.some.inj hProgram]
  have hLawful : program.Lawful none := by
    rw [← Program.lawful_erased, hErased]
    exact (Program.validate_none_eq_ok.mp hValid).1
  have hSome : (signedSource signs).isEmpty = false := by
    have hChars : (signedSource signs).toList ≠ [] := by
      rw [toList_signedSource]
      simp
    simpa using hChars
  refine ⟨⟨program, declaredTable program.statements⟩, ?_, hErased⟩
  rw [Session.parse_eq_ok]
  exact ⟨hSome, hParse, Program.validate_none_eq_ok.mpr ⟨hLawful, rfl⟩⟩

/-- The parameters of the circuit that is read from such a text. -/
theorem parameters_of_signedProgram {program : Program} {signs : Nat}
    (h : program.erased = signedProgram signs) :
    program.isEmpty = false ∧ program.parameters = (signedProgram signs).parameters := by
  constructor
  · have hLength := congrArg (fun other => other.statements.length) h
    simp [Program.erased, signedProgram] at hLength
    simp [Program.isEmpty, ← List.length_eq_zero_iff, hLength]
  · rw [← h, Program.parameters_erased]

/-- A short run of minus signs is written within the limit. -/
theorem Session.parse_formatted_signed :
    Session.start ⟨false⟩ = .ok ⟨⟨false⟩, none⟩ ∧
      ∃ checked, (Session.mk ⟨false⟩ none).parse (signedSource 2) = .ok checked ∧
        ∃ again, (Session.mk ⟨false⟩ none).parse checked.program.text = .ok again ∧
          again.program.erased = checked.program.erased ∧ again.symbols = checked.symbols ∧
            again.program.text = checked.program.text := by
  have hRead : (Program.parse .circuit (signedSource 2)).toOption.map Program.erased =
      some (signedProgram 2) := by
    rw [Program.parse_of_toList (toList_signedSource 2)]
    decide +kernel
  obtain ⟨checked, hChecked, hErased⟩ := Session.parse_signedSource hRead rfl
  obtain ⟨hSome, hParameters⟩ := parameters_of_signedProgram hErased
  have hStart : Session.start ⟨false⟩ = .ok ⟨⟨false⟩, none⟩ := rfl
  refine ⟨hStart, checked, hChecked, (Session.parse_formatted hStart hChecked).1 hSome ?_⟩
  rw [hParameters]
  decide +kernel

/-- A text of blanks and a long run of minus signs are accepted, but what is written for them is
refused. -/
theorem Session.parse_formatted_refused :
    Session.start ⟨false⟩ = .ok ⟨⟨false⟩, none⟩ ∧
      (∃ checked, (Session.mk ⟨false⟩ none).parse " " = .ok checked ∧
        (Session.mk ⟨false⟩ none).parse checked.program.text =
          .error (.missingArgument "circuit")) ∧
      ∃ checked, (Session.mk ⟨false⟩ none).parse (signedSource 252) = .ok checked ∧
        ∃ error, (Session.mk ⟨false⟩ none).parse checked.program.text =
          .error (.syntactic error) ∧ error.IsNesting := by
  refine ⟨rfl, ?_, ?_⟩
  · have hBlank : (Session.mk ⟨false⟩ none).parse " " = .ok ⟨⟨[]⟩, .empty⟩ := by
      rw [Session.parse_eq_ok]
      refine ⟨rfl, ?_, rfl⟩
      rw [Program.parse_of_toList rfl]
      decide +kernel
    exact ⟨_, hBlank, Session.parse_text_of_isEmpty rfl⟩
  · have hRead : (Program.parse .circuit (signedSource 252)).toOption.map Program.erased =
        some (signedProgram 252) := by
      rw [Program.parse_of_toList (toList_signedSource 252)]
      decide +kernel
    have hValid : (signedProgram 252).validate none =
        .ok (declaredTable (signedProgram 252).statements) := by
      decide +kernel
    obtain ⟨checked, hChecked, hErased⟩ := Session.parse_signedSource hRead hValid
    obtain ⟨hSome, hParameters⟩ := parameters_of_signedProgram hErased
    refine ⟨checked, hChecked, Session.parse_text_of_deep hChecked hSome ?_⟩
    rw [hParameters]
    decide +kernel

end QuantumCircuit
