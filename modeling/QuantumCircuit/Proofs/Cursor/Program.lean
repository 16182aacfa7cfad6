import QuantumCircuit.Proofs.Cursor.Statement
import QuantumCircuit.Proofs.Grammar.Reading

/-!
# A cursor in a program

The cursor starts in front of the first lexeme.  Lexemes that do not end with an end of the input
get one, which bounds every run: the cursor never gets past an end, and each statement takes it
further on.

* `Cursor.program` : the steps of a program.
* `statement_advances` : a statement takes at least one lexeme.
* `program_follows`, `program_ends` : a run of the steps ends, and never astray.
* `program_isSafe` : it gives what is read, whatever the lexemes are, and what stands behind the
  first end does not matter.
-/

namespace QuantumCircuit

open Grammar (Mode Mismatch)

variable {mode : Mode} {lexemes : List Lexeme}

namespace Cursor

/-- Takes statements up to an end of the input. -/
def program (mode : Mode) : Steps Program := do
  let statements ← (statement mode).loop Lexeme.isEnd []
  return ⟨statements⟩

/-- What lexemes lack to end with an end of the input. -/
def closing (lexemes : List Lexeme) : List Lexeme :=
  match lexemes.getLast? with
  | some last =>
    if last.isEnd then []
    else [⟨.endOfInput, "", last.stop, last.stop, last.endPosition⟩]
  | none => [⟨.endOfInput, "", 0, 0, .start⟩]

/-- The cursor in front of all the lexemes, outside of expressions. -/
def start (lexemes : List Lexeme) : Cursor := ⟨lexemes ++ closing lexemes, 0, 0⟩

/-- The cursor stands at a lexeme, and the last of the lexemes is an end of the input. -/
structure InRange (cursor : Cursor) : Prop where
  index_lt : cursor.index < cursor.lexemes.length
  closed : ∃ front last, cursor.lexemes = front ++ [last] ∧ last.isEnd = true

variable {cursor : Cursor} {rest : List Lexeme} {final : Lexeme}

/-- In range, a cursor faces the first end of the input from its place on. -/
theorem InRange.faces (h : cursor.InRange) : ∃ rest final, cursor.Faces rest final := by
  obtain ⟨front, last, hLexemes, hLast⟩ := h.closed
  have hIndex := h.index_lt
  rw [hLexemes, List.length_append, List.length_singleton] at hIndex
  have hMember : last ∈ cursor.lexemes.drop cursor.index := by
    rw [hLexemes, List.drop_append_of_le_length (by omega)]
    exact List.mem_append_right _ List.mem_cons_self
  have hFound : ((cursor.lexemes.drop cursor.index).find? Lexeme.isEnd).isSome :=
    List.find?_isSome.mpr ⟨last, hMember, hLast⟩
  obtain ⟨final, hFinal⟩ := Option.isSome_iff_exists.mp hFound
  obtain ⟨hEnd, proper, others, hAhead, hProper⟩ := List.find?_eq_some_iff_append.mp hFinal
  exact ⟨proper, final, ⟨others, hAhead⟩,
    fun lexeme hLexeme => by simpa using hProper lexeme hLexeme, hEnd⟩

/-- Passing lexemes that it faces, a cursor stays in range. -/
theorem InRange.passing {front behind : List Lexeme} (h : cursor.InRange)
    (hFaces : cursor.Faces (front ++ behind) final) : (cursor.passing front.length).InRange :=
  ⟨Nat.lt_of_le_of_lt (Nat.le_add_right _ _) hFaces.passing.length_lt, h.closed⟩

/-- From the start, the last lexeme is an end of the input. -/
theorem start_inRange (lexemes : List Lexeme) : (start lexemes).InRange := by
  unfold start closing
  cases hLast : lexemes.getLast? with
  | none => exact ⟨by simp, lexemes, _, rfl, rfl⟩
  | some last =>
      obtain ⟨front, rfl⟩ := List.getLast?_eq_some_iff.mp hLast
      by_cases hEnd : last.isEnd = true
      · simp only [if_pos hEnd, List.append_nil]
        exact ⟨by simp, front, last, rfl, hEnd⟩
      · simp only [if_neg hEnd]
        exact ⟨by simp, _, _, rfl, rfl⟩

/-- What is missing at the end is the lexeme at which the lexemes end. -/
theorem closing_eq (h : ∀ lexeme ∈ lexemes, lexeme.isEnd = false) :
    closing lexemes = [finalLexeme lexemes] := by
  have hFind : lexemes.find? Lexeme.isEnd = none :=
    List.find?_eq_none.mpr fun lexeme hMember => by simp [h lexeme hMember]
  unfold closing finalLexeme
  rw [hFind]
  cases hLast : lexemes.getLast? with
  | none => rfl
  | some last =>
      simp only [h last (List.mem_of_getLast? hLast), if_neg Bool.false_ne_true]

/-- The cursor at the start faces the lexemes in front of the first end. -/
theorem start_faces (lexemes : List Lexeme) :
    (start lexemes).Faces (properLexemes lexemes) (finalLexeme lexemes) := by
  obtain ⟨hEnd, after, hLexemes⟩ := append_finalLexeme lexemes
  have hProper : ∀ lexeme ∈ properLexemes lexemes, lexeme.isEnd = false := fun lexeme hMember =>
    decide_eq_false (token_ne_end_of_mem_proper hMember)
  refine ⟨?_, hProper, decide_eq_true hEnd⟩
  show ∃ others, lexemes ++ closing lexemes = _
  rcases List.eq_nil_or_concat after with rfl | ⟨others, last, rfl⟩
  · -- no end among the lexemes: the end of the input is the one that is missing
    have hAll : lexemes = properLexemes lexemes := List.append_cancel_right hLexemes
    have hNone : ∀ lexeme ∈ lexemes, lexeme.isEnd = false := by rwa [← hAll] at hProper
    exact ⟨[], by rw [closing_eq hNone, hLexemes]⟩
  · rw [List.concat_eq_append, ← List.cons_append, ← List.append_assoc] at hLexemes
    have hFront := (List.append_inj' hLexemes rfl).1
    exact ⟨others ++ closing lexemes, by nth_rewrite 1 [hFront]; simp⟩

end Cursor

/-! ### Runs -/

section Runs

variable {cursor after : Cursor} {α : Type}

/-- The steps end in range with a value, or refuse a lexeme. -/
inductive Steps.Ends (steps : Steps α) (cursor : Cursor) : Except SyntaxError α → Prop
  | value {value : α} {after : Cursor} (h : steps.Returns cursor value after)
      (hRange : after.InRange) : steps.Ends cursor (.ok value)
  | error {error : SyntaxError} (h : steps.Halts cursor (.refused error)) :
      steps.Ends cursor (.error error)

theorem Steps.Returns.unique {steps : Steps α} {first second : α} {cursor after other : Cursor}
    (h : steps.Returns cursor first after) (hOther : steps.Returns cursor second other) :
    first = second ∧ after = other := by
  have hSame := h.symm.trans hOther
  cases hSame
  exact ⟨rfl, rfl⟩

/-- What steps that follow a reader return is what the reader takes from what the cursor faces. -/
theorem Follows.of_returns {depth : Nat} {steps : Steps α} {reader : Grammar.Reader α} {value : α}
    {rest : List Lexeme} {final : Lexeme} (h : Follows depth steps reader)
    (hFaces : cursor.Faces rest final) (hDepth : cursor.depth = depth)
    (hReturns : steps.Returns cursor value after) :
    ∃ front behind, rest = front ++ behind ∧ reader rest = .ok (value, behind) ∧
      after = cursor.passing front.length := by
  have hSettles := h hFaces hDepth
  cases hRead : reader rest with
  | error mismatch =>
      rw [hRead] at hSettles
      cases hSettles with
      | error hHalts => cases hHalts.symm.trans hReturns
  | ok pair =>
      obtain ⟨found, behind⟩ := pair
      rw [hRead] at hSettles
      cases hSettles with
      | @ok _ front _ hRest hFound =>
          obtain ⟨rfl, rfl⟩ := hFound.unique hReturns
          exact ⟨front, behind, hRest, rfl, rfl⟩

/-- A statement takes at least one lexeme, and leaves the cursor in range. -/
theorem statement_advances {s : Statement} (hRange : cursor.InRange) (hDepth : cursor.depth = 0)
    (h : (Cursor.statement mode).Returns cursor s after) :
    cursor.index < after.index ∧ after.InRange ∧ after.depth = 0 := by
  obtain ⟨rest, final, hFaces⟩ := hRange.faces
  obtain ⟨front, behind, rfl, hRead, rfl⟩ := (statement_follows mode).of_returns hFaces hDepth h
  have hShorter := Grammar.statement_shortens mode _ _ _ hRead
  rw [List.length_append] at hShorter
  exact ⟨Nat.lt_add_of_pos_right (by omega), hRange.passing hFaces, hDepth⟩

theorem isEnd_eq_isEmpty {rest : List Lexeme} {final : Lexeme} (h : cursor.Faces rest final) :
    (rest.headD final).isEnd = rest.isEmpty := by
  cases rest with
  | nil => exact h.final
  | cons lexeme others => exact h.proper lexeme List.mem_cons_self

theorem program_follows (mode : Mode) :
    Follows 0 (Cursor.program mode) (do
      let found ← Grammar.statements mode
      return ⟨found⟩) :=
  ((statement_follows mode).repeated (Grammar.statement_shortens mode) isEnd_eq_isEmpty).bind
    fun _ => .pure _

/-- From the start, the steps of a program end as the lexemes are read. -/
theorem program_ends (mode : Mode) (lexemes : List Lexeme) :
    (Cursor.program mode).Ends (Cursor.start lexemes) (Program.ofLexemes mode lexemes) := by
  have hFaces := Cursor.start_faces lexemes
  have hSettles := program_follows mode hFaces rfl
  rw [Program.ofLexemes, readAll]
  cases hRead : Grammar.statements mode (properLexemes lexemes) with
  | error mismatch =>
      rw [Grammar.bind_of_error hRead] at hSettles
      cases hSettles with
      | error hHalts => exact .error hHalts
  | ok pair =>
      obtain ⟨found, behind⟩ := pair
      -- statements are read up to the end, where the cursor is left
      obtain ⟨rfl, -, -⟩ := Grammar.statements_sound hRead
      rw [Grammar.bind_of_ok hRead] at hSettles
      generalize properLexemes lexemes = proper at hFaces hSettles
      cases hSettles with
      | ok hRest hReturns =>
          subst hRest
          exact .value hReturns ((Cursor.start_inRange lexemes).passing hFaces)

end Runs

/-! ### Behind the end of the input -/

/-- The same program, or the same error but for the place of the end of the input. -/
inductive SameButEnd : Except SyntaxError Program → Except SyntaxError Program → Prop
  | program (program : Program) : SameButEnd (.ok program) (.ok program)
  | error (error : SyntaxError) : SameButEnd (.error error) (.error error)
  | atEnd {error : SyntaxError} (position : Position) (hFound : error.found = "end of input") :
      SameButEnd (.error error) (.error { error with position })

/-- A mismatch is reported alike for any two ends, but for the place of the end. -/
theorem report_sameButEnd (mismatch : Mismatch) {final other : Lexeme} (hFinal : final.isEnd = true)
    (hOther : other.isEnd = true) :
    SameButEnd (.error (mismatch.report final)) (.error (mismatch.report other)) := by
  obtain ⟨expected, rest⟩ := mismatch
  cases rest with
  | cons lexeme others => exact .error _
  | nil =>
      have hFound : ∀ {lexeme : Lexeme}, lexeme.isEnd = true → lexeme.found = "end of input" :=
        fun hEnd => if_pos hEnd
      have hSame : Mismatch.report ⟨expected, []⟩ other =
          { Mismatch.report ⟨expected, []⟩ final with position := other.position } := by
        simp only [Mismatch.report, List.headD_nil, hFound hFinal, hFound hOther]
      rw [hSame]
      exact .atEnd _ (hFound hFinal)

/-- Lexemes with the same proper ones are read alike. -/
theorem sameButEnd_of_proper {others : List Lexeme}
    (h : properLexemes lexemes = properLexemes others) :
    SameButEnd (Program.ofLexemes mode lexemes) (Program.ofLexemes mode others) := by
  simp only [Program.ofLexemes, readAll, h]
  cases Grammar.statements mode (properLexemes others) with
  | error mismatch =>
      exact report_sameButEnd mismatch (decide_eq_true (append_finalLexeme lexemes).1)
        (decide_eq_true (append_finalLexeme others).1)
  | ok pair =>
      obtain ⟨found, behind⟩ := pair
      cases behind with
      | nil => exact .program _
      | cons lexeme rest => exact .error _

/-- **Safety.**  From any lexemes, the steps of a program end with the cursor in range, and with
what is read.  Every statement takes a lexeme.  What stands behind the first end of the input does
not matter, and the end itself only for where an error is that has found it. -/
theorem program_isSafe (mode : Mode) :
    (∀ lexemes, (Cursor.program mode).Ends (Cursor.start lexemes)
      (Program.ofLexemes mode lexemes)) ∧
    (∀ {cursor after : Cursor} {s : Statement}, cursor.InRange → cursor.depth = 0 →
      (Cursor.statement mode).Returns cursor s after →
        cursor.index < after.index ∧ after.InRange ∧ after.depth = 0) ∧
    ∀ (lexemes rest : List Lexeme) (final : Lexeme), (∀ lexeme ∈ lexemes, lexeme.isEnd = false) →
      final.isEnd = true →
        SameButEnd (Program.ofLexemes mode (lexemes ++ final :: rest))
          (Program.ofLexemes mode lexemes) := by
  refine ⟨program_ends mode, statement_advances, fun lexemes rest final hProper hFinal => ?_⟩
  have hTokens : ∀ lexeme ∈ lexemes, lexeme.token ≠ .endOfInput := fun lexeme hMember =>
    of_decide_eq_false (hProper lexeme hMember)
  apply sameButEnd_of_proper
  rw [properLexemes_append_end hTokens (of_decide_eq_true hFinal),
    properLexemes_of_forall hTokens]

/-- A reset without its semicolon. -/
def cutLexemes : List Lexeme := [Token.lexeme (.keyword .reset), Token.lexeme (.identifier "q")]

/-- An end of the input far behind. -/
def farEnd : Lexeme := ⟨.endOfInput, "", 9, 9, ⟨7, 1⟩⟩

theorem program_isSafe_reset :
    (∃ after : Cursor,
      (Cursor.statement .circuit).Returns
        (Cursor.start (cutLexemes ++ [Token.lexeme (.symbol .semicolon)]))
        (.reset ⟨"q", none, .start⟩ .start) after ∧ 0 < after.index ∧ after.InRange) ∧
    SameButEnd
      (Program.ofLexemes .circuit (cutLexemes ++ farEnd :: [Token.lexeme (.symbol .semicolon)]))
      (Program.ofLexemes .circuit cutLexemes) ∧
    Program.ofLexemes .circuit (cutLexemes ++ farEnd :: [Token.lexeme (.symbol .semicolon)]) =
      .error ⟨⟨7, 1⟩, ["`;`"], "end of input"⟩ ∧
    Program.ofLexemes .circuit cutLexemes = .error ⟨⟨1, 2⟩, ["`;`"], "end of input"⟩ := by
  obtain ⟨-, hAdvances, hSame⟩ := program_isSafe .circuit
  have hCut : Grammar.statements .circuit cutLexemes =
      .error ⟨[.token (.symbol .semicolon)], []⟩ :=
    Grammar.repeated_error _ rfl rfl
  have hError : ∀ lexemes, properLexemes lexemes = cutLexemes →
      Program.ofLexemes .circuit lexemes =
        .error (Mismatch.report ⟨[.token (.symbol .semicolon)], []⟩ (finalLexeme lexemes)) := by
    intro lexemes hProper
    rw [Program.ofLexemes, readAll, hProper, hCut]
    rfl
  refine ⟨?_, hSame cutLexemes _ farEnd (by decide) rfl, hError _ rfl, hError _ rfl⟩
  have hSettles := statement_follows .circuit
    (Cursor.start_faces (cutLexemes ++ [Token.lexeme (.symbol .semicolon)])) rfl
  have hRead : Grammar.statement .circuit
      (properLexemes (cutLexemes ++ [Token.lexeme (.symbol .semicolon)])) =
        .ok (.reset ⟨"q", none, .start⟩ .start, []) := rfl
  rw [hRead] at hSettles
  cases hSettles with
  | ok hRest hReturns =>
      have hMoved := hAdvances (Cursor.start_inRange _) rfl hReturns
      exact ⟨_, hReturns, hMoved.1, hMoved.2.1⟩

end QuantumCircuit
