import QuantumCircuit.Proofs.Grammar.StuckStatement

/-!
# What could have stood at a syntax error

A syntax error lists lexemes that could have stood where it is reported, but not all of them: the
symbols of optional pieces, which have been looked for there in vain, are missing, and so is the
end of the input where a statement can begin.  With these the list is complete.

* `accounts_start` : where a statement can begin.
* `accounts_inside` : inside of a statement.
* `Program.ofLexemes_error_omits` : what is listed and what is omitted is all that can stand.
-/

namespace QuantumCircuit
namespace Grammar

variable {mode : Mode}

/-! ### Programs -/

/-- No lexeme ends the input. -/
def Proper (lexemes : List Lexeme) : Prop := ∀ lexeme ∈ lexemes, lexeme.token ≠ .endOfInput

theorem Joins.proper {lexemes : List Lexeme} (h : Joins lexemes) : Proper lexemes := by
  intro lexeme hMember hToken
  have hJoins := h lexeme hMember
  rw [hToken] at hJoins
  cases hJoins

@[simp] theorem proper_nil : Proper [] := List.forall_mem_nil _

@[simp] theorem proper_cons {lexeme : Lexeme} {lexemes : List Lexeme} :
    Proper (lexeme :: lexemes) ↔ lexeme.token ≠ .endOfInput ∧ Proper lexemes :=
  List.forall_mem_cons

@[simp] theorem proper_append {front back : List Lexeme} :
    Proper (front ++ back) ↔ Proper front ∧ Proper back :=
  List.forall_mem_append

theorem IsBody.proper {lexemes : List Lexeme} {calls : List GateCall}
    (h : IsBody IsFormula lexemes calls) : Proper lexemes := by
  induction h with
  | nil => exact proper_nil
  | cons hCall hSemicolon _ ih => simp [hCall.joins.proper, hSemicolon, ih]

theorem IsStatement.proper {lexemes : List Lexeme} {found : Statement}
    (h : IsStatement IsFormula lexemes found) : Proper lexemes := by
  cases h with
  | version hWord hNumber hSemicolon =>
      obtain ⟨hFirst, -⟩ := proper_cons.mp (IsVersionNumber.mk hNumber).joins.proper
      simp [hWord, hFirst, hSemicolon]
  | inclusion hWord hPath hSemicolon => simp [hWord, hPath, hSemicolon]
  | register hWord hName hOpening hNumber hClosing hSemicolon =>
      simp [hWord, hName, hOpening, hNumber, hClosing, hSemicolon]
  | gate hWord hHeader hOpening hBody hClosing =>
      simp [hWord, hHeader.joins.proper, hOpening, hBody.proper, hClosing]
  | opaqueGate hWord hHeader hSemicolon => simp [hWord, hHeader.joins.proper, hSemicolon]
  | call hCall hSemicolon => simp [hCall.joins.proper, hSemicolon]
  | measure hWord hSource hArrow hTarget hSemicolon =>
      simp [hWord, hSource.joins.proper, hArrow, hTarget.joins.proper, hSemicolon]
  | reset hWord hTarget hSemicolon => simp [hWord, hTarget.joins.proper, hSemicolon]
  | barrier hWord hTargets hSemicolon =>
      have hJoins := hTargets.joins fun _ _ hReference => hReference.joins
      simp [hWord, hJoins.proper, hSemicolon]
  | condition hWord hOpening hName hEquals hNumber hClosing hCall hSemicolon =>
      simp [hWord, hOpening, hName, hEquals, hNumber, hClosing, hCall.joins.proper, hSemicolon]

/-- A program holds no end of the input. -/
theorem IsProgram.proper {lexemes : List Lexeme} {found : List Statement}
    (h : IsProgram IsFormula lexemes found) : Proper lexemes := by
  induction h with
  | nil => exact proper_nil
  | cons hStatement _ ih => simp [hStatement.proper, ih]

/-- A statement ends with a semicolon or a brace. -/
theorem IsStatement.getLast? {param : List Lexeme → Expr → Prop} {lexemes : List Lexeme}
    {found : Statement} (h : IsStatement param lexemes found) :
    ∃ final, lexemes.getLast? = some final ∧ final.token.separates = true := by
  have hAny : (lexemes.getLast?.any fun final => final.token.separates) = true := by
    cases h <;> simp [List.getLast?_cons, Token.separates, *]
  exact (Option.any_eq_true _ _).mp hAny

/-- Behind a program the next statement can begin. -/
theorem IsProgram.along {param : List Lexeme → Expr → Prop} {lexemes : List Lexeme}
    {found : List Statement} (h : IsProgram param lexemes found) :
    Spot.along .clear lexemes = .clear := by
  induction h with
  | nil => rfl
  | cons hStatement hOthers ih =>
      obtain ⟨final, hFinal, hSeparates⟩ := hStatement.getLast?
      rw [Spot.along_append, Spot.along_separates _ hFinal hSeparates, ih]

/-- The tokens of the statement that has been begun are those of the spot. -/
theorem recent_eq (front : List Lexeme) :
    recent (front.map Lexeme.token) = (Spot.along .clear front).back := by
  have hBack (spot : Spot) : (spot.along front).back =
      (front.map Lexeme.token).foldl joined spot.back := by
    induction front generalizing spot with
    | nil => rfl
    | cons lexeme front ih => exact ih (spot.past lexeme)
  exact (hBack .clear).symm

/-- The statements in front of an error are read, and the mode allows them. -/
structure IsRead (mode : Mode) (front : List Lexeme) (found : List Statement) : Prop where
  program : IsProgram IsExpression front found
  allows : ∀ s ∈ found, mode.Allows s

namespace IsRead

variable {front : List Lexeme} {found : List Statement}

theorem append (h : IsRead mode front found) {others : List Lexeme} {more : List Statement}
    (hOthers : IsProgramOf mode others more) :
    IsProgramOf mode (front ++ others) (found ++ more) := by
  obtain ⟨hProgram, hAllows⟩ := h
  induction hProgram with
  | nil => exact hOthers
  | cons hStatement _ ih =>
      obtain ⟨hFirst, hAllows⟩ := List.forall_mem_cons.mp hAllows
      rw [List.append_assoc]
      have hFormula := hStatement.mono fun _ _ _ _ _ _ hItem => hItem.isFormula
      exact .cons ⟨hFormula, hFirst⟩ (ih hAllows)

/-- Behind them a statement that is refused, and not for its nesting, is none. -/
theorem refused (h : IsRead mode front found) {behind rest : List Lexeme} (hBehind : behind ≠ [])
    {expected : List Expectation} (hRefused : statement mode behind = .error ⟨expected, rest⟩)
    (hShallow : expected ≠ [.shallowerNesting]) (all : List Statement) :
    ¬ IsProgramOf mode (front ++ behind) all := by
  intro hWhole
  have hDone : behind.isEmpty = false := by simpa using hBehind
  have hRead : statements mode (front ++ behind) = .error ⟨expected, rest⟩ := by
    rw [statements_append h.program h.allows]
    exact bind_of_error (repeated_error (statement_shortens mode) hDone hRefused)
  exact hShallow (hWhole.refused hRead)

/-- Behind them what begins a statement goes on to a program. -/
theorem goesOn (h : IsRead mode front found) {behind : List Lexeme}
    (hBegins : Begins (Allowed mode) behind) : GoesOn mode (front ++ behind) := by
  obtain ⟨more, statement, hStatement⟩ := hBegins
  refine ⟨more, found ++ [statement], ?_⟩
  rw [List.append_assoc]
  exact h.append (by simpa using IsProgramOf.cons hStatement .nil)

end IsRead

/-- A program that is refused has statements in front of the one that is refused. -/
theorem statements_error {lexemes : List Lexeme} {mismatch : Mismatch}
    (h : statements mode lexemes = .error mismatch) :
    ∃ front found behind, lexemes = front ++ behind ∧ IsRead mode front found ∧ behind ≠ [] ∧
      statement mode behind = .error mismatch := by
  unfold statements at h
  fun_induction repeated (statement mode) (statement_shortens mode) List.isEmpty lexemes with
  | case1 => cases h
  | case2 lexemes hDone other hRead =>
      cases h
      exact ⟨[], [], lexemes, rfl, ⟨.nil, List.forall_mem_nil _⟩, by simpa using hDone, hRead⟩
  | case3 lexemes hDone value rest hRead other hMore ih =>
      cases h
      obtain ⟨front, found, behind, rfl, ⟨hProgram, hAllows⟩, hRefused⟩ := ih hMore
      obtain ⟨first, rfl, hStatement, hFirst⟩ := statement_sound hRead
      exact ⟨first ++ front, value :: found, behind, by simp,
        ⟨.cons hStatement hProgram, List.forall_mem_cons.mpr ⟨hFirst, hAllows⟩⟩, hRefused⟩
  | case4 => cases h

/-! ### Where a statement can begin -/

/-- The start of a statement lists the tokens that statements begin with. -/
theorem describes_startOf {lexeme : Lexeme} :
    (∃ expectation ∈ startOf mode, expectation.Describes lexeme) ↔
      (statementFor? mode lexeme.token).isSome = true := by
  cases hToken : lexeme.token with
  | keyword word =>
      cases mode <;> cases word <;> simp [startOf, statementStart, declarationStart,
        Expectation.Describes, Token.kind, statementFor?, hToken]
  | _ =>
      cases mode <;> simp [startOf, statementStart, declarationStart, Expectation.Describes,
        Token.kind, statementFor?, hToken]

/-- Where a statement can begin, the input can end, and nothing else is omitted. -/
theorem omitted_startOf (mode : Mode) (tokens : List Token) :
    omitted tokens (startOf mode) = [.token .endOfInput] := by
  cases mode <;> rfl

/-- **Between statements.**  Behind statements that are read, the tokens that statements begin with
and the end of the input can stand. -/
theorem accounts_start {front : List Lexeme} {found : List Statement}
    (hRead : IsRead mode front found) : Accounts mode front (startOf mode) := by
  intro lexeme
  have hEnd : (∃ expectation ∈ [Expectation.token .endOfInput], expectation.Describes lexeme) ↔
      lexeme.token = .endOfInput := by
    cases hToken : lexeme.token <;> simp [Expectation.Describes, Token.kind, hToken]
  rw [omitted_startOf]
  simp only [List.mem_append, or_and_right, exists_or, describes_startOf, hEnd]
  constructor
  · rintro (⟨more, all, hProgram⟩ | ⟨hToken, -⟩)
    · left
      by_contra hNone
      rw [Option.not_isSome_iff_eq_none] at hNone
      have hRefused : statement mode (lexeme :: more) = .error ⟨startOf mode, lexeme :: more⟩ := by
        rw [statement, hNone]
      have hShallow : startOf mode ≠ [.shallowerNesting] := by cases mode <;> decide
      rw [List.append_assoc] at hProgram
      exact hRead.refused (List.cons_ne_nil _ _) hRefused hShallow all hProgram
    · exact Or.inr hToken
  · rintro (hSome | hToken)
    · obtain ⟨reader, hReader⟩ := Option.isSome_iff_exists.mp hSome
      obtain ⟨part, statement, hStatement⟩ := (statementFor?_tells hReader []).inhabited
      exact Or.inl (hRead.goesOn ⟨part, statement, hStatement⟩)
    · have hProgram := hRead.append .nil
      rw [List.append_nil] at hProgram
      exact Or.inr ⟨hToken, _, hProgram⟩

/-! ### Inside of a statement -/

theorem statementFor?_separates {token : Token} {reader : Reader Statement}
    (h : statementFor? mode token = some reader) : token.separates = false := by
  unfold statementFor? at h
  split at h <;> cases h <;> rfl

/-- Behind a begun statement the omitted symbols are those that have been refused. -/
theorem omitted_inside {front part : List Lexeme} {found : List Statement} {first : Lexeme}
    {reader : Reader Statement} {expected : List Expectation} {signs : List Symbol}
    (hRead : IsRead mode front found) (hReader : statementFor? mode first.token = some reader)
    (hFits : ((Spot.along ⟨[first.token], []⟩ part).refusing signs).Fits expected)
    (hBegun : expected ≠ statementStart ∧ expected ≠ declarationStart) :
    omitted ((front ++ first :: part).map Lexeme.token) expected =
      signs.map fun sign => .token (.symbol sign) := by
  have hSpot :
      Spot.along .clear (front ++ first :: part) = Spot.along ⟨[first.token], []⟩ part := by
    rw [Spot.along_append, hRead.program.along, Spot.along_cons, Spot.past, joined,
      statementFor?_separates hReader]
    rfl
  rw [Spot.Fits, Spot.refusing, Spot.along_refused rfl, List.append_nil, ← hSpot] at hFits
  rw [omitted, recent_eq, hFits, if_neg (not_or.mpr hBegun), List.append_nil]

/-- **Inside of a statement.**  Where the reader of a statement is stuck, what it expects and the
symbols that it has refused can stand. -/
theorem accounts_inside {front part : List Lexeme} {found : List Statement} {first : Lexeme}
    {reader : Reader Statement} {expected : List Expectation} {signs : List Symbol}
    (hRead : IsRead mode front found) (hReader : statementFor? mode first.token = some reader)
    (hFits : ((Spot.along ⟨[first.token], []⟩ part).refusing signs).Fits expected)
    (hStuck : Stuck (behind first reader) (fun part => Allowed mode (first :: part)) expected signs
      part)
    (hShallow : expected ≠ [.shallowerNesting]) :
    Accounts mode (front ++ first :: part) expected := by
  intro lexeme
  rw [omitted_inside hRead hReader hFits hStuck.begun]
  have hSigns : (∃ expectation ∈ signs.map fun sign => Expectation.token (.symbol sign),
      expectation.Describes lexeme) ↔ ∃ sign ∈ signs, lexeme.token = .symbol sign := by
    simp [Expectation.Describes, kind_eq_symbol]
  simp only [List.mem_append, or_and_right, exists_or, hSigns]
  have hFails (other : List Lexeme) (hAvoids : Avoids signs other) (hMisses : Misses expected other)
      (all : List Statement) : ¬ IsProgramOf mode (front ++ (first :: part ++ other)) all := by
    have hRefused : statement mode (first :: part ++ other) = .error ⟨expected, other⟩ := by
      rw [List.cons_append, statement, hReader]
      exact hStuck.fails other hAvoids hMisses
    exact hRead.refused (List.cons_ne_nil _ _) hRefused hShallow all
  have hGoesOn (hBegins : Begins (fun part => Allowed mode (first :: part)) (part ++ [lexeme])) :
      GoesOn mode ((front ++ first :: part) ++ [lexeme]) := by
    rw [List.append_assoc, List.cons_append]
    exact hRead.goesOn hBegins
  constructor
  · rintro (⟨more, all, hProgram⟩ | ⟨-, all, hProgram⟩)
    · by_contra hNone
      obtain ⟨hExpected, hOmitted⟩ := not_or.mp hNone
      refine hFails (lexeme :: more) ?_ ?_ all (by simpa using hProgram)
      · rintro _ ⟨⟩ sign hSign hToken
        exact hOmitted ⟨sign, hSign, hToken⟩
      · rintro _ ⟨⟩ expectation hMember hDescribes
        exact hExpected ⟨expectation, hMember, hDescribes⟩
    · exact absurd (by simpa using hProgram)
        (hFails [] (avoids_at_end signs) (misses_at_end expected) all)
  · rintro (⟨expectation, hMember, hDescribes⟩ | ⟨sign, hSign, hToken⟩)
    · exact Or.inl (hGoesOn (hStuck.expects expectation hMember lexeme hDescribes))
    · exact Or.inl (hGoesOn (hStuck.goesOn sign hSign lexeme hToken))

/-- Where statements are refused, and not for the nesting, what is expected and what is omitted is
all that can stand. -/
theorem statements_accounts {lexemes rest : List Lexeme} {expected : List Expectation}
    (h : statements mode lexemes = .error ⟨expected, rest⟩)
    (hShallow : expected ≠ [.shallowerNesting]) :
    ∃ before, lexemes = before ++ rest ∧ Accounts mode before expected := by
  obtain ⟨front, found, behind, rfl, hRead, hBehind, hRefused⟩ := statements_error h
  obtain ⟨first, others, rfl⟩ := List.exists_cons_of_ne_nil hBehind
  rw [statement] at hRefused
  cases hReader : statementFor? mode first.token with
  | none =>
      rw [hReader] at hRefused
      cases hRefused
      exact ⟨front, rfl, accounts_start hRead⟩
  | some reader =>
      rw [hReader] at hRefused
      obtain ⟨part, signs, rfl, hFits, hStuck⟩ :=
        (statementFor?_tells hReader others).getsStuck expected rest hRefused hShallow
      exact ⟨front ++ first :: part, by simp, accounts_inside hRead hReader hFits hStuck hShallow⟩

/-- The lexeme at which statements are refused cannot stand there, nor can the input end there. -/
theorem statements_stuck {before rest : List Lexeme} {expected : List Expectation}
    (h : statements mode (before ++ rest) = .error ⟨expected, rest⟩)
    (hShallow : expected ≠ [.shallowerNesting]) (hRest : Proper rest) {final : Lexeme}
    (hFinal : final.token = .endOfInput) : ¬ CanStand mode before (rest.headD final) := by
  obtain ⟨front, hFront, hSame⟩ := (statements_looks mode _).of_error h
  obtain rfl : before = front := List.append_cancel_right hFront
  cases rest with
  | nil =>
      rintro (⟨more, all, hProgram⟩ | ⟨-, all, hProgram⟩)
      · have hProper := hProgram.program.proper
        simp [hFinal] at hProper
      · rw [List.append_nil] at h
        exact hShallow (hProgram.refused h)
  | cons next others =>
      rintro (⟨more, all, hProgram⟩ | ⟨hEnd, -⟩)
      · rw [List.append_assoc] at hProgram
        exact hShallow (hProgram.refused (hSame (next :: more) rfl))
      · exact (proper_cons.mp hRest).1 hEnd

end Grammar

open Grammar

/-! ### Syntax errors -/

variable {mode : Mode} {lexemes : List Lexeme}

/-- The error is reported at `next`, which cannot stand where it stands; the expectations that it
lists and what they omit describe the lexemes that can, and no others. -/
structure SyntaxError.Omits (error : SyntaxError) (mode : Mode) (before : List Lexeme)
    (next : Lexeme) (expected : List Expectation) : Prop where
  proper : Proper before
  position : error.position = next.position
  found : error.found = next.found
  stuck : ¬ CanStand mode before next
  listed : error.expected = expected.map Expectation.description
  accounts : Accounts mode before expected
  /-- What is omitted is missing from the list. -/
  missing : ∀ expectation ∈ omitted (before.map Lexeme.token) expected,
    expectation.description ∉ error.expected

/-- **What a syntax error lists.**  A syntax error, other than one for nesting, lists some of the
lexemes that could stand where it is reported.  The others are symbols that have been looked for
there in vain and, where a statement can begin, the end of the input. -/
theorem Program.ofLexemes_error_omits {error : SyntaxError}
    (h : Program.ofLexemes mode lexemes = .error error) (hNesting : ¬ error.IsNesting) :
    ∃ before next after expected, lexemes ++ [finalLexeme lexemes] = before ++ next :: after ∧
      error.Omits mode before next expected := by
  obtain ⟨⟨expected, rest⟩, hRead, rfl⟩ := Program.ofLexemes_eq_error h
  have hShallow : expected ≠ [.shallowerNesting] := by
    rintro rfl
    exact hNesting rfl
  obtain ⟨before, hBefore, hAccounts⟩ := statements_accounts hRead hShallow
  have hProper : Proper (before ++ rest) := by
    rw [← hBefore]
    exact fun _ => token_ne_end_of_mem_proper
  obtain ⟨hFront, hRest⟩ := proper_append.mp hProper
  obtain ⟨hFinal, after, hInput⟩ := append_finalLexeme lexemes
  rw [hBefore] at hRead hInput
  have hSplit : ∃ after, lexemes ++ [finalLexeme lexemes] =
      before ++ rest.headD (finalLexeme lexemes) :: after := by
    cases rest with
    | nil => exact ⟨after, by simpa using hInput⟩
    | cons next others => exact ⟨_, by simpa using hInput⟩
  obtain ⟨after, hAfter⟩ := hSplit
  exact ⟨before, rest.headD (finalLexeme lexemes), after, expected, hAfter, hFront, rfl, rfl,
    statements_stuck hRead hShallow hRest hFinal, rfl, hAccounts, fun _ => not_listed_of_omitted⟩

/-- The lexemes of `reset q`. -/
def resetLexemes : List Lexeme :=
  [⟨.keyword .reset, "reset", 0, 5, ⟨1, 1⟩⟩, ⟨.identifier "q", "q", 6, 7, ⟨1, 7⟩⟩]

/-- Behind them an index could begin. -/
example : omitted (resetLexemes.map Lexeme.token) [.token (.symbol .semicolon)] =
    [.token (.symbol .leftBracket)] := rfl

/-- The lexemes of `reset q)`. -/
def strayLexemes : List Lexeme :=
  resetLexemes ++ [⟨.symbol .rightParen, ")", 7, 8, ⟨1, 8⟩⟩, ⟨.endOfInput, "", 8, 8, ⟨1, 9⟩⟩]

/-- The syntax error of `reset q)`. -/
def strayError : SyntaxError := ⟨⟨1, 8⟩, ["`;`"], "`)`"⟩

theorem ofLexemes_stray : Program.ofLexemes .circuit strayLexemes = .error strayError := by
  have hRead : statements .circuit (properLexemes strayLexemes) =
      .error ⟨[.token (.symbol .semicolon)], [⟨.symbol .rightParen, ")", 7, 8, ⟨1, 8⟩⟩]⟩ :=
    repeated_error _ rfl rfl
  rw [Program.ofLexemes, readAll, hRead]
  rfl

theorem strayError_not_isNesting : ¬ strayError.IsNesting := by
  rw [SyntaxError.IsNesting]
  decide

theorem Program.ofLexemes_error_omits_stray :
    ∃ error, Program.ofLexemes .circuit strayLexemes = .error error ∧ ¬ error.IsNesting ∧
      ∃ before next after expected, strayLexemes ++ [finalLexeme strayLexemes] =
        before ++ next :: after ∧ error.Omits .circuit before next expected :=
  ⟨strayError, ofLexemes_stray, strayError_not_isNesting,
    Program.ofLexemes_error_omits ofLexemes_stray strayError_not_isNesting⟩

/-- The error lists every lexeme with which what is in front of it goes on to a program. -/
def SyntaxError.ListsAll (error : SyntaxError) (mode : Mode) (before : List Lexeme) : Prop :=
  ∀ lexeme, GoesOn mode (before ++ [lexeme]) →
    ∃ expectation : Expectation, expectation.description ∈ error.expected ∧
      expectation.Describes lexeme

/-- The error of `reset q)` is reported at the parenthesis and lists the semicolon only; a bracket
could stand there too, as in `reset q[0];`. -/
theorem Program.ofLexemes_error_unlisted :
    tokenize "reset q)" = .ok strayLexemes ∧
      Program.ofLexemes .circuit strayLexemes = .error strayError ∧ ¬ strayError.IsNesting ∧
        ¬ strayError.ListsAll .circuit resetLexemes := by
  refine ⟨by decide +kernel, ofLexemes_stray, strayError_not_isNesting, fun hAll => ?_⟩
  let bracket : Lexeme := Token.lexeme (.symbol .leftBracket)
  let number : Lexeme := Token.lexeme (.integer 0)
  let closing : Lexeme := Token.lexeme (.symbol .rightBracket)
  let semicolon : Lexeme := Token.lexeme (.symbol .semicolon)
  have hTarget : IsReference [⟨.identifier "q", "q", 6, 7, ⟨1, 7⟩⟩, bracket, number, closing]
      ⟨"q", some 0, ⟨1, 7⟩⟩ := .element rfl rfl rfl rfl
  have hReset : Allowed .circuit (resetLexemes ++ [bracket, number, closing, semicolon]) _ :=
    ⟨.reset rfl hTarget rfl, rfl⟩
  obtain ⟨expectation, hListed, hDescribes⟩ :=
    hAll bracket ⟨[number, closing, semicolon], _, by simpa using IsProgramOf.cons hReset .nil⟩
  rw [strayError, List.mem_singleton] at hListed
  cases expectation with
  | token kind =>
      obtain rfl : TokenKind.symbol .leftBracket = kind := hDescribes
      revert hListed
      decide
  | versionNumber =>
      revert hListed
      decide
  | shallowerNesting => exact hDescribes

end QuantumCircuit
