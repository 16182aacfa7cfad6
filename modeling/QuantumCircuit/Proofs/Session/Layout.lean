import QuantumCircuit.Proofs.Grammar.Alike
import QuantumCircuit.Proofs.Session.Diagnostics
import QuantumCircuit.Proofs.Token.Spacing

/-!
# Layout does not matter

The tokens of a text can be spaced out in any other way: the same program is accepted, or the same
error is found at the same token.

* `Session.parse_alike` : texts with lexemes that are alike get the same answer.
* `Session.parse_spacedOut` : so do texts that differ in their layout only.
-/

namespace QuantumCircuit

open Grammar

variable {Related : Position → Position → Prop}

/-! ### Texts with the same marks -/

/-- The places are those of the lexemes of one index. -/
def SameIndex (lexemes others : List Lexeme) (place other : Position) : Prop :=
  ∃ i : ℕ, (lexemes[i]?).map Lexeme.position = some place ∧
    (others[i]?).map Lexeme.position = some other

/-- Lexemes with the same marks are alike, index by index. -/
theorem alikeLists_of_marks {lexemes others : List Lexeme}
    (h : others.map Lexeme.mark = lexemes.map Lexeme.mark) :
    AlikeLists (SameIndex lexemes others) lexemes others := by
  have hLength := congrArg List.length h
  rw [List.length_map, List.length_map] at hLength
  refine List.forall₂_iff_get.mpr ⟨hLength.symm, fun i hFirst hSecond => ⟨?_, i, ?_, ?_⟩⟩
  · have hMark := congrArg (fun marks : List Mark => marks[i]?) h
    simp only [List.getElem?_map, List.getElem?_eq_getElem hFirst,
      List.getElem?_eq_getElem hSecond, Option.map_some, Option.some.injEq] at hMark
    exact hMark.symm
  · rw [List.getElem?_eq_getElem hFirst]
    rfl
  · rw [List.getElem?_eq_getElem hSecond]
    rfl

/-- Lists that are alike end alike, if they hold an end of the input. -/
theorem finalLexeme_alike {lexemes others : List Lexeme} (h : AlikeLists Related lexemes others)
    (hEnd : ∃ lexeme ∈ lexemes, lexeme.isEnd = true) :
    (finalLexeme lexemes).AlikeAt Related (finalLexeme others) := by
  have hFound := find?_rel (fun _ _ hFirst => Lexeme.AlikeAt.isEnd_eq hFirst) h
  rw [finalLexeme, finalLexeme]
  cases hLeft : lexemes.find? Lexeme.isEnd with
  | none =>
      obtain ⟨lexeme, hMember, hIsEnd⟩ := hEnd
      exact absurd hIsEnd (List.find?_eq_none.mp hLeft lexeme hMember)
  | some final =>
      rw [hLeft] at hFound
      generalize others.find? Lexeme.isEnd = right at hFound
      cases hFound with
      | some hFinal => exact hFinal

/-- A text without characters has no proper lexemes. -/
theorem properLexemes_of_isEmpty {source : String} {lexemes : List Lexeme}
    (h : tokenize source = .ok lexemes) (hEmpty : source.isEmpty = true) :
    properLexemes lexemes = [] := by
  rw [String.isEmpty_iff] at hEmpty
  subst hEmpty
  have hNone : tokenize "" = .ok [⟨.endOfInput, "", 0, 0, .start⟩] := by decide +kernel
  rw [hNone] at h
  cases h
  rfl

/-! ### Answers -/

/-- The lexemes of two texts decide what is found in them, up to the places. -/
theorem Session.parse_alike (session : Session) {source other : String}
    (hSome : source.isEmpty = false) (hOther : other.isEmpty = false)
    {lexemes others : List Lexeme} (hLexemes : tokenize source = .ok lexemes)
    (hOthers : tokenize other = .ok others) (hAlike : AlikeLists Related lexemes others) :
    Agreement (Diagnostic.AlikeAt Related)
      (fun first second => first.program.AlikeAt Related second.program ∧
        first.symbols = second.symbols)
      (session.parse source) (session.parse other) := by
  have hFinal := finalLexeme_alike hAlike (exists_isEnd_of_tokenize hLexemes)
  have hRead := Program.ofLexemes_alike .circuit hAlike hFinal
  have hProgram : Agreement (Diagnostic.AlikeAt Related) (Program.AlikeAt Related)
      (Program.parse .circuit source) (Program.parse .circuit other) := by
    rw [Program.parse, Program.parse, lexemesOf, lexemesOf, hLexemes, hOthers]
    exact hRead.mapError fun _ _ hError => .syntactic hError
  simp only [Session.parse, hSome, hOther, Bool.false_eq_true, if_false]
  refine hProgram.bind fun program again _ hSame => ?_
  have hCheck := Program.check_alike session.librarySymbols hSame
  have hValid : Agreement (Diagnostic.AlikeAt Related) Eq
      (program.validate session.librarySymbols) (again.validate session.librarySymbols) :=
    hCheck.mapError fun _ _ hFault => .semantic hFault.report
  exact hValid.bind fun symbols _ _ hSymbols => .ok ⟨hSame, hSymbols⟩

/-- **Layout.**  A text with the tokens of another one, spaced out in its own way, has the same
tokens and gets the same answer: programs that differ in their places only with the same symbols,
or errors that say the same about tokens of the same index. -/
theorem Session.parse_spacedOut (session : Session) {source other : String}
    {lexemes : List Lexeme} (hLexemes : tokenize source = .ok lexemes)
    (hOther : SpacedOut ((properLexemes lexemes).map Lexeme.text) other.toList) :
    ∃ others, tokenize other = .ok others ∧
      others.map Lexeme.mark = lexemes.map Lexeme.mark ∧
      Agreement
        (fun first second => first.code = second.code ∧
          first.AlikeAt (SameIndex lexemes others) second)
        (fun first second => first.program.erased = second.program.erased ∧
          first.symbols = second.symbols)
        (session.parse source) (session.parse other) := by
  obtain ⟨others, hOthers, hMarks⟩ := tokenize_spacedOut hLexemes hOther
  refine ⟨others, hOthers, hMarks, ?_⟩
  have hAlike := alikeLists_of_marks hMarks
  -- there is at least one word, so that neither text is empty
  have hProper : properLexemes lexemes ≠ [] := by
    intro hNone
    rw [hNone] at hOther
    cases hOther
  have hSame : (properLexemes lexemes).length = (properLexemes others).length :=
    (properLexemes_alike hAlike).length_eq
  have hSome : source.isEmpty = false := by
    by_contra hEmpty
    exact hProper (properLexemes_of_isEmpty hLexemes (by simpa using hEmpty))
  have hSomeOther : other.isEmpty = false := by
    by_contra hEmpty
    have hNone := properLexemes_of_isEmpty hOthers (by simpa using hEmpty)
    rw [hNone, List.length_nil, List.length_eq_zero_iff] at hSame
    exact hProper hSame
  exact (session.parse_alike hSome hSomeOther hLexemes hOthers hAlike).mono
    (fun _ _ hError => ⟨hError.code_eq, hError⟩)
    fun _ _ hChecked => ⟨hChecked.1.erased_eq, hChecked.2⟩

/-- A statement on an unknown register. -/
def resetSource : String := "reset q;"

/-- The same statement with a comment in front and another one within. -/
def spacedResetSource : String := "\n// a\nreset\t// b\n q\r\n; "

theorem spacedOut_spacedResetSource : SpacedOut ["reset", "q", ";"] spacedResetSource.toList := by
  have hChars : spacedResetSource.toList =
      ['\n', '/', '/', ' ', 'a', '\n'] ++ ("reset".toList ++
        (['\t', '/', '/', ' ', 'b', '\n', ' '] ++ ("q".toList ++
          (['\r', '\n'] ++ (";".toList ++ [' ']))))) := by decide
  have hFront : IsLayout ['\n', '/', '/', ' ', 'a', '\n'] :=
    .blank rfl (@IsLayout.comment [' ', 'a'] [] (by simp) .nil)
  have hFirst : IsSpacing ['\t', '/', '/', ' ', 'b', '\n', ' '] :=
    ⟨.blank rfl (@IsLayout.comment [' ', 'b'] [' '] (by simp) (.blank rfl .nil)), '\t', rfl, rfl⟩
  have hSecond : IsSpacing ['\r', '\n'] := ⟨.blank rfl (.blank rfl .nil), '\r', rfl, rfl⟩
  have hBack : IsSpacing [' '] := ⟨.blank rfl .nil, ' ', rfl, rfl⟩
  rw [hChars]
  exact .mk "reset" hFront (.cons "q" hFirst (.cons ";" hSecond (.spacing hBack)))

theorem Session.parse_spacedOut_reset :
    ∃ lexemes, tokenize resetSource = .ok lexemes ∧
      SpacedOut ((properLexemes lexemes).map Lexeme.text) spacedResetSource.toList ∧
      ∃ others, tokenize spacedResetSource = .ok others ∧
        others.map Lexeme.mark = lexemes.map Lexeme.mark ∧
        ∃ first second, Session.parse ⟨⟨false⟩, none⟩ resetSource = .error first ∧
          Session.parse ⟨⟨false⟩, none⟩ spacedResetSource = .error second ∧
          (first.code = second.code ∧ first.AlikeAt (SameIndex lexemes others) second) ∧
          first.position = ⟨1, 7⟩ ∧ second.position = ⟨4, 2⟩ := by
  have hWords : (tokenize resetSource).toOption.map
      (fun lexemes => (properLexemes lexemes).map Lexeme.text) = some ["reset", "q", ";"] := by
    decide +kernel
  have hReport (source : String) (place : Position)
      (h : Session.diagnostic? ⟨⟨false⟩, none⟩ source =
        some (.semantic ⟨.unknownRegister, place, "register 'q' is not declared"⟩)) :=
    Session.diagnostic?_eq_some.mp h
  have hFirst := hReport resetSource ⟨1, 7⟩ (by decide +kernel)
  have hSecond := hReport spacedResetSource ⟨4, 2⟩ (by decide +kernel)
  cases hLexemes : tokenize resetSource with
  | error error =>
      rw [hLexemes] at hWords
      cases hWords
  | ok lexemes =>
      rw [hLexemes] at hWords
      have hSpaced := spacedOut_spacedResetSource
      rw [← Option.some.inj hWords] at hSpaced
      obtain ⟨others, hOthers, hMarks, hAgreement⟩ :=
        Session.parse_spacedOut ⟨⟨false⟩, none⟩ hLexemes hSpaced
      rw [hFirst, hSecond] at hAgreement
      cases hAgreement with
      | error hErrors =>
          exact ⟨lexemes, rfl, hSpaced, others, hOthers, hMarks, _, _, hFirst, hSecond, hErrors,
            rfl, rfl⟩

end QuantumCircuit
