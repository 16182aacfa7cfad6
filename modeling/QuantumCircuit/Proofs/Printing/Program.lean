import QuantumCircuit.Program.Printing
import QuantumCircuit.Proofs.Grammar.Statement
import QuantumCircuit.Proofs.Program.Legible

/-!
# Printed programs

As for expressions, the text of a program is scanned into marks that its tree prescribes
(`Program.scan_text`), and lexemes with these marks form a program of the grammar
(`Program.isProgram_of_marks`).  That program has places of its own, but without them it is the
one that was printed.
-/

namespace QuantumCircuit

open Grammar

/-! ### Lists -/

/-- Marks with commas between them. -/
def commaMarks : List (List Mark) → List Mark
  | [] => []
  | [only] => only
  | first :: second :: rest => first ++ signMark .comma :: commaMarks (second :: rest)

/-- The marks of a name, of parameters in parentheses if there are any, and of what the name is
applied to. -/
def appliedMarks (name : String) (params qubits : List (List Mark)) : List Mark :=
  nameMark name ::
    ((if params = [] then []
      else signMark .leftParen :: (commaMarks params ++ [signMark .rightParen])) ++
        commaMarks qubits)

/-- A list of texts is scanned item by item. -/
theorem shows_commaList {α : Type} {text : α → String} {marks : α → List Mark} {items : List α}
    (h : ∀ item ∈ items, Shows (text item) (marks item)) :
    Shows (commaList (items.map text)) (commaMarks (items.map marks)) := by
  induction items with
  | nil =>
      intro rest hRest
      simp [commaList, commaMarks]
  | cons first others ih =>
      have hFirst := h first (List.mem_cons_self ..)
      cases others with
      | nil => simpa [commaList, commaMarks] using hFirst
      | cons second more =>
          intro rest hRest
          have hOthers := ih (fun item hItem => h item (List.mem_cons_of_mem _ hItem)) rest hRest
          have hText : (commaList ((first :: second :: more).map text)).toList ++ rest =
              (text first).toList ++
                ',' :: ' ' :: ((commaList ((second :: more).map text)).toList ++ rest) := by
            simp [commaList, String.intercalate_cons_cons]
          rw [hText, hFirst _ (.cons (by decide) _), scan_comma, scan_space, hOthers,
            Option.map_map, Option.map_map]
          simp [commaMarks, signMark, Symbol.text, Function.comp_def]

/-- What is applied to something is scanned part by part. -/
theorem shows_applied {α β : Type} {name : String} {text : α → String} {text' : β → String}
    {marks : α → List Mark} {marks' : β → List Mark} {params : List α} {qubits : List β}
    (hName : IsName name) (hParams : ∀ item ∈ params, Shows (text item) (marks item))
    (hQubits : ∀ item ∈ qubits, Shows (text' item) (marks' item)) :
    Shows (applied name (params.map text) (qubits.map text'))
      (appliedMarks name (params.map marks) (qubits.map marks')) := by
  intro rest hRest
  have hLast := shows_commaList hQubits rest hRest
  by_cases hEmpty : params = []
  · subst hEmpty
    have hText : (applied name ([].map text) (qubits.map text')).toList ++ rest =
        name.toList ++ ' ' :: ((commaList (qubits.map text')).toList ++ rest) := by
      simp [applied]
    rw [hText, scan_name hName (.cons (by decide) _), scan_space, hLast, Option.map_map]
    simp [appliedMarks, nameMark, Function.comp_def]
  · have hText : (applied name (params.map text) (qubits.map text')).toList ++ rest =
        name.toList ++ '(' :: ((commaList (params.map text)).toList ++
          ')' :: ' ' :: ((commaList (qubits.map text')).toList ++ rest)) := by
      simp [applied, hEmpty]
    rw [hText, scan_name hName (.cons (by decide) _), scan_leftParen,
      shows_commaList hParams _ (.cons (by decide) _), scan_rightParen, scan_space, hLast,
      Option.map_map, Option.map_map, Option.map_map, Option.map_map]
    simp [appliedMarks, nameMark, signMark, Symbol.text, hEmpty, Function.comp_def]

/-! ### The marks of a program -/

/-- The marks of a reference. -/
def RegisterRef.marks (reference : RegisterRef) : List Mark :=
  match reference.index with
  | none => [nameMark reference.register]
  | some index =>
    [nameMark reference.register, signMark .leftBracket, integerMark index,
      signMark .rightBracket]

/-- The marks of a header. -/
def GateHeader.marks (header : GateHeader) : List Mark :=
  appliedMarks header.name (header.params.map fun name => [nameMark name])
    (header.qubits.map fun name => [nameMark name])

/-- The marks of a gate call without its semicolon. -/
def GateCall.marks (call : GateCall) : List Mark :=
  appliedMarks call.name (call.params.map Expr.marks) (call.qubits.map RegisterRef.marks)

/-- The marks of a version number. -/
def versionMark (major minor : UInt32) : Mark :=
  ⟨versionToken major minor, versionText major minor⟩

/-- The mark of a path between quotes. -/
def pathMark (path : String) : Mark := ⟨.string path, "\"" ++ path ++ "\""⟩

/-- The marks of the lines of a statement. -/
def Statement.lineMarks : Statement → List (List Mark)
  | .version major minor _ =>
    [[keywordMark .version, versionMark major minor, signMark .semicolon]]
  | .inclusion path _ => [[keywordMark .inclusion, pathMark path, signMark .semicolon]]
  | .register kind name size _ =>
    [[keywordMark (registerWord kind), nameMark name, signMark .leftBracket, integerMark size,
      signMark .rightBracket, signMark .semicolon]]
  | .gate definition =>
    [keywordMark .gate :: (definition.header.marks ++ [signMark .leftBrace])] ++
      definition.body.map (fun call => call.marks ++ [signMark .semicolon]) ++
      [[signMark .rightBrace]]
  | .opaqueGate header _ =>
    [keywordMark .opaqueGate :: (header.marks ++ [signMark .semicolon])]
  | .call application => [application.marks ++ [signMark .semicolon]]
  | .measure source target _ =>
    [keywordMark .measure ::
      (source.marks ++ signMark .arrow :: (target.marks ++ [signMark .semicolon]))]
  | .reset target _ => [keywordMark .reset :: (target.marks ++ [signMark .semicolon])]
  | .barrier targets _ =>
    [keywordMark .barrier ::
      (commaMarks (targets.map RegisterRef.marks) ++ [signMark .semicolon])]
  | .condition name value application _ =>
    [keywordMark .condition :: signMark .leftParen :: nameMark name :: signMark .equals ::
      integerMark value :: signMark .rightParen :: (application.marks ++ [signMark .semicolon])]

/-- The marks of a statement. -/
def Statement.marks (statement : Statement) : List Mark := statement.lineMarks.flatten

/-- The marks of a program. -/
def Program.marks (program : Program) : List Mark :=
  program.statements.flatMap Statement.marks

/-! ### Scanning the text of a program -/

theorem RegisterRef.text_shows {reference : RegisterRef} (h : IsName reference.register) :
    Shows reference.text reference.marks := by
  intro rest hRest
  unfold RegisterRef.text RegisterRef.marks
  cases reference.index with
  | none => exact shows_name h rest hRest
  | some index =>
      have hText : (reference.register ++ "[" ++ toString index.toNat ++ "]").toList ++ rest =
          reference.register.toList ++
            '[' :: ((toString index.toNat).toList ++ ']' :: rest) := by simp
      simp only
      rw [hText, scan_name h (.cons (by decide) _), scan_leftBracket,
        scan_integer index (.cons (by decide) _), scan_rightBracket, Option.map_map,
        Option.map_map, Option.map_map]
      simp [nameMark, signMark, integerMark, Symbol.text, Function.comp_def]

theorem GateHeader.text_shows {header : GateHeader} (h : header.Legible) :
    Shows header.text header.marks := by
  have hText : header.text = applied header.name (header.params.map id) (header.qubits.map id) := by
    simp [GateHeader.text]
  rw [hText]
  exact shows_applied h.name (fun name hName => shows_name (h.params name hName))
    (fun name hName => shows_name (h.qubits name hName))

theorem GateCall.text_shows {call : GateCall} (h : call.Legible) :
    Shows call.text call.marks :=
  shows_applied h.name (fun e he => Expr.text_shows (h.params e he))
    (fun reference hReference => RegisterRef.text_shows (h.qubits reference hReference))

/-- A keyword and a blank in front of a text. -/
theorem scan_keyword_blank (word : Keyword) (rest : List Char) :
    scan (word.text.toList ++ ' ' :: rest) =
      (scan rest).map fun marks => keywordMark word :: marks := by
  rw [scan_keyword word (.cons (by decide) rest), scan_space]
  rfl

/-- A semicolon behind a text. -/
theorem Shows.semicolon {text : String} {marks : List Mark} (h : Shows text marks) :
    Shows (text ++ ";") (marks ++ [signMark .semicolon]) := by
  intro rest hRest
  have hText : (text ++ ";").toList ++ rest = text.toList ++ ';' :: rest := by simp
  rw [hText, h _ (.cons (by decide) rest), scan_semicolon, Option.map_map]
  simp [signMark, Symbol.text, Function.comp_def]

/-- A keyword in front of a text. -/
theorem Shows.keyword {text : String} {marks : List Mark} (word : Keyword)
    (h : Shows text marks) :
    Shows (word.text ++ " " ++ text) (keywordMark word :: marks) := by
  intro rest hRest
  have hText : (word.text ++ " " ++ text).toList ++ rest =
      word.text.toList ++ ' ' :: (text.toList ++ rest) := by simp
  rw [hText, scan_keyword_blank, h rest hRest, Option.map_map]
  rfl

/-- The lines of a statement show its marks line by line. -/
theorem Statement.lines_show {statement : Statement} (h : statement.Legible) :
    List.Forall₂ Shows statement.lines statement.lineMarks := by
  cases statement with
  | version major minor position =>
      refine .cons ?_ .nil
      have hVersion : Shows (versionText major minor) [versionMark major minor] := by
        intro rest hRest
        rw [scan_version major minor hRest]
        rfl
      have hShows := Shows.keyword .version hVersion.semicolon
      have hText : Keyword.version.text ++ " " ++ (versionText major minor ++ ";") =
          "OPENQASM " ++ toString major.toNat ++ "." ++ toString minor.toNat ++ ";" := by
        apply String.toList_inj.mp
        simp [Keyword.text, versionText]
      rwa [hText] at hShows
  | inclusion path position =>
      refine .cons ?_ .nil
      intro rest hRest
      have hText : ("include \"" ++ path ++ "\";").toList ++ rest =
          Keyword.inclusion.text.toList ++ ' ' :: '"' :: (path.toList ++ '"' :: ';' :: rest) := by
        simp [Keyword.text]
      rw [hText, scan_keyword_blank, scan_string h, scan_semicolon, Option.map_map, Option.map_map]
      simp [pathMark, signMark, Symbol.text, Function.comp_def]
  | register kind name size position =>
      refine .cons ?_ .nil
      intro rest hRest
      have hText : (kind.keyword ++ " " ++ name ++ "[" ++ toString size.toNat ++ "];").toList ++
          rest = (registerWord kind).text.toList ++ ' ' ::
            (name.toList ++ '[' :: ((toString size.toNat).toList ++ ']' :: ';' :: rest)) := by
        cases kind <;> simp [RegisterKind.keyword, registerWord, Keyword.text]
      rw [hText, scan_keyword_blank, scan_name h (.cons (by decide) _), scan_leftBracket,
        scan_integer size (.cons (by decide) _), scan_rightBracket, scan_semicolon, Option.map_map,
        Option.map_map, Option.map_map, Option.map_map, Option.map_map]
      simp [nameMark, integerMark, signMark, Symbol.text, Function.comp_def]
  | gate definition =>
      obtain ⟨hHeader, hBody⟩ := h
      refine List.rel_append (List.rel_append (.cons ?_ .nil) ?_) (.cons ?_ .nil)
      · intro rest hRest
        have hText : ("gate " ++ definition.header.text ++ " \x7b").toList ++ rest =
            Keyword.gate.text.toList ++
              ' ' :: (definition.header.text.toList ++ ' ' :: '\x7b' :: rest) := by
          simp [Keyword.text]
        rw [hText, scan_keyword_blank, GateHeader.text_shows hHeader _ (.cons (by decide) _),
          scan_space, scan_leftBrace, Option.map_map, Option.map_map]
        simp [signMark, Symbol.text, Function.comp_def]
      · rw [List.forall₂_map_left_iff, List.forall₂_map_right_iff, List.forall₂_same]
        intro call hCall rest hRest
        have hText : ("  " ++ call.text ++ ";").toList ++ rest =
            ' ' :: ' ' :: ((call.text ++ ";").toList ++ rest) := by simp
        rw [hText, scan_space, scan_space,
          (GateCall.text_shows (hBody call hCall)).semicolon rest hRest]
      · intro rest hRest
        have hText : "\x7d".toList ++ rest = '\x7d' :: rest := rfl
        rw [hText, scan_rightBrace]
        rfl
  | opaqueGate header position =>
      refine .cons ?_ .nil
      have hShows := Shows.keyword .opaqueGate (GateHeader.text_shows h).semicolon
      have hText : Keyword.opaqueGate.text ++ " " ++ (header.text ++ ";") =
          "opaque " ++ header.text ++ ";" := by
        apply String.toList_inj.mp
        simp [Keyword.text]
      rwa [hText] at hShows
  | call application => exact .cons (GateCall.text_shows h).semicolon .nil
  | measure source target position =>
      refine .cons ?_ .nil
      intro rest hRest
      have hText : ("measure " ++ source.text ++ " -> " ++ target.text ++ ";").toList ++ rest =
          Keyword.measure.text.toList ++ ' ' :: (source.text.toList ++
            ' ' :: '-' :: '>' :: ' ' :: ((target.text ++ ";").toList ++ rest)) := by
        simp [Keyword.text]
      rw [hText, scan_keyword_blank, RegisterRef.text_shows h.1 _ (.cons (by decide) _), scan_space,
        scan_arrow, scan_space, (RegisterRef.text_shows h.2).semicolon rest hRest, Option.map_map,
        Option.map_map, Option.map_map]
      simp [signMark, Symbol.text, Function.comp_def]
  | reset target position =>
      refine .cons ?_ .nil
      have hShows := Shows.keyword .reset (RegisterRef.text_shows h).semicolon
      have hText : Keyword.reset.text ++ " " ++ (target.text ++ ";") =
          "reset " ++ target.text ++ ";" := by
        apply String.toList_inj.mp
        simp [Keyword.text]
      rwa [hText] at hShows
  | barrier targets position =>
      refine .cons ?_ .nil
      have hTargets := shows_commaList fun target hTarget =>
        RegisterRef.text_shows (h.2 target hTarget)
      have hShows := Shows.keyword .barrier hTargets.semicolon
      have hText : Keyword.barrier.text ++ " " ++
          (commaList (targets.map RegisterRef.text) ++ ";") =
            "barrier " ++ commaList (targets.map RegisterRef.text) ++ ";" := by
        apply String.toList_inj.mp
        simp [Keyword.text]
      rwa [hText] at hShows
  | condition name value application position =>
      refine .cons ?_ .nil
      intro rest hRest
      have hText : ("if (" ++ name ++ " == " ++ toString value.toNat ++ ") " ++ application.text ++
          ";").toList ++ rest = Keyword.condition.text.toList ++ ' ' :: '(' :: (name.toList ++
            ' ' :: '=' :: '=' :: ' ' :: ((toString value.toNat).toList ++
              ')' :: ' ' :: ((application.text ++ ";").toList ++ rest))) := by
        simp [Keyword.text]
      rw [hText, scan_keyword_blank, scan_leftParen, scan_name h.1 (.cons (by decide) _),
        scan_space, scan_equals, scan_space, scan_integer value (.cons (by decide) _),
        scan_rightParen, scan_space, (GateCall.text_shows h.2).semicolon rest hRest,
        Option.map_map, Option.map_map, Option.map_map, Option.map_map, Option.map_map,
        Option.map_map]
      simp [nameMark, integerMark, signMark, Symbol.text, Function.comp_def]

/-- Lines are scanned one by one. -/
theorem scan_lines {lines : List String} {marks : List (List Mark)}
    (h : List.Forall₂ Shows lines marks) :
    scan (String.join (lines.map fun line => line ++ "\n")).toList = some marks.flatten := by
  induction h with
  | nil => simpa using scan_nil
  | cons hLine hLines ih =>
      rename_i line lineMarks lines marks
      have hText : (String.join ((line :: lines).map fun line => line ++ "\n")).toList =
          line.toList ++
            '\n' :: (String.join (lines.map fun line => line ++ "\n")).toList := by
        simp [String.toList_join]
      rw [hText, hLine _ (.cons (by decide) _), scan_lineFeed, ih]
      rfl

/-- **Scanning.**  The text of a legible program is scanned into its marks. -/
theorem Program.scan_text {program : Program} (h : program.Legible) :
    scan program.text.toList = some program.marks := by
  have hLines {statements : List Statement} (h : ∀ s ∈ statements, s.Legible) :
      List.Forall₂ Shows (statements.flatMap Statement.lines)
        (statements.flatMap Statement.lineMarks) := by
    induction statements with
    | nil => exact .nil
    | cons first others ih =>
        rw [List.flatMap_cons, List.flatMap_cons]
        exact List.rel_append (Statement.lines_show (h first (List.mem_cons_self ..)))
          (ih fun s hs => h s (List.mem_cons_of_mem _ hs))
  have hMarks : (program.statements.flatMap Statement.lineMarks).flatten = program.marks := by
    simp only [Program.marks, List.flatMap, List.flatten_flatten, List.map_map]
    rfl
  rw [Program.text, scan_lines (hLines h), hMarks]

/-! ### Deriving the text of a program -/

theorem exists_first_of_marks {mark : Mark} {marks : List Mark} {lexemes : List Lexeme}
    (h : lexemes.map Lexeme.mark = mark :: marks) :
    ∃ first rest, lexemes = first :: rest ∧ first.token = mark.token ∧
      rest.map Lexeme.mark = marks := by
  obtain ⟨first, rest, rfl, hFirst, hRest⟩ := List.map_eq_cons_iff.mp h
  exact ⟨first, rest, rfl, token_of_mark hFirst, hRest⟩

theorem exists_last_of_marks {mark : Mark} {marks : List Mark} {lexemes : List Lexeme}
    (h : lexemes.map Lexeme.mark = marks ++ [mark]) :
    ∃ front last, lexemes = front ++ [last] ∧ front.map Lexeme.mark = marks ∧
      last.token = mark.token := by
  obtain ⟨front, back, rfl, hFront, hBack⟩ := List.map_eq_append_iff.mp h
  obtain ⟨last, rfl, hLast⟩ := List.map_eq_singleton_iff.mp hBack
  exact ⟨front, last, rfl, hFront, token_of_mark hLast⟩

/-- A list of items is derived item by item. -/
theorem listed_of_marks {α β : Type} {marks : α → List Mark} {phrase : List Lexeme → β → Prop}
    {agrees : α → β → Prop} {items : List α} (hNonempty : items ≠ [])
    (h : ∀ item ∈ items, ∀ lexemes : List Lexeme, lexemes.map Lexeme.mark = marks item →
      ∃ value, phrase lexemes value ∧ agrees item value)
    {lexemes : List Lexeme} (hMarks : lexemes.map Lexeme.mark = commaMarks (items.map marks)) :
    ∃ values, Listed phrase lexemes values ∧ List.Forall₂ agrees items values := by
  induction items generalizing lexemes with
  | nil => exact absurd rfl hNonempty
  | cons first others ih =>
      cases others with
      | nil =>
          obtain ⟨value, hValue, hAgrees⟩ := h first (List.mem_cons_self ..) lexemes hMarks
          exact ⟨[value], .one hValue, .cons hAgrees .nil⟩
      | cons second more =>
          obtain ⟨front, back, rfl, hFront, hBack⟩ := List.map_eq_append_iff.mp hMarks
          obtain ⟨comma, behind, rfl, hComma, hBehind⟩ := exists_first_of_marks hBack
          obtain ⟨value, hValue, hAgrees⟩ := h first (List.mem_cons_self ..) front hFront
          obtain ⟨values, hValues, hAll⟩ := ih (by simp)
            (fun item hItem => h item (List.mem_cons_of_mem _ hItem)) hBehind
          exact ⟨value :: values, .more hValue hComma hValues, .cons hAgrees hAll⟩

/-- What is applied to something is derived part by part. -/
theorem applied_of_marks {α β α' β' : Type} {name : String} {marks : α → List Mark}
    {marks' : β → List Mark} {phrase : List Lexeme → α' → Prop} {phrase' : List Lexeme → β' → Prop}
    {agrees : α → α' → Prop} {agrees' : β → β' → Prop} {params : List α} {qubits : List β}
    (hNonempty : qubits ≠ [])
    (hParams : ∀ item ∈ params, ∀ lexemes : List Lexeme, lexemes.map Lexeme.mark = marks item →
      ∃ value, phrase lexemes value ∧ agrees item value)
    (hQubits : ∀ item ∈ qubits, ∀ lexemes : List Lexeme, lexemes.map Lexeme.mark = marks' item →
      ∃ value, phrase' lexemes value ∧ agrees' item value)
    {lexemes : List Lexeme}
    (hMarks : lexemes.map Lexeme.mark =
      appliedMarks name (params.map marks) (qubits.map marks')) :
    ∃ first second third params' qubits', lexemes = first :: (second ++ third) ∧
      first.token = .identifier name ∧ InParentheses phrase second params' ∧
        Listed phrase' third qubits' ∧ List.Forall₂ agrees params params' ∧
          List.Forall₂ agrees' qubits qubits' := by
  obtain ⟨first, others, rfl, hFirst, hOthers⟩ := exists_first_of_marks hMarks
  obtain ⟨second, third, rfl, hSecond, hThird⟩ := List.map_eq_append_iff.mp hOthers
  obtain ⟨qubits', hListed, hAgree⟩ := listed_of_marks hNonempty hQubits hThird
  by_cases hEmpty : params = []
  · subst hEmpty
    have hNil : second = [] := by simpa using hSecond
    subst hNil
    exact ⟨first, [], third, [], qubits', rfl, hFirst, .absent, hListed, .nil, hAgree⟩
  · rw [if_neg (by simpa using hEmpty)] at hSecond
    obtain ⟨opening, behind, rfl, hOpening, hBehind⟩ := exists_first_of_marks hSecond
    obtain ⟨inner, closing, rfl, hInner, hClosing⟩ := exists_last_of_marks hBehind
    obtain ⟨params', hGiven, hSame⟩ := listed_of_marks hEmpty hParams hInner
    exact ⟨first, opening :: (inner ++ [closing]), third, params', qubits', rfl, hFirst,
      .given hOpening hGiven hClosing, hListed, hSame, hAgree⟩

/-- Lists that agree item by item without their places are equal without them. -/
theorem map_eq_of_forall₂ {α β : Type} {f : α → β} {items values : List α}
    (h : List.Forall₂ (fun item value => f value = f item) items values) :
    values.map f = items.map f := by
  induction h with
  | nil => rfl
  | cons hHead hTail ih => rw [List.map_cons, List.map_cons, hHead, ih]

theorem eq_of_forall₂ {α : Type} {items values : List α} (h : List.Forall₂ Eq items values) :
    items = values := by
  rwa [List.forall₂_eq_eq_eq] at h

theorem isFormal_of_marks {name : String} {lexemes : List Lexeme}
    (h : lexemes.map Lexeme.mark = [nameMark name]) :
    ∃ found, IsFormal lexemes found ∧ name = found := by
  obtain ⟨lexeme, rfl, hMark⟩ := List.map_eq_singleton_iff.mp h
  exact ⟨name, .mk (token_of_mark hMark), rfl⟩

theorem RegisterRef.isReference_of_marks {reference : RegisterRef} {lexemes : List Lexeme}
    (h : lexemes.map Lexeme.mark = reference.marks) :
    ∃ found, IsReference lexemes found ∧ found.erased = reference.erased := by
  obtain ⟨register, index, position⟩ := reference
  cases index with
  | none =>
      obtain ⟨name, rfl, hName⟩ := List.map_eq_singleton_iff.mp h
      exact ⟨_, .whole (token_of_mark hName), rfl⟩
  | some index =>
      obtain ⟨name, others, rfl, hName, hOthers⟩ := exists_first_of_marks h
      obtain ⟨opening, more, rfl, hOpening, hMore⟩ := exists_first_of_marks hOthers
      obtain ⟨number, last, rfl, hNumber, hLast⟩ := exists_first_of_marks hMore
      obtain ⟨closing, rfl, hClosing⟩ := List.map_eq_singleton_iff.mp hLast
      exact ⟨_, .element hName hOpening hNumber (token_of_mark hClosing), rfl⟩

theorem GateHeader.isHeader_of_marks {header : GateHeader} (h : header.Legible)
    {lexemes : List Lexeme} (hMarks : lexemes.map Lexeme.mark = header.marks) :
    IsHeader lexemes header := by
  obtain ⟨first, second, third, params, qubits, rfl, hName, hParams, hQubits, hSame, hSame'⟩ :=
    applied_of_marks h.qubits_ne_nil (fun name _ _ hMark => isFormal_of_marks hMark)
      (fun name _ _ hMark => isFormal_of_marks hMark) hMarks
  rw [← eq_of_forall₂ hSame] at hParams
  rw [← eq_of_forall₂ hSame'] at hQubits
  exact .mk hName hParams hQubits

/-- The lexemes are derived as the expression, with the nesting of its own text. -/
def IsPrinted (lexemes : List Lexeme) (e : Expr) : Prop := Derives 0 lexemes e e.cost

theorem Expr.isPrinted_of_marks {e : Expr} (h : e.Legible) {lexemes : List Lexeme}
    (hMarks : lexemes.map Lexeme.mark = e.marks) : IsPrinted lexemes e :=
  (derives_of_marks h hMarks).loosen (Nat.zero_le _)

theorem GateCall.isCall_of_marks {call : GateCall} (h : call.Legible) {lexemes : List Lexeme}
    (hMarks : lexemes.map Lexeme.mark = call.marks) :
    ∃ found, IsCall IsPrinted lexemes found ∧ found.erased = call.erased := by
  obtain ⟨first, second, third, params, qubits, rfl, hName, hParams, hQubits, hSame, hAgree⟩ :=
    applied_of_marks h.qubits_ne_nil
      (fun e he _ hMark => ⟨e, Expr.isPrinted_of_marks (h.params e he) hMark, rfl⟩)
      (fun _ _ _ hMark => RegisterRef.isReference_of_marks hMark) hMarks
  refine ⟨_, .mk hName hParams hQubits, ?_⟩
  rw [GateCall.erased, GateCall.erased, eq_of_forall₂ hSame, map_eq_of_forall₂ hAgree]

/-- The body of a definition is derived call by call. -/
theorem isBody_of_marks {calls : List GateCall} (h : ∀ call ∈ calls, call.Legible)
    {lexemes : List Lexeme} (hMarks : lexemes.map Lexeme.mark =
      calls.flatMap fun call => call.marks ++ [signMark .semicolon]) :
    ∃ found, IsBody IsPrinted lexemes found ∧
      found.map GateCall.erased = calls.map GateCall.erased := by
  induction calls generalizing lexemes with
  | nil =>
      have hNil : lexemes = [] := by simpa using hMarks
      subst hNil
      exact ⟨[], .nil, rfl⟩
  | cons call others ih =>
      rw [List.flatMap_cons, List.append_assoc, List.singleton_append] at hMarks
      obtain ⟨front, back, rfl, hFront, hBack⟩ := List.map_eq_append_iff.mp hMarks
      obtain ⟨semicolon, behind, rfl, hSemicolon, hBehind⟩ := exists_first_of_marks hBack
      obtain ⟨first, hFirst, hErased⟩ :=
        GateCall.isCall_of_marks (h call (List.mem_cons_self ..)) hFront
      obtain ⟨found, hFound, hRest⟩ := ih (fun c hc => h c (List.mem_cons_of_mem _ hc)) hBehind
      exact ⟨first :: found, .cons hFirst hSemicolon hFound, by simp [hErased, hRest]⟩

theorem isVersionPart_digitsOf (value : UInt32) :
    IsVersionPart (Decimal.digitsOf value.toNat) value where
  isDigits := ⟨Decimal.digitsOf_ne_nil _, fun _ hc => Decimal.isDigit_of_mem_digitsOf hc⟩
  value := Decimal.ofDigits_digitsOf _

theorem isVersion_of_mark {lexeme : Lexeme} {major minor : UInt32}
    (h : lexeme.mark = versionMark major minor) : IsVersion lexeme major minor := by
  have hText : lexeme.text = versionText major minor := congrArg Mark.text h
  have hChars : (versionText major minor).toList =
      Decimal.digitsOf major.toNat ++ '.' :: Decimal.digitsOf minor.toNat := by
    simp [versionText, Decimal.digitsOf]
  refine ⟨Or.inr (by rw [token_of_mark h]; rfl), ?_⟩
  rw [hText, hChars]
  exact .pointed (isVersionPart_digitsOf major) (isVersionPart_digitsOf minor)

/-- **Deriving.**  Lexemes with the marks of a statement are derived as the statement, but for
its places. -/
theorem Statement.isStatement_of_marks {statement : Statement} (h : statement.Legible)
    {lexemes : List Lexeme} (hMarks : lexemes.map Lexeme.mark = statement.marks) :
    ∃ found, IsStatement IsPrinted lexemes found ∧ found.erased = statement.erased := by
  cases statement with
  | version major minor position =>
      obtain ⟨word, _, rfl, hWord, hMarks⟩ := exists_first_of_marks hMarks
      -- the text of the number counts, too
      obtain ⟨number, _, rfl, hNumber, hMarks⟩ := List.map_eq_cons_iff.mp hMarks
      obtain ⟨semicolon, rfl, hSemicolon⟩ := List.map_eq_singleton_iff.mp hMarks
      exact ⟨_, .version hWord (isVersion_of_mark hNumber) (token_of_mark hSemicolon), rfl⟩
  | inclusion path position =>
      obtain ⟨word, _, rfl, hWord, hMarks⟩ := exists_first_of_marks hMarks
      obtain ⟨content, _, rfl, hContent, hMarks⟩ := exists_first_of_marks hMarks
      obtain ⟨semicolon, rfl, hSemicolon⟩ := List.map_eq_singleton_iff.mp hMarks
      exact ⟨_, .inclusion hWord hContent (token_of_mark hSemicolon), rfl⟩
  | register kind name size position =>
      obtain ⟨word, _, rfl, hWord, hMarks⟩ := exists_first_of_marks hMarks
      obtain ⟨register, _, rfl, hName, hMarks⟩ := exists_first_of_marks hMarks
      obtain ⟨opening, _, rfl, hOpening, hMarks⟩ := exists_first_of_marks hMarks
      obtain ⟨number, _, rfl, hNumber, hMarks⟩ := exists_first_of_marks hMarks
      obtain ⟨closing, _, rfl, hClosing, hMarks⟩ := exists_first_of_marks hMarks
      obtain ⟨semicolon, rfl, hSemicolon⟩ := List.map_eq_singleton_iff.mp hMarks
      exact ⟨_, .register hWord hName hOpening hNumber hClosing (token_of_mark hSemicolon), rfl⟩
  | gate definition =>
      obtain ⟨hHeader, hBody⟩ := h
      have hSplit : (Statement.gate definition).marks = keywordMark .gate ::
          (definition.header.marks ++ signMark .leftBrace ::
            ((definition.body.flatMap fun call => call.marks ++ [signMark .semicolon]) ++
              [signMark .rightBrace])) := by
        simp [Statement.marks, Statement.lineMarks, List.flatMap]
      rw [hSplit] at hMarks
      obtain ⟨word, _, rfl, hWord, hMarks⟩ := exists_first_of_marks hMarks
      obtain ⟨front, _, rfl, hFront, hMarks⟩ := List.map_eq_append_iff.mp hMarks
      obtain ⟨opening, _, rfl, hOpening, hMarks⟩ := exists_first_of_marks hMarks
      obtain ⟨inner, closing, rfl, hInner, hClosing⟩ := exists_last_of_marks hMarks
      obtain ⟨calls, hFound, hErased⟩ := isBody_of_marks hBody hInner
      exact ⟨_, .gate hWord (GateHeader.isHeader_of_marks hHeader hFront) hOpening hFound hClosing,
        by simp [Statement.erased, GateDefinition.erased, hErased]⟩
  | opaqueGate header position =>
      have hSplit : (Statement.opaqueGate header position).marks = keywordMark .opaqueGate ::
          (header.marks ++ [signMark .semicolon]) := by
        simp [Statement.marks, Statement.lineMarks]
      rw [hSplit] at hMarks
      obtain ⟨word, _, rfl, hWord, hMarks⟩ := exists_first_of_marks hMarks
      obtain ⟨front, semicolon, rfl, hFront, hSemicolon⟩ := exists_last_of_marks hMarks
      exact ⟨_, .opaqueGate hWord (GateHeader.isHeader_of_marks h hFront) hSemicolon, rfl⟩
  | call application =>
      have hSplit : (Statement.call application).marks =
          application.marks ++ [signMark .semicolon] := by
        simp [Statement.marks, Statement.lineMarks]
      rw [hSplit] at hMarks
      obtain ⟨front, semicolon, rfl, hFront, hSemicolon⟩ := exists_last_of_marks hMarks
      obtain ⟨found, hFound, hErased⟩ := GateCall.isCall_of_marks h hFront
      exact ⟨_, .call hFound hSemicolon, by simp [Statement.erased, hErased]⟩
  | measure source target position =>
      have hSplit : (Statement.measure source target position).marks = keywordMark .measure ::
          (source.marks ++ signMark .arrow :: (target.marks ++ [signMark .semicolon])) := by
        simp [Statement.marks, Statement.lineMarks]
      rw [hSplit] at hMarks
      obtain ⟨word, _, rfl, hWord, hMarks⟩ := exists_first_of_marks hMarks
      obtain ⟨front, _, rfl, hFront, hMarks⟩ := List.map_eq_append_iff.mp hMarks
      obtain ⟨arrow, _, rfl, hArrow, hMarks⟩ := exists_first_of_marks hMarks
      obtain ⟨back, semicolon, rfl, hBack, hSemicolon⟩ := exists_last_of_marks hMarks
      obtain ⟨first, hFirst, hErased⟩ := RegisterRef.isReference_of_marks hFront
      obtain ⟨second, hSecond, hErased'⟩ := RegisterRef.isReference_of_marks hBack
      exact ⟨_, .measure hWord hFirst hArrow hSecond hSemicolon,
        by simp [Statement.erased, hErased, hErased']⟩
  | reset target position =>
      have hSplit : (Statement.reset target position).marks = keywordMark .reset ::
          (target.marks ++ [signMark .semicolon]) := by
        simp [Statement.marks, Statement.lineMarks]
      rw [hSplit] at hMarks
      obtain ⟨word, _, rfl, hWord, hMarks⟩ := exists_first_of_marks hMarks
      obtain ⟨front, semicolon, rfl, hFront, hSemicolon⟩ := exists_last_of_marks hMarks
      obtain ⟨found, hFound, hErased⟩ := RegisterRef.isReference_of_marks hFront
      exact ⟨_, .reset hWord hFound hSemicolon,
        by simp [Statement.erased, hErased]⟩
  | barrier targets position =>
      have hSplit : (Statement.barrier targets position).marks = keywordMark .barrier ::
          (commaMarks (targets.map RegisterRef.marks) ++ [signMark .semicolon]) := by
        simp [Statement.marks, Statement.lineMarks]
      rw [hSplit] at hMarks
      obtain ⟨word, _, rfl, hWord, hMarks⟩ := exists_first_of_marks hMarks
      obtain ⟨front, semicolon, rfl, hFront, hSemicolon⟩ := exists_last_of_marks hMarks
      obtain ⟨found, hFound, hAgree⟩ := listed_of_marks h.1
        (fun _ _ _ hMark => RegisterRef.isReference_of_marks hMark) hFront
      exact ⟨_, .barrier hWord hFound hSemicolon,
        by simp [Statement.erased, map_eq_of_forall₂ hAgree]⟩
  | condition name value application position =>
      have hSplit : (Statement.condition name value application position).marks =
          keywordMark .condition :: signMark .leftParen :: nameMark name :: signMark .equals ::
            integerMark value :: signMark .rightParen ::
              (application.marks ++ [signMark .semicolon]) := by
        simp [Statement.marks, Statement.lineMarks]
      rw [hSplit] at hMarks
      obtain ⟨word, _, rfl, hWord, hMarks⟩ := exists_first_of_marks hMarks
      obtain ⟨opening, _, rfl, hOpening, hMarks⟩ := exists_first_of_marks hMarks
      obtain ⟨register, _, rfl, hName, hMarks⟩ := exists_first_of_marks hMarks
      obtain ⟨equals, _, rfl, hEquals, hMarks⟩ := exists_first_of_marks hMarks
      obtain ⟨number, _, rfl, hNumber, hMarks⟩ := exists_first_of_marks hMarks
      obtain ⟨closing, _, rfl, hClosing, hMarks⟩ := exists_first_of_marks hMarks
      obtain ⟨front, semicolon, rfl, hFront, hSemicolon⟩ := exists_last_of_marks hMarks
      obtain ⟨found, hFound, hErased⟩ := GateCall.isCall_of_marks h.2 hFront
      exact ⟨_, .condition hWord hOpening hName hEquals hNumber hClosing hFound hSemicolon,
        by simp [Statement.erased, hErased]⟩

/-- Lexemes with the marks of a program are derived as the program, but for its places. -/
theorem Program.isProgram_of_marks {program : Program} (h : program.Legible)
    {lexemes : List Lexeme} (hMarks : lexemes.map Lexeme.mark = program.marks) :
    ∃ found : Program, IsProgram IsPrinted lexemes found.statements ∧
      found.erased = program.erased := by
  obtain ⟨statements⟩ := program
  simp only [Legible, marks] at h hMarks
  induction statements generalizing lexemes with
  | nil =>
      have hNil : lexemes = [] := by simpa using hMarks
      subst hNil
      exact ⟨⟨[]⟩, .nil, rfl⟩
  | cons first others ih =>
      rw [List.flatMap_cons] at hMarks
      obtain ⟨front, back, rfl, hFront, hBack⟩ := List.map_eq_append_iff.mp hMarks
      obtain ⟨statement, hStatement, hErased⟩ :=
        Statement.isStatement_of_marks (h first (List.mem_cons_self ..)) hFront
      obtain ⟨found, hFound, hRest⟩ := ih (fun s hs => h s (List.mem_cons_of_mem _ hs)) hBack
      refine ⟨⟨statement :: found.statements⟩, .cons hStatement hFound, ?_⟩
      simp only [erased, Program.mk.injEq] at hRest ⊢
      rw [List.map_cons, List.map_cons, hErased, hRest]

end QuantumCircuit
