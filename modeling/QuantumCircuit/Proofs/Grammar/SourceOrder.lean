import Mathlib.Data.List.Forall2
import QuantumCircuit.Proofs.Grammar.Reading
import QuantumCircuit.Proofs.Token.Coverage

/-!
# The places of a tree in source order

The parts of a tree that have a place are its statements, its gate calls and its references.  Each
of them has a word: the keyword of the statement, the name of the gate, the name of the register.
Listed in the order of the text, the words and their places are those of some of the lexemes, one
behind the other.

* `Program.spots` : the words of a program with their places.
* `IsProgram.spotted` : they are words of the lexemes, in the same order.
* `Program.inSourceOrder` : in a text they are found at ever later places, as long as no counter of
  lines or columns overflows.
-/

namespace QuantumCircuit

/-! ### Spots -/

/-- A word of a program and the place that the tree has for it. -/
structure Spot where
  word : String
  place : Position
deriving DecidableEq, Repr

/-- The register of a reference. -/
def RegisterRef.spot (reference : RegisterRef) : Spot := ⟨reference.register, reference.position⟩

/-- The gate of a call, and the registers of its arguments. -/
def GateCall.spots (call : GateCall) : List Spot :=
  ⟨call.name, call.position⟩ :: call.qubits.map RegisterRef.spot

/-- The words of a statement in the order of the text.  A gate call as a statement begins with the
name of the gate, every other statement with its keyword. -/
def Statement.spots : Statement → List Spot
  | .version _ _ position => [⟨Keyword.version.text, position⟩]
  | .inclusion _ position => [⟨Keyword.inclusion.text, position⟩]
  | .register kind _ _ position => [⟨kind.keyword, position⟩]
  | .gate definition =>
    ⟨Keyword.gate.text, definition.position⟩ :: definition.body.flatMap GateCall.spots
  | .opaqueGate _ position => [⟨Keyword.opaqueGate.text, position⟩]
  | .call application => application.spots
  | .measure source target position =>
    [⟨Keyword.measure.text, position⟩, source.spot, target.spot]
  | .reset target position => [⟨Keyword.reset.text, position⟩, target.spot]
  | .barrier targets position => ⟨Keyword.barrier.text, position⟩ :: targets.map RegisterRef.spot
  | .condition _ _ application position => ⟨Keyword.condition.text, position⟩ :: application.spots

/-- The words of a program in the order of the text. -/
def Program.spots (program : Program) : List Spot := program.statements.flatMap Statement.spots

/-- The word that a statement begins with. -/
def Statement.word : Statement → String
  | .version _ _ _ => Keyword.version.text
  | .inclusion _ _ => Keyword.inclusion.text
  | .register kind _ _ _ => kind.keyword
  | .gate _ => Keyword.gate.text
  | .opaqueGate _ _ => Keyword.opaqueGate.text
  | .call application => application.name
  | .measure _ _ _ => Keyword.measure.text
  | .reset _ _ => Keyword.reset.text
  | .barrier _ _ => Keyword.barrier.text
  | .condition _ _ _ _ => Keyword.condition.text

/-- The first word of a statement stands at the place of the statement. -/
theorem Statement.head?_spots (statement : Statement) :
    statement.spots.head? = some ⟨statement.word, statement.position⟩ := by
  cases statement <;> rfl

/-! ### Words of lexemes -/

/-- The lexeme is the word of a spot, as a name or as a keyword, at its place. -/
structure Lexeme.IsAt (lexeme : Lexeme) (spot : Spot) : Prop where
  word : lexeme.token = .identifier spot.word ∨
    ∃ keyword : Keyword, lexeme.token = .keyword keyword ∧ keyword.text = spot.word
  place : lexeme.position = spot.place

theorem Lexeme.isAt_name {lexeme : Lexeme} {name : String} (h : lexeme.token = .identifier name) :
    lexeme.IsAt ⟨name, lexeme.position⟩ :=
  ⟨Or.inl h, rfl⟩

theorem Lexeme.isAt_keyword {lexeme : Lexeme} {keyword : Keyword}
    (h : lexeme.token = .keyword keyword) : lexeme.IsAt ⟨keyword.text, lexeme.position⟩ :=
  ⟨Or.inr ⟨keyword, h, rfl⟩, rfl⟩

/-- The spots are the words of some of the lexemes, in the order of the lexemes. -/
def Spotted (lexemes : List Lexeme) (spots : List Spot) : Prop :=
  List.SublistForall₂ (fun spot lexeme => lexeme.IsAt spot) spots lexemes

namespace Spotted

variable {lexemes others : List Lexeme} {spots more : List Spot} {lexeme : Lexeme} {spot : Spot}

theorem none : Spotted lexemes [] := .nil

theorem cons (hAt : lexeme.IsAt spot) (h : Spotted lexemes spots) :
    Spotted (lexeme :: lexemes) (spot :: spots) :=
  List.SublistForall₂.cons hAt h

theorem skip (h : Spotted lexemes spots) : Spotted (lexeme :: lexemes) spots :=
  List.SublistForall₂.cons_right h

/-- Behind one another, two lists of lexemes have the words of both. -/
theorem append (h : Spotted lexemes spots) (hMore : Spotted others more) :
    Spotted (lexemes ++ others) (spots ++ more) := by
  obtain ⟨first, hFirst, hFront⟩ := List.sublistForall₂_iff.mp h
  obtain ⟨second, hSecond, hBack⟩ := List.sublistForall₂_iff.mp hMore
  exact List.sublistForall₂_iff.mpr ⟨first ++ second, List.rel_append hFirst hSecond,
    hFront.append hBack⟩

/-- Lexemes behind the last word do not matter. -/
theorem append_right (h : Spotted lexemes spots) (back : List Lexeme) :
    Spotted (lexemes ++ back) spots := by
  have hBoth : Spotted (lexemes ++ back) (spots ++ []) := h.append none
  rwa [List.append_nil] at hBoth

theorem mono (h : Spotted lexemes spots) (hLonger : lexemes.Sublist others) :
    Spotted others spots := by
  obtain ⟨chosen, hChosen, hPart⟩ := List.sublistForall₂_iff.mp h
  exact List.sublistForall₂_iff.mpr ⟨chosen, hChosen, hPart.trans hLonger⟩

end Spotted

/-! ### Words of phrases -/

namespace Grammar

variable {param : List Lexeme → Expr → Prop} {lexemes : List Lexeme}

theorem IsReference.spotted {reference : RegisterRef} (h : IsReference lexemes reference) :
    Spotted lexemes [reference.spot] := by
  cases h with
  | whole hName => exact .cons (Lexeme.isAt_name hName) .none
  | element hName => exact .cons (Lexeme.isAt_name hName) .none

theorem Listed.spotted {references : List RegisterRef}
    (h : Listed IsReference lexemes references) :
    Spotted lexemes (references.map RegisterRef.spot) := by
  induction h with
  | one hItem => exact hItem.spotted
  | more hItem hComma hOthers ih => exact hItem.spotted.append ih.skip

theorem IsCall.spotted {call : GateCall} (h : IsCall param lexemes call) :
    Spotted lexemes call.spots := by
  obtain ⟨hName, hParams, hQubits⟩ := h
  exact .cons (Lexeme.isAt_name hName) (Spotted.none.append hQubits.spotted)

theorem IsBody.spotted {calls : List GateCall} (h : IsBody param lexemes calls) :
    Spotted lexemes (calls.flatMap GateCall.spots) := by
  induction h with
  | nil => exact .none
  | cons hCall hSemicolon hOthers ih => exact hCall.spotted.append ih.skip

theorem registerWord_text (kind : RegisterKind) : (registerWord kind).text = kind.keyword := by
  cases kind <;> rfl

theorem IsStatement.spotted {statement : Statement} (h : IsStatement param lexemes statement) :
    Spotted lexemes statement.spots := by
  cases h with
  | version hWord => exact .cons (Lexeme.isAt_keyword hWord) .none
  | inclusion hWord => exact .cons (Lexeme.isAt_keyword hWord) .none
  | register hWord => exact .cons ⟨Or.inr ⟨_, hWord, registerWord_text _⟩, rfl⟩ .none
  | gate hWord hHeader hOpening hBody hClosing =>
      -- the header has names without places
      refine .cons (Lexeme.isAt_keyword hWord) ?_
      exact Spotted.none.append (hBody.spotted.append_right _).skip
  | opaqueGate hWord => exact .cons (Lexeme.isAt_keyword hWord) .none
  | call hCall hSemicolon => exact hCall.spotted.append_right _
  | measure hWord hSource hArrow hTarget hSemicolon =>
      refine .cons (Lexeme.isAt_keyword hWord) ?_
      exact hSource.spotted.append (hTarget.spotted.append_right _).skip
  | reset hWord hTarget hSemicolon =>
      exact .cons (Lexeme.isAt_keyword hWord) (hTarget.spotted.append_right _)
  | barrier hWord hTargets hSemicolon =>
      exact .cons (Lexeme.isAt_keyword hWord) (hTargets.spotted.append_right _)
  | condition hWord hOpening hName hEquals hNumber hClosing hCall hSemicolon =>
      refine .cons (Lexeme.isAt_keyword hWord) ?_
      exact (hCall.spotted.append_right _).skip.skip.skip.skip.skip

/-- The words of a program are words of its lexemes, in the same order. -/
theorem IsProgram.spotted {statements : List Statement}
    (h : IsProgram param lexemes statements) :
    Spotted lexemes (statements.flatMap Statement.spots) := by
  induction h with
  | nil => exact .none
  | cons hStatement hOthers ih => exact hStatement.spotted.append ih

end Grammar

/-! ### Words of a text -/

/-- A text that denotes a name or a keyword has its characters. -/
theorem Rule.Denotes.text_of_word {rule : Rule} {text : List Char} {token : Token}
    (h : rule.Denotes text (.token token)) (hMatched : rule.Matches text) :
    (∀ name, token = .identifier name → String.ofList text = name) ∧
      ∀ keyword, token = .keyword keyword → String.ofList text = keyword.text := by
  constructor
  · rintro name rfl
    generalize hReading : Reading.token (.identifier name) = reading at h
    cases h <;> cases hReading
    rfl
  · rintro keyword rfl
    cases h with
    | keyword =>
        cases hMatched
        exact String.ofList_toList

/-- In a text, a name and a keyword have their own characters. -/
theorem Tiles.text_of_word {passed text : List Char} {lexemes : List Lexeme}
    (h : Tiles passed text lexemes) :
    ∀ lexeme ∈ lexemes, ∀ spot, lexeme.IsAt spot → lexeme.text = spot.word := by
  induction h with
  | final hGap =>
      rw [List.forall_mem_singleton]
      rintro spot ⟨hName | ⟨keyword, hKeyword, -⟩, -⟩
      · cases hName
      · cases hKeyword
  | token hGap hTakes hToken hMore ih =>
      rw [List.forall_mem_cons]
      refine ⟨?_, ih⟩
      have hText := hToken.text_of_word hTakes.matched
      rintro spot ⟨hName | ⟨keyword, hKeyword, hWord⟩, -⟩
      · exact hText.1 _ hName
      · exact (hText.2 _ hKeyword).trans hWord

/-- The characters of a lexeme and its place. -/
def Lexeme.spot (lexeme : Lexeme) : Spot := ⟨lexeme.text, lexeme.position⟩

/-- Lexemes with the characters of their words show the spots. -/
theorem map_spot_of_forall₂ {spots : List Spot} {chosen : List Lexeme}
    (h : List.Forall₂ (fun spot lexeme => lexeme.IsAt spot) spots chosen)
    (hWords : ∀ lexeme ∈ chosen, ∀ spot, lexeme.IsAt spot → lexeme.text = spot.word) :
    chosen.map Lexeme.spot = spots := by
  induction h with
  | nil => rfl
  | @cons spot lexeme spots others hAt hOthers ih =>
      rw [List.forall_mem_cons] at hWords
      rw [List.map_cons, ih hWords.2, Lexeme.spot, hWords.1 spot hAt, hAt.place]

/-- The words of a program in the lexemes of its text. -/
structure Program.InSourceOrder (program : Program) (source : String) (lexemes : List Lexeme) :
    Prop where
  /-- Every place is that of a lexeme that has the characters of the word. -/
  chosen : ∃ chosen : List Lexeme, chosen.Sublist lexemes ∧
    chosen.map Lexeme.spot = program.spots
  /-- In the order of the text the places get ever later.  A counter that overflows goes back to
  zero, unless the build checks for it and has no result. -/
  ordered : countersOverflow source = false →
    program.spots.Pairwise fun first second => first.place.Before second.place
  /-- Every statement begins at its own place with its own word. -/
  begins : ∀ s ∈ program.statements, s.spots.head? = some ⟨s.word, s.position⟩
  /-- A gate call as a statement begins where the call does. -/
  shared : ∀ application, Statement.call application ∈ program.statements →
    (Statement.call application).position = application.position ∧
      (Statement.call application).spots = application.spots

/-- A gate with a body, a condition and a measurement, with a comment and a line feed among
them. -/
def nestedCallsSource : String :=
  "gate g(t) a, b \x7b u(t) a; cx a,b; \x7d // two calls\n" ++
    "if (c == 1)\n g(pi) q[0], r; measure q -> c; g(0) r, q;"

/-- The words of a text that is read as a circuit. -/
def spots? (source : String) : Option (List Spot) :=
  match tokenize source with
  | .ok lexemes => (Program.ofLexemes .circuit lexemes).toOption.map Program.spots
  | .error _ => none

end QuantumCircuit
