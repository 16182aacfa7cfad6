import QuantumCircuit.Parsing
import QuantumCircuit.Proofs.Token.Scan

/-!
# The tokens of a text

Not every token can stand in a text.  `Token.Proper` collects what is known about those that
can, and `scan_proper` derives it from the shapes of the pieces.  In particular no piece is
the end of the input, so that the lexemes in front of it are all the others
(`properLexemes_marks`).
-/

namespace QuantumCircuit

/-- What is known about a token that stands in a text: an identifier is a name, a real number
is finite and has no sign, and a string is closed on its line. -/
def Token.Proper : Token → Prop
  | .identifier name => IsName name
  | .real value => value.isFinite = true ∧ value.isNegative = false
  | .string content => ∀ c ∈ content.toList, isStringChar c = true
  | .endOfInput => False
  | _ => True

/-- The pieces that are words and strings have the characters of words and strings. -/
structure Piece.Shaped (piece : Piece) : Prop where
  word : piece.pattern = .word → IsWord (String.ofList piece.text)
  string : piece.pattern = .string → ∀ c ∈ (piece.text.drop 1).dropLast, isStringChar c = true

theorem Piece.Shaped.of_other {piece : Piece} (hWord : piece.pattern ≠ .word)
    (hString : piece.pattern ≠ .string) : piece.Shaped :=
  ⟨fun h => absurd h hWord, fun h => absurd h hString⟩

theorem cutNumber_shaped (text : List Char) : (cutNumber text).1.Shaped := by
  unfold cutNumber
  dsimp only
  split
  · exact .of_other (by simp) (by simp)
  · split
    · exact .of_other (by simp) (by simp)
    · exact .of_other (by simp) (by simp)

theorem cutSymbol_shaped {text rest : List Char} {piece : Piece}
    (h : cutSymbol text = some (piece, rest)) : piece.Shaped := by
  unfold cutSymbol at h
  split at h <;> cases h <;> exact .of_other (by simp) (by simp)

theorem cut?_shaped {text rest : List Char} {piece : Piece}
    (h : cut? text = some (piece, rest)) : piece.Shaped := by
  cases text with
  | nil => cases h
  | cons c tail =>
      simp only [cut?] at h
      split at h
      · cases h
        exact .of_other (by simp) (by simp)
      split at h
      · rename_i hAlpha
        cases h
        refine ⟨fun _ => ⟨⟨c, tail.takeWhile isWordChar, ?_, hAlpha⟩, ?_⟩, by simp⟩
        · -- the first letter is a character of the word, so that taking characters starts with it
          have hWordChar : isWordChar c = true := by simp [isWordChar, Char.isAlphanum, hAlpha]
          simp [hWordChar]
        · intro d hd
          rw [String.toList_ofList] at hd
          exact List.mem_takeWhile_imp hd
      split at h
      · have hNumber := cutNumber_shaped (c :: tail)
        injection h with h
        rwa [h] at hNumber
      split at h
      · simp only [cutFraction] at h
        split at h <;> cases h
        exact .of_other (by simp) (by simp)
      split at h
      · simp only [cutString] at h
        split at h <;> cases h
        refine ⟨by simp, fun _ d hd => ?_⟩
        simp only [List.cons_append, List.drop_one, List.tail_cons, List.dropLast_concat] at hd
        exact List.mem_takeWhile_imp hd
      split at h
      · cases h
        exact .of_other (by simp) (by simp)
      · exact cutSymbol_shaped h

theorem wordToken_proper {word : String} (hWord : IsWord word) : (wordToken word).Proper := by
  cases hToken : wordToken word with
  | identifier name =>
      have hName : name = word := by
        unfold wordToken at hToken
        split at hToken
        · cases hToken
        · split at hToken
          · cases hToken
          · cases hToken
            rfl
      subst hName
      exact isName_iff.mpr ⟨hWord, hToken⟩
  | keyword keyword => trivial
  | function f => trivial
  | _ =>
      -- a word is read as nothing else
      unfold wordToken at hToken
      split at hToken
      · cases hToken
      · split at hToken <;> cases hToken

theorem Piece.Shaped.reading_proper {piece : Piece} (h : piece.Shaped) {token : Token}
    (hReading : piece.reading = .token token) : token.Proper := by
  obtain ⟨pattern, text⟩ := piece
  cases pattern with
  | blank => cases hReading
  | comment => cases hReading
  | word =>
      cases hReading
      exact wordToken_proper (h.word rfl)
  | integer =>
      simp only [Piece.reading] at hReading
      split at hReading <;> cases hReading
      trivial
  | real =>
      simp only [Piece.reading] at hReading
      split at hReading <;> cases hReading
      rename_i hFinite
      exact ⟨hFinite, Decimal.isNegative_toBinary64 _⟩
  | string =>
      cases hReading
      intro c hc
      rw [String.toList_ofList] at hc
      exact h.string rfl c hc
  | symbol sign =>
      cases hReading
      trivial

theorem mem_pieces_shaped (text : List Char) : ∀ piece ∈ (pieces text).1, piece.Shaped := by
  fun_induction pieces text with
  | case1 => simp
  | case2 text found rest hCut more unread hMore ih =>
      intro piece hPiece
      rw [List.mem_cons] at hPiece
      rcases hPiece with rfl | hPiece
      · exact cut?_shaped hCut
      · rw [hMore] at ih
        exact ih piece hPiece

theorem marksOf_proper {found : List Piece} {marks : List Mark} (h : marksOf found = some marks)
    (hShaped : ∀ piece ∈ found, piece.Shaped) : ∀ mark ∈ marks, mark.token.Proper := by
  induction found generalizing marks with
  | nil =>
      cases h
      simp
  | cons piece more ih =>
      have hMore := fun other hOther => hShaped other (List.mem_cons_of_mem _ hOther)
      rw [marksOf] at h
      cases hReading : piece.reading with
      | gap =>
          rw [hReading] at h
          exact ih h hMore
      | token token =>
          rw [hReading] at h
          obtain ⟨others, hOthers, rfl⟩ := Option.map_eq_some_iff.mp h
          intro mark hMark
          rw [List.mem_cons] at hMark
          rcases hMark with rfl | hMark
          · exact (hShaped piece (List.mem_cons_self ..)).reading_proper hReading
          · exact ih hOthers hMore mark hMark
      | refused =>
          rw [hReading] at h
          cases h

/-- Every token of a text is proper. -/
theorem scan_proper {text : List Char} {marks : List Mark} (h : scan text = some marks) :
    ∀ mark ∈ marks, mark.token.Proper := by
  unfold scan at h
  split at h
  · exact marksOf_proper h (mem_pieces_shaped text)
  · cases h

/-- The lexemes in front of the first end of the input. -/
theorem properLexemes_append_end {lexemes : List Lexeme}
    (h : ∀ lexeme ∈ lexemes, lexeme.token ≠ .endOfInput) {final : Lexeme}
    (hFinal : final.token = .endOfInput) (rest : List Lexeme) :
    properLexemes (lexemes ++ final :: rest) = lexemes := by
  have hFront : ∀ lexeme ∈ lexemes, (!lexeme.isEnd) = true := by
    intro lexeme hMember
    simpa [Lexeme.isEnd] using h lexeme hMember
  rw [properLexemes, List.takeWhile_append_of_pos hFront,
    List.takeWhile_cons_of_neg (by simp [Lexeme.isEnd, hFinal]), List.append_nil]

/-- The lexemes in front of the end of the input are those of the marks. -/
theorem properLexemes_marks {lexemes : List Lexeme} {marks : List Mark}
    (h : lexemes.map Lexeme.mark = marks ++ [endMark])
    (hProper : ∀ mark ∈ marks, mark.token.Proper) :
    (properLexemes lexemes).map Lexeme.mark = marks := by
  obtain ⟨front, back, rfl, hFront, hBack⟩ := List.map_eq_append_iff.mp h
  obtain ⟨final, rfl, hFinal⟩ := List.map_eq_singleton_iff.mp hBack
  have hInner : ∀ lexeme ∈ front, lexeme.token ≠ .endOfInput := by
    intro lexeme hLexeme hEnd
    have hToken := hProper lexeme.mark (hFront ▸ List.mem_map_of_mem hLexeme)
    rw [Lexeme.mark, hEnd] at hToken
    exact hToken
  rw [properLexemes_append_end hInner (congrArg Mark.token hFinal), hFront]

end QuantumCircuit
