import QuantumCircuit.Proofs.Position
import QuantumCircuit.Proofs.Token.LongestMatch

/-!
# Tokens cover the text

The tokens of a text stand one behind the other, and between them is nothing but layout: blanks,
and comments up to the end of their line.  Each token knows the bytes that it covers, and the
place at which it begins.

* `IsLayout`, `IsFinalLayout` : what stands between two tokens, and behind the last one.
* `Tiles` : a text cut into layout and tokens, with the lexemes that the tokens make.
* `tiles_of_tokenize`, `place_of_tokenize_error` : what tokenizing gives, and where it fails.
* `countersOverflow_eq_false` : what it means that no counter overflows.
* `tokenize_covers` : the lexemes of a text, their bytes and their places.
-/

namespace QuantumCircuit

/-! ### Bytes -/

theorem byteLength_eq_sum (text : List Char) : byteLength text = (text.map Char.utf8Size).sum := by
  rw [byteLength, List.sum_eq_foldl, List.foldl_map]

@[simp]
theorem byteLength_append (first second : List Char) :
    byteLength (first ++ second) = byteLength first + byteLength second := by
  simp only [byteLength_eq_sum, List.map_append, List.sum_append]

theorem byteLength_pos {text : List Char} (h : text ≠ []) : 0 < byteLength text := by
  obtain ⟨c, rest, rfl⟩ := List.exists_cons_of_ne_nil h
  have hFirst := c.utf8Size_pos
  rw [byteLength_eq_sum, List.map_cons, List.sum_cons]
  omega

/-- The bytes of a text are those of its string. -/
theorem byteLength_toList (text : String) : byteLength text.toList = text.utf8ByteSize := by
  obtain ⟨chars, rfl⟩ : ∃ chars, text = String.ofList chars := ⟨_, String.ofList_toList.symm⟩
  rw [String.toList_ofList, byteLength_eq_sum]
  induction chars with
  | nil => rfl
  | cons c rest ih =>
      have hSplit : String.ofList (c :: rest) = String.singleton c ++ String.ofList rest := by
        rw [String.singleton_eq_ofList, ← String.ofList_append, List.singleton_append]
      rw [hSplit, String.utf8ByteSize_append, String.utf8ByteSize_singleton, List.map_cons,
        List.sum_cons, ih]

/-! ### Layout -/

/-- Blanks and comments one behind the other, every comment with its line feed. -/
inductive IsLayout : List Char → Prop
  | nil : IsLayout []
  | blank {c : Char} {rest : List Char} (hBlank : isBlank c = true) (hRest : IsLayout rest) :
      IsLayout (c :: rest)
  | comment {line rest : List Char} (hLine : ∀ c ∈ line, c ≠ '\n') (hRest : IsLayout rest) :
      IsLayout ('/' :: '/' :: (line ++ '\n' :: rest))

/-- Layout at the end of a text, where a last comment may lack its line feed. -/
inductive IsFinalLayout : List Char → Prop
  | closed {text : List Char} (hText : IsLayout text) : IsFinalLayout text
  | unclosed {text line : List Char} (hText : IsLayout text) (hLine : ∀ c ∈ line, c ≠ '\n') :
      IsFinalLayout (text ++ '/' :: '/' :: line)

theorem isLayout_of_blanks {text rest : List Char} (hBlank : ∀ c ∈ text, isBlank c = true)
    (hRest : IsLayout rest) : IsLayout (text ++ rest) := by
  induction text with
  | nil => exact hRest
  | cons c more ih =>
      rw [List.forall_mem_cons] at hBlank
      exact .blank hBlank.1 (ih hBlank.2)

theorem IsLayout.append {first second : List Char} (hFirst : IsLayout first)
    (hSecond : IsLayout second) : IsLayout (first ++ second) := by
  induction hFirst with
  | nil => exact hSecond
  | blank hBlank hRest ih => exact .blank hBlank ih
  | @comment line rest hLine hRest ih =>
      have hComment := IsLayout.comment hLine ih
      simpa using hComment

theorem IsLayout.appendFinal {first second : List Char} (hFirst : IsLayout first)
    (hSecond : IsFinalLayout second) : IsFinalLayout (first ++ second) := by
  cases hSecond with
  | closed hText => exact .closed (hFirst.append hText)
  | unclosed hText hLine =>
      rw [← List.append_assoc]
      exact .unclosed (hFirst.append hText) hLine

/-- Layout that begins with a line feed goes on with layout. -/
theorem IsLayout.behind_lineFeed {rest : List Char} (h : IsLayout ('\n' :: rest)) :
    IsLayout rest := by
  cases h with
  | blank hBlank hRest => exact hRest

theorem IsFinalLayout.behind_lineFeed {rest : List Char} (h : IsFinalLayout ('\n' :: rest)) :
    IsFinalLayout rest := by
  generalize hText : '\n' :: rest = text at h
  cases h with
  | closed hLayout =>
      subst hText
      exact .closed hLayout.behind_lineFeed
  | @unclosed front line hLayout hLine =>
      cases front with
      | nil => simp at hText
      | cons c more =>
          rw [List.cons_append, List.cons.injEq] at hText
          obtain ⟨rfl, rfl⟩ := hText
          exact .unclosed hLayout.behind_lineFeed hLine

/-! ### Tokens and gaps -/

/-- A character of a word is no blank. -/
theorem not_isBlank_of_isWordChar {c : Char} (h : isWordChar c = true) : isBlank c = false := by
  by_contra hBlank
  simp only [isBlank, Bool.not_eq_false, Bool.or_eq_true, decide_eq_true_eq] at hBlank
  rcases hBlank with (((rfl | rfl) | rfl) | rfl) | rfl <;> exact absurd h (by decide)

theorem not_isBlank_of_isDigit {c : Char} (h : c.isDigit = true) : isBlank c = false :=
  not_isBlank_of_isWordChar (by simp [isWordChar, Char.isAlphanum, h])

namespace Rule

variable {rule : Rule} {text front rest : List Char} {token : Token}

/-- A text that denotes a token is no gap. -/
theorem Denotes.not_gap (h : rule.Denotes text (.token token)) :
    rule ≠ .blanks ∧ rule ≠ .comment := by
  cases h <;> simp

theorem Denotes.gap (h : rule.Denotes text .gap) : rule = .blanks ∨ rule = .comment := by
  cases h <;> simp

/-- No text denotes the end of the input. -/
theorem Denotes.token_ne_end (h : rule.Denotes text (.token token)) : token ≠ .endOfInput := by
  cases h <;> simp

/-- Only blanks begin with a blank. -/
theorem Matches.not_isBlank (h : rule.Matches text) (hRule : rule ≠ .blanks) {c : Char}
    (hc : text.head? = some c) : isBlank c = false := by
  have hDigits {digits more : List Char} (hDigits : IsDigits digits)
      (hHead : (digits ++ more).head? = some c) : isBlank c = false := by
    obtain ⟨first, others, rfl⟩ := List.exists_cons_of_ne_nil hDigits.1
    cases hHead
    exact not_isBlank_of_isDigit (hDigits.2 _ (by simp))
  cases h with
  | blanks hSome hBlank => exact absurd rfl hRule
  | keyword word => cases word <;> cases hc <;> rfl
  | function f => cases f <;> cases hc <;> rfl
  | symbol sign => cases sign <;> cases hc <;> rfl
  | pointed hWhole hFraction hExponent => exact hDigits hWhole hc
  | exponential hWhole hExponent => exact hDigits hWhole hc
  | integer hAll => exact hDigits hAll (by rwa [List.append_nil])
  | identifier hFirst hRest =>
      cases hc
      exact not_isBlank_of_isAlpha hFirst
  | _ => cases hc; rfl

/-- A comment reaches to the end of its line. -/
theorem Takes.comment_line (h : Takes .comment front rest) :
    (∃ line, front = '/' :: '/' :: line ∧ ∀ c ∈ line, c ≠ '\n') ∧
      ∀ c, rest.head? = some c → c = '\n' := by
  have hMatched := h.matched
  cases hMatched with
  | @comment line hLine =>
      refine ⟨⟨line, rfl, hLine⟩, fun c hc => ?_⟩
      have hEnd := h.head?_eq_false .comment (fun c => c ≠ '\n')
        (fun c hc => .comment (forall_mem_snoc hLine (by simpa using hc))) c hc
      simpa using hEnd

end Rule

/-! ### Tiled texts -/

/-- The text behind `passed` is cut into layout and tokens, each of them the longest match of its
rule.  A token makes a lexeme with its characters, its bytes in the whole text and the place behind
everything that stands in front of it; the last lexeme is the end of the text. -/
inductive Tiles : List Char → List Char → List Lexeme → Prop
  | final {passed gap : List Char} (hGap : IsFinalLayout gap) :
      Tiles passed gap [⟨.endOfInput, "", byteLength (passed ++ gap), byteLength (passed ++ gap),
        .behind (passed ++ gap)⟩]
  | token {passed gap text rest : List Char} {rule : Rule} {token : Token} {lexemes : List Lexeme}
      (hGap : IsLayout gap) (hTakes : rule.Takes text rest)
      (hToken : rule.Denotes text (.token token))
      (hMore : Tiles (passed ++ (gap ++ text)) rest lexemes) :
      Tiles passed (gap ++ (text ++ rest))
        (⟨token, String.ofList text, byteLength (passed ++ gap),
          byteLength (passed ++ (gap ++ text)), .behind (passed ++ gap)⟩ :: lexemes)

namespace Tiles

variable {passed text front rest : List Char} {lexemes : List Lexeme}

/-- Blanks in front belong to the first gap. -/
theorem blanks (hBlank : ∀ c ∈ front, isBlank c = true)
    (h : Tiles (passed ++ front) rest lexemes) : Tiles passed (front ++ rest) lexemes := by
  cases h with
  | final hGap =>
      have hFront : IsLayout front := by simpa using isLayout_of_blanks hBlank .nil
      rw [List.append_assoc]
      exact .final (hFront.appendFinal hGap)
  | token hGap hTakes hToken hMore =>
      have hTiles := @Tiles.token passed _ _ _ _ _ _ (isLayout_of_blanks hBlank hGap) hTakes
        hToken (by simpa using hMore)
      simpa using hTiles

/-- So does a comment: what follows it is the line feed that ends it, or nothing. -/
theorem comment (hTakes : Rule.Takes .comment front rest)
    (h : Tiles (passed ++ front) rest lexemes) : Tiles passed (front ++ rest) lexemes := by
  obtain ⟨⟨line, rfl, hLine⟩, hEnd⟩ := hTakes.comment_line
  cases h with
  | final hGap =>
      rw [List.append_assoc]
      refine .final ?_
      cases rest with
      | nil =>
          rw [List.append_nil]
          exact .unclosed .nil hLine
      | cons c more =>
          obtain rfl := hEnd c rfl
          have hComment := (IsLayout.comment hLine .nil).appendFinal hGap.behind_lineFeed
          simpa using hComment
  | @token _ gap text rest rule token lexemes hGap hText hToken hMore =>
      cases gap with
      | nil =>
          -- a token would have to begin with the line feed
          obtain ⟨c, others, rfl⟩ := List.exists_cons_of_ne_nil hText.matched.ne_nil
          have hBlank := hText.matched.not_isBlank hToken.not_gap.1 rfl
          rw [hEnd c rfl] at hBlank
          cases hBlank
      | cons c more =>
          obtain rfl := hEnd c rfl
          have hTiles := @Tiles.token passed _ _ _ _ _ _
            (IsLayout.comment hLine hGap.behind_lineFeed) hText hToken (by simpa using hMore)
          simpa using hTiles

/-- The last lexeme, and no other, is the end of the text. -/
theorem ends (h : Tiles passed text lexemes) :
    ∃ tokens, (∀ lexeme ∈ tokens, lexeme.token ≠ .endOfInput) ∧
      lexemes = tokens ++ [⟨.endOfInput, "", byteLength (passed ++ text),
        byteLength (passed ++ text), .behind (passed ++ text)⟩] := by
  induction h with
  | final hGap => exact ⟨[], by simp, rfl⟩
  | token hGap hTakes hToken hMore ih =>
      obtain ⟨tokens, hTokens, rfl⟩ := ih
      refine ⟨_ :: tokens, ?_, by simp; rfl⟩
      exact List.forall_mem_cons.mpr ⟨hToken.token_ne_end, hTokens⟩

end Tiles

/-- The lexeme stands in the text: its characters are those between its two bytes, and its place is
the place behind what stands in front of it. -/
def Lexeme.StandsIn (lexeme : Lexeme) (text : List Char) : Prop :=
  ∃ before after, text = before ++ (lexeme.text.toList ++ after) ∧
    lexeme.start = byteLength before ∧
    lexeme.stop = byteLength (before ++ lexeme.text.toList) ∧ lexeme.position = .behind before

/-- What may stand in front of a lexeme. -/
def Lexeme.IsGap (lexeme : Lexeme) (gap : List Char) : Prop :=
  if lexeme.token = .endOfInput then IsFinalLayout gap else IsLayout gap

namespace Tiles

variable {passed text : List Char} {lexemes : List Lexeme}

/-- Every lexeme stands behind what has been passed. -/
theorem standing (h : Tiles passed text lexemes) :
    ∀ lexeme ∈ lexemes, ∃ before after, text = before ++ (lexeme.text.toList ++ after) ∧
      lexeme.start = byteLength (passed ++ before) ∧
      lexeme.stop = byteLength (passed ++ (before ++ lexeme.text.toList)) ∧
      lexeme.position = .behind (passed ++ before) ∧
      (lexeme.token ≠ .endOfInput → lexeme.text.toList ≠ []) := by
  induction h with
  | @final passed gap hGap =>
      rw [List.forall_mem_singleton]
      exact ⟨gap, [], by simp, by simp, by simp, by simp, fun hOther => absurd rfl hOther⟩
  | @token passed gap text rest rule token lexemes hGap hTakes hToken hMore ih =>
      rw [List.forall_mem_cons]
      refine ⟨⟨gap, rest, by simp, rfl, by simp, rfl, fun _ => ?_⟩, fun lexeme hMember => ?_⟩
      · simpa using hTakes.matched.ne_nil
      · obtain ⟨before, after, rfl, hStart, hStop, hPosition, hSome⟩ := ih lexeme hMember
        exact ⟨gap ++ (text ++ before), after, by simp, by simp [hStart], by simp [hStop],
          by simp [hPosition], hSome⟩

/-- Lexemes do not overlap, and if there is room for their places, every one begins at a later
place than those in front of it. -/
theorem ordered (h : Tiles passed text lexemes) :
    lexemes.Pairwise fun first second => first.stop ≤ second.start ∧
      (Position.RoomIn (passed ++ text) → first.position.Before second.position) := by
  induction h with
  | final hGap => exact List.pairwise_singleton _ _
  | @token passed gap text rest rule token lexemes hGap hTakes hToken hMore ih =>
      refine List.pairwise_cons.mpr ⟨fun later hLater => ?_, by simpa using ih⟩
      obtain ⟨before, after, rfl, hStart, -, hPosition, -⟩ := hMore.standing later hLater
      rw [hStart, hPosition]
      constructor
      · rw [byteLength_append _ before]
        exact Nat.le_add_right _ _
      · intro hRoom
        have hSome : text ++ before ≠ [] := by simp [hTakes.matched.ne_nil]
        have hFirst : Position.HasRoom (passed ++ gap) := hRoom _ (by simp)
        have hLater : Position.HasRoom (passed ++ gap ++ (text ++ before)) := hRoom _ (by simp)
        have hBefore := (Position.shows_behind.mpr hFirst).before
          (Position.shows_behind.mpr hLater) hSome
        simpa using hBefore

/-- In front of every lexeme, from the end of the one before it, stands nothing but layout. -/
theorem gaps (h : Tiles passed text lexemes) {front back : List Lexeme} {next : Lexeme}
    (hSplit : lexemes = front ++ next :: back) :
    ∃ before gap after, passed ++ text = before ++ (gap ++ after) ∧
      byteLength before = (front.getLast?.map Lexeme.stop).getD (byteLength passed) ∧
      byteLength (before ++ gap) = next.start ∧ next.IsGap gap := by
  induction h generalizing front with
  | @final passed gap hGap =>
      rcases List.singleton_eq_append_iff.mp hSplit with ⟨rfl, hNext⟩ | ⟨-, hNext⟩
      · cases hNext
        exact ⟨passed, gap, [], by simp, rfl, rfl, hGap⟩
      · cases hNext
  | @token passed gap text rest rule token lexemes hGap hTakes hToken hMore ih =>
      cases front with
      | nil =>
          rw [List.nil_append, List.cons.injEq] at hSplit
          obtain ⟨rfl, rfl⟩ := hSplit
          refine ⟨passed, gap, text ++ rest, rfl, rfl, rfl, ?_⟩
          rw [Lexeme.IsGap, if_neg hToken.token_ne_end]
          exact hGap
      | cons first front =>
          rw [List.cons_append, List.cons.injEq] at hSplit
          obtain ⟨rfl, hSplit⟩ := hSplit
          obtain ⟨before, space, after, hText, hBefore, hNext, hSpace⟩ := ih hSplit
          refine ⟨before, space, after, by simpa using hText, ?_, hNext, hSpace⟩
          -- behind the first lexeme, the bytes passed are those at which it stops
          rw [hBefore]
          cases front with
          | nil => rfl
          | cons second more => rw [List.getLast?_cons_cons]; rfl

end Tiles

/-! ### Tokenizing -/

theorem tiles_of_lexes {start : ℕ} {position : Position} {text : List Char}
    {result : Except LexicalError (List Lexeme)} (h : Lexes start position text result) :
    ∀ passed, start = byteLength passed → position = .behind passed →
      ∀ lexemes, result = .ok lexemes → Tiles passed text lexemes := by
  induction h with
  | done start position =>
      rintro passed rfl rfl lexemes ⟨⟩
      have hTiles := @Tiles.final passed _ (.closed .nil)
      simpa using hTiles
  | @gap start position rule front rest result hTakes hGap hRest ih =>
      rintro passed rfl rfl lexemes hResult
      have hMore := ih (passed ++ front) (byteLength_append _ _).symm
        (Position.after_behind passed front) lexemes hResult
      rcases hGap.gap with rfl | rfl
      · have hMatched := hTakes.matched
        cases hMatched with
        | blanks hSome hBlank => exact hMore.blanks hBlank
      · exact hMore.comment hTakes
  | @token start position rule front rest token result hTakes hToken hRest ih =>
      rintro passed rfl rfl lexemes hResult
      cases result with
      | error error => cases hResult
      | ok others =>
          cases hResult
          have hMore := ih (passed ++ front) (byteLength_append _ _).symm
            (Position.after_behind passed front) others rfl
          have hTiles := @Tiles.token passed _ _ _ _ _ _ .nil hTakes hToken (by simpa using hMore)
          simpa using hTiles
  | halt hHalts =>
      rintro passed - - lexemes ⟨⟩

theorem tiles_of_tokenize {source : String} {lexemes : List Lexeme}
    (h : tokenize source = .ok lexemes) : Tiles [] source.toList lexemes :=
  tiles_of_lexes (tokenize_eq_iff.mp h) [] rfl rfl lexemes rfl

/-- What is passed is scanned. -/
theorem Rule.Takes.scanned_eq {rule : Rule} {front rest : List Char} {reading : Reading}
    (h : rule.Takes front rest) (hReading : rule.Denotes front reading)
    (hPassed : reading ≠ .refused) : scanned (front ++ rest) = front ++ scanned rest := by
  rw [h.denotes_iff] at hReading
  rw [scanned, h.pieces_eq, List.takeWhile_cons_of_pos (by simp [hReading, hPassed]),
    List.flatMap_cons]
  rfl

theorem Halts.scanned_eq {text : List Char} (h : Halts text) : scanned text = [] := by
  cases h with
  | unmatched hNone =>
      rw [scanned, pieces_of_none (cut?_eq_none_iff.mpr hNone)]
      rfl
  | refused hTakes hRefused =>
      rw [hTakes.denotes_iff] at hRefused
      rw [scanned, hTakes.pieces_eq, List.takeWhile_cons_of_neg (by simp [hRefused])]
      rfl

/-- A text is scanned as a whole, or up to the character that is reported. -/
theorem scanned_of_lexes {start : ℕ} {position : Position} {text : List Char}
    {result : Except LexicalError (List Lexeme)} (h : Lexes start position text result) :
    (∀ lexemes, result = .ok lexemes → scanned text = text) ∧
      ∀ error, result = .error error → error.position = position.after (scanned text) ∧
        ∃ after, text = scanned text ++ error.character :: after := by
  induction h with
  | done start position =>
      have hNil : scanned [] = [] := by
        rw [scanned, pieces_of_none rfl]
        rfl
      exact ⟨fun _ _ => hNil, fun _ hError => by cases hError⟩
  | gap hTakes hGap hRest ih =>
      rw [hTakes.scanned_eq hGap (by simp)]
      refine ⟨fun lexemes hResult => by rw [ih.1 lexemes hResult], fun error hError => ?_⟩
      obtain ⟨hPosition, after, hText⟩ := ih.2 error hError
      rw [Position.after_append]
      exact ⟨hPosition, after, by rw [List.append_assoc, ← hText]⟩
  | @token start position rule front rest token result hTakes hToken hRest ih =>
      rw [hTakes.scanned_eq hToken (by simp)]
      cases result with
      | ok lexemes =>
          refine ⟨fun _ _ => by rw [ih.1 lexemes rfl], fun error hError => ?_⟩
          cases hError
      | error found =>
          refine ⟨fun lexemes hResult => ?_, fun error hError => ?_⟩
          · cases hResult
          · cases hError
            obtain ⟨hPosition, after, hText⟩ := ih.2 _ rfl
            rw [Position.after_append]
            exact ⟨hPosition, after, by rw [List.append_assoc, ← hText]⟩
  | halt hHalts =>
      rw [hHalts.scanned_eq]
      refine ⟨fun lexemes hResult => ?_, fun error hError => ?_⟩
      · cases hResult
      · cases hError
        exact ⟨rfl, _, rfl⟩

theorem scanned_of_tokenize {source : String} {lexemes : List Lexeme}
    (h : tokenize source = .ok lexemes) : scanned source.toList = source.toList :=
  (scanned_of_lexes (tokenize_eq_iff.mp h)).1 lexemes rfl

theorem place_of_tokenize_error {source : String} {error : LexicalError}
    (h : tokenize source = .error error) : error.position = .behind (scanned source.toList) ∧
      ∃ after, source.toList = scanned source.toList ++ error.character :: after := by
  obtain ⟨hPosition, hText⟩ := (scanned_of_lexes (tokenize_eq_iff.mp h)).2 error rfl
  exact ⟨hPosition.trans (Position.after_behind [] _), hText⟩

/-- No counter overflows exactly if there is room for all places that are scanned. -/
theorem countersOverflow_eq_false {source : String} :
    countersOverflow source = false ↔ Position.RoomIn (scanned source.toList) :=
  Position.overflowsOver_start

theorem countersOverflow_of_tokenize {source : String} {lexemes : List Lexeme}
    (h : tokenize source = .ok lexemes) :
    countersOverflow source = false ↔ Position.RoomIn source.toList := by
  rw [countersOverflow_eq_false, scanned_of_tokenize h]

/-- The lexemes of a text, from its first byte to its last one. -/
structure Covers (source : String) (lexemes : List Lexeme) : Prop where
  /-- The last lexeme, and no other, is the end of the input.  It is empty and stands behind the
  last byte. -/
  ends : ∃ tokens final, lexemes = tokens ++ [final] ∧
    (∀ lexeme ∈ tokens, lexeme.token ≠ .endOfInput) ∧ final.token = .endOfInput ∧
      final.text = "" ∧ final.start = source.utf8ByteSize ∧ final.stop = source.utf8ByteSize
  standing : ∀ lexeme ∈ lexemes, lexeme.StandsIn source.toList
  nonempty : ∀ lexeme ∈ lexemes, lexeme.token ≠ .endOfInput → lexeme.start < lexeme.stop
  ordered : lexemes.Pairwise fun first second => first.stop ≤ second.start
  /-- From the end of one lexeme to the start of the next there is nothing but layout. -/
  gaps : ∀ front next back, lexemes = front ++ next :: back →
    ∃ before gap after, source.toList = before ++ (gap ++ after) ∧
      byteLength before = (front.getLast?.map Lexeme.stop).getD 0 ∧
      byteLength (before ++ gap) = next.start ∧ next.IsGap gap

theorem Tiles.covers {source : String} {lexemes : List Lexeme}
    (h : Tiles [] source.toList lexemes) : Covers source lexemes where
  ends := by
    obtain ⟨tokens, hTokens, hLexemes⟩ := h.ends
    have hSize : byteLength ([] ++ source.toList) = source.utf8ByteSize := byteLength_toList source
    exact ⟨tokens, _, hLexemes, hTokens, rfl, rfl, hSize, hSize⟩
  standing := by
    intro lexeme hMember
    obtain ⟨before, after, hText, hStart, hStop, hPosition, -⟩ := h.standing lexeme hMember
    exact ⟨before, after, hText, hStart, hStop, hPosition⟩
  nonempty := by
    intro lexeme hMember hToken
    obtain ⟨before, after, -, hStart, hStop, -, hSome⟩ := h.standing lexeme hMember
    have hLength := byteLength_pos (hSome hToken)
    rw [hStart, hStop, List.nil_append, List.nil_append, byteLength_append]
    omega
  ordered := h.ordered.imp fun hPair => hPair.1
  gaps := fun _ _ _ hSplit => h.gaps hSplit

/-- The place of the lexeme is the line and the column of what stands in front of it. -/
def Lexeme.ShowsPlaceIn (lexeme : Lexeme) (text : List Char) : Prop :=
  ∃ before after, text = before ++ (lexeme.text.toList ++ after) ∧
    lexeme.start = byteLength before ∧ lexeme.position.Shows before

/-- It is, if there is room for it. -/
theorem Lexeme.StandsIn.showsPlaceIn {lexeme : Lexeme} {text : List Char}
    (h : lexeme.StandsIn text)
    (hRoom : ∀ before after, text = before ++ (lexeme.text.toList ++ after) →
      Position.HasRoom before) : lexeme.ShowsPlaceIn text := by
  obtain ⟨before, after, hText, hStart, -, hPosition⟩ := h
  refine ⟨before, after, hText, hStart, ?_⟩
  rw [hPosition, Position.shows_behind]
  exact hRoom before after hText

/-- The counters have room in front of every character of a text that is shorter than `2 ^ 32`. -/
theorem hasRoom_of_front {source : String} (h : source.length < 2 ^ 32) {before after : List Char}
    (hSource : source.toList = before ++ after) (hSome : after ≠ []) :
    Position.HasRoom before := by
  apply Position.hasRoom_of_length
  have hLength := congrArg List.length hSource
  rw [String.length_toList, List.length_append] at hLength
  have hPos := List.length_pos_iff.mpr hSome
  omega

/-- If they have room behind such a text, too, they have room everywhere. -/
theorem roomIn_of_length {source : String} (h : source.length < 2 ^ 32)
    (hEnd : Position.HasRoom source.toList) : Position.RoomIn source.toList := by
  rintro front ⟨after, hSource⟩
  by_cases hSome : after = []
  · rwa [← hSource, hSome, List.append_nil] at hEnd
  · exact hasRoom_of_front h hSource.symm hSome

/-- In a text that is shorter no counter overflows. -/
theorem countersOverflow_of_length {source : String} (h : source.length + 1 < 2 ^ 32) :
    countersOverflow source = false := by
  have hRoom : Position.RoomIn source.toList :=
    Position.roomIn_of_length (by rwa [String.length_toList])
  rw [countersOverflow_eq_false]
  cases hResult : tokenize source with
  | ok lexemes => rwa [scanned_of_tokenize hResult]
  | error error =>
      obtain ⟨-, after, hSource⟩ := place_of_tokenize_error hResult
      exact fun front hFront => hRoom front (hFront.trans ⟨_, hSource.symm⟩)

/-- **Coverage.**  The lexemes of a text cover it but for layout, and each of them has the bytes
and the place at which it stands.  An error has the place of its character.  In a text of less than
`2 ^ 32` characters this is the line and the column of every token and of every error, counted in
full, and no counter overflows in front of them.  It is that of the end, too, unless there are as
many characters as there can be, and all of them are line feeds, or none of them is. -/
theorem tokenize_covers {source : String} (h : source.length < 2 ^ 32) :
    (∀ lexemes, tokenize source = .ok lexemes → Covers source lexemes ∧
      (∀ lexeme ∈ lexemes, lexeme.token ≠ .endOfInput → lexeme.ShowsPlaceIn source.toList) ∧
      (Position.HasRoom source.toList → countersOverflow source = false ∧
        ∀ lexeme ∈ lexemes, lexeme.ShowsPlaceIn source.toList)) ∧
    (∀ error, tokenize source = .error error → countersOverflow source = false ∧
      ∃ before after, source.toList = before ++ error.character :: after ∧
        error.position.Shows before) ∧
    (Position.HasRoom source.toList ∨ source.length + 1 = 2 ^ 32 ∧
      ((∀ c ∈ source.toList, c = '\n') ∨ ∀ c ∈ source.toList, c ≠ '\n')) := by
  refine ⟨fun lexemes hLexemes => ?_, fun error hError => ?_, ?_⟩
  · have hTiles := tiles_of_tokenize hLexemes
    have hCovers := hTiles.covers
    refine ⟨hCovers, fun lexeme hMember hToken => ?_, fun hEnd => ⟨?_, fun lexeme hMember => ?_⟩⟩
    · obtain ⟨-, -, -, -, -, -, hSome⟩ := hTiles.standing lexeme hMember
      refine (hCovers.standing lexeme hMember).showsPlaceIn fun before after hSource => ?_
      exact hasRoom_of_front h hSource (by simp [hSome hToken])
    · exact (countersOverflow_of_tokenize hLexemes).mpr (roomIn_of_length h hEnd)
    · refine (hCovers.standing lexeme hMember).showsPlaceIn fun before after hSource => ?_
      exact roomIn_of_length h hEnd before ⟨_, hSource.symm⟩
  · obtain ⟨hPosition, after, hSource⟩ := place_of_tokenize_error hError
    have hRoom : Position.HasRoom (scanned source.toList) := hasRoom_of_front h hSource (by simp)
    refine ⟨countersOverflow_eq_false.mpr fun front hFront => ?_, _, after, hSource, ?_⟩
    · obtain ⟨more, hMore⟩ := hFront
      exact hasRoom_of_front h (by rw [hSource, ← hMore, List.append_assoc]) (by simp)
    · rwa [hPosition, Position.shows_behind]
  · rw [← String.length_toList] at h ⊢
    exact Position.hasRoom_or_uniform h

/-- A text with characters of more than one byte, a carriage return and two comments. -/
def accentedSource : String := "// état\r\nx \"π\" // ü\n  q;"

theorem tokenize_covers_accented :
    accentedSource.length < 2 ^ 32 ∧ ∃ lexemes, tokenize accentedSource = .ok lexemes ∧
      Covers accentedSource lexemes ∧ countersOverflow accentedSource = false ∧
      (∀ lexeme ∈ lexemes, lexeme.ShowsPlaceIn accentedSource.toList) ∧
      lexemes.map Lexeme.text = ["x", "\"π\"", "q", ";", ""] ∧
      lexemes.map Lexeme.start = [10, 12, 25, 26, 27] ∧
      lexemes.map Lexeme.position = [⟨2, 1⟩, ⟨2, 3⟩, ⟨3, 3⟩, ⟨3, 4⟩, ⟨3, 5⟩] := by
  have hLength : accentedSource.length < 2 ^ 32 := by decide
  have hTokens : (tokenize accentedSource).toOption.map (List.map fun lexeme =>
      (lexeme.text, lexeme.start, lexeme.position)) =
        some [("x", 10, ⟨2, 1⟩), ("\"π\"", 12, ⟨2, 3⟩), ("q", 25, ⟨3, 3⟩), (";", 26, ⟨3, 4⟩),
          ("", 27, ⟨3, 5⟩)] := by decide +kernel
  cases hResult : tokenize accentedSource with
  | error error =>
      rw [hResult] at hTokens
      cases hTokens
  | ok lexemes =>
      rw [hResult] at hTokens
      have hColumns := Option.some.inj hTokens
      obtain ⟨hCovers, -, hEnd⟩ := (tokenize_covers hLength).1 lexemes hResult
      have hRoom : Position.HasRoom accentedSource.toList :=
        Position.hasRoom_of_length (by decide)
      refine ⟨hLength, lexemes, rfl, hCovers, (hEnd hRoom).1, (hEnd hRoom).2, ?_⟩
      have hTexts := congrArg (List.map Prod.fst) hColumns
      have hStarts := congrArg (List.map fun entry => entry.2.1) hColumns
      have hPlaces := congrArg (List.map fun entry => entry.2.2) hColumns
      simp only [List.map_map] at hTexts hStarts hPlaces
      exact ⟨hTexts, hStarts, hPlaces⟩

/-! ### A line that is too long -/

/-- A line of blanks. -/
def blankLine (length : ℕ) : String := String.ofList (List.replicate length ' ')

theorem toList_blankLine (length : ℕ) : (blankLine length).toList = List.replicate length ' ' :=
  String.toList_ofList

/-- Blanks make a single gap. -/
theorem tokenize_blankLine (length : ℕ) :
    tokenize (blankLine length) =
      .ok [⟨.endOfInput, "", length, length, .behind (List.replicate length ' ')⟩] := by
  rw [tokenize_eq_iff, toList_blankLine]
  cases length with
  | zero => exact .done 0 .start
  | succ length =>
      generalize hBlanks : List.replicate (length + 1) ' ' = blanks
      have hBlank : ∀ c ∈ blanks, isBlank c = true := by
        intro c hc
        rw [← hBlanks] at hc
        rw [List.eq_of_mem_replicate hc]
        rfl
      have hSome : blanks ≠ [] := by
        rw [← hBlanks]
        exact List.cons_ne_nil _ _
      have hTakes : Rule.blanks.Takes blanks [] :=
        ⟨.blanks hSome hBlank, fun _ longer _ hPrefix => by simpa using hPrefix.length_le,
          fun hName => by cases hName⟩
      have hBytes : 0 + byteLength blanks = length + 1 := by
        have hWidth : Char.utf8Size ' ' = 1 := rfl
        rw [byteLength_eq_sum, ← hBlanks, List.map_replicate, List.sum_replicate, hWidth]
        simp
      have hPlace : Position.start.after blanks = .behind blanks := Position.after_behind [] blanks
      have hLexes := Lexes.gap hTakes (.blanks blanks)
        (.done (0 + byteLength blanks) (Position.start.after blanks))
      rwa [List.append_nil, hBytes, hPlace] at hLexes

/-- As many blanks as there can be leave no word for the column behind them: it is zero. -/
theorem tokenize_covers_blankLine :
    (blankLine (2 ^ 32 - 1)).length < 2 ^ 32 ∧
      ∃ final, tokenize (blankLine (2 ^ 32 - 1)) = .ok [final] ∧ final.token = .endOfInput ∧
        final.position = ⟨1, 0⟩ ∧ ¬ final.ShowsPlaceIn (blankLine (2 ^ 32 - 1)).toList := by
  -- the length stays a variable, so that nothing writes out the blanks
  generalize hLength : 2 ^ 32 - 1 = length
  have hBlank : ∀ c ∈ List.replicate length ' ', c ≠ '\n' := by
    intro c hc
    rw [List.eq_of_mem_replicate hc]
    decide
  have hLine : Position.lineBehind (List.replicate length ' ') = 1 := by
    rw [Position.lineBehind, List.count_eq_zero.mpr fun hBreak => hBlank _ hBreak rfl]
  have hColumn : Position.columnBehind (List.replicate length ' ') = 2 ^ 32 := by
    rw [Position.columnBehind_line hBlank, List.length_replicate]
    omega
  have hPlace : Position.behind (List.replicate length ' ') = ⟨1, 0⟩ := by
    rw [Position.behind, hLine, hColumn]
    rfl
  refine ⟨?_, _, tokenize_blankLine length, rfl, hPlace, ?_⟩
  · rw [blankLine, String.length_ofList, List.length_replicate, ← hLength]
    decide
  · rintro ⟨before, after, -, -, hShows⟩
    have hNoColumn : ¬(1 : UInt32) ≤ 0 := by decide
    rw [hPlace] at hShows
    exact hNoColumn hShows.one_le.2

end QuantumCircuit
