import QuantumCircuit.Proofs.Token.Coverage
import QuantumCircuit.Proofs.Token.Proper

/-!
# Other layout

The tokens of a text can be written with other layout between them.  As long as a blank follows
each token, none of them runs into the next one or into a comment, and the same tokens are found.

* `Rule.Takes.before_blank` : in front of a blank a token has the longest match.
* `SpacedOut` : texts with given tokens and some layout.
* `tokenize_spacedOut` : such a text has the tokens of the first one.
-/

namespace QuantumCircuit

/-! ### Blanks end a token -/

/-- An exponent has no blank in it. -/
theorem IsExponent.not_isBlank {text : List Char} (h : IsExponent text) {c : Char} (hc : c ∈ text) :
    isBlank c = false := by
  obtain @⟨letter, sign, digits, hLetter, hSign, hDigits⟩ := h
  rw [List.mem_cons, List.mem_append] at hc
  rcases hc with rfl | hc | hc
  · rcases hLetter with rfl | rfl <;> rfl
  · rcases hSign with rfl | rfl | rfl
    · cases hc
    · rw [List.mem_singleton.mp hc]
      rfl
    · rw [List.mem_singleton.mp hc]
      rfl
  · exact not_isBlank_of_isDigit (hDigits.2 c hc)

namespace Rule

variable {rule : Rule} {text front rest other : List Char} {token : Token}

/-- Only blanks, comments and strings have a blank in them. -/
theorem Matches.not_isBlank_of_mem (h : rule.Matches text) (hBlanks : rule ≠ .blanks)
    (hComment : rule ≠ .comment) (hString : rule ≠ .string) {c : Char} (hc : c ∈ text) :
    isBlank c = false := by
  have hExponent {exponent : List Char} (hShape : exponent = [] ∨ IsExponent exponent)
      (hMember : c ∈ exponent) : isBlank c = false := by
    rcases hShape with rfl | hShape
    · cases hMember
    · exact hShape.not_isBlank hMember
  have hFixed (fixed : List Char) (hNone : fixed.all (fun d => !isBlank d) = true)
      (hMember : c ∈ fixed) : isBlank c = false := by
    simpa using List.all_eq_true.mp hNone c hMember
  cases h with
  | blanks hSome hBlank => exact absurd rfl hBlanks
  | comment hLine => exact absurd rfl hComment
  | string hContent => exact absurd rfl hString
  | keyword word => exact hFixed _ (by cases word <;> rfl) hc
  | function f => exact hFixed _ (by cases f <;> rfl) hc
  | symbol sign => exact hFixed _ (by cases sign <;> rfl) hc
  | integer hDigits => exact not_isBlank_of_isDigit (hDigits.2 c hc)
  | pointed hWhole hFraction hShape =>
      rw [List.mem_append, List.mem_cons, List.mem_append] at hc
      rcases hc with hc | rfl | hc | hc
      · exact not_isBlank_of_isDigit (hWhole.2 c hc)
      · rfl
      · exact not_isBlank_of_isDigit (hFraction c hc)
      · exact hExponent hShape hc
  | fractional hFraction hShape =>
      rw [List.mem_cons, List.mem_append] at hc
      rcases hc with rfl | hc | hc
      · rfl
      · exact not_isBlank_of_isDigit (hFraction.2 c hc)
      · exact hExponent hShape hc
  | exponential hWhole hShape =>
      rcases List.mem_append.mp hc with hc | hc
      · exact not_isBlank_of_isDigit (hWhole.2 c hc)
      · exact hShape.not_isBlank hc
  | identifier hFirst hRest =>
      have hWord : isWordChar c = true := by
        rcases List.mem_cons.mp hc with rfl | hc
        · simp [isWordChar, Char.isAlphanum, hFirst]
        · simpa [isWordChar] using hRest c hc
      exact not_isBlank_of_isWordChar hWord

/-- What begins with a quote is a string. -/
theorem Takes.string_of_quote (h : rule.Takes ('"' :: text) rest) : rule = .string := by
  have hCut := h.cut?_eq
  have hString : cut? ('"' :: text ++ rest) = cutString (text ++ rest) := by
    simp [cut?, isBlank, Char.isAlpha, Char.isUpper, Char.isLower, Char.isDigit]
  rw [hString, cutString] at hCut
  split at hCut
  · have hPattern := congrArg (fun found => found.map fun cut => cut.1.pattern) hCut
    cases rule <;> simp [pattern] at hPattern
    rfl
  · cases hCut

/-- What begins with two slashes is a comment. -/
theorem Takes.comment_of_slashes (h : rule.Takes ('/' :: '/' :: text) rest) : rule = .comment := by
  have hCut := h.cut?_eq
  have hComment : cut? ('/' :: '/' :: text ++ rest) =
      some (cutRun .comment (· ≠ '\n') ('/' :: '/' :: text ++ rest)) := by
    simp [cut?, isBlank, Char.isAlpha, Char.isUpper, Char.isLower, Char.isDigit]
  rw [hComment] at hCut
  have hPattern := congrArg (fun found => found.map fun cut => cut.1.pattern) hCut
  cases rule <;> simp [pattern, cutRun] at hPattern
  rfl

section Blank

variable {c : Char} {behind : List Char}

/-- A token does not begin with a blank, as blanks do. -/
theorem Takes.not_matches_blanks (h : rule.Takes front rest)
    (hToken : rule.Denotes front (.token token)) : ¬ Matches .blanks (front ++ c :: behind) := by
  intro hMatches
  obtain ⟨first, more, rfl⟩ := List.exists_cons_of_ne_nil h.matched.ne_nil
  cases hMatches with
  | blanks hSome hAll =>
      have hFirst := h.matched.not_isBlank hToken.not_gap.1 rfl
      rw [hAll first (by simp)] at hFirst
      cases hFirst

/-- Nor with two slashes, of which a blank could not even be the second one. -/
theorem Takes.not_matches_comment (h : rule.Takes front rest)
    (hToken : rule.Denotes front (.token token)) (hBlank : isBlank c = true) :
    ¬ Matches .comment (front ++ c :: behind) := by
  intro hMatches
  obtain ⟨first, more, rfl⟩ := List.exists_cons_of_ne_nil h.matched.ne_nil
  generalize hText : first :: more ++ c :: behind = whole at hMatches
  cases hMatches with
  | @comment line hLine =>
      cases more with
      | nil =>
          cases hText
          cases hBlank
      | cons second others =>
          cases hText
          exact hToken.not_gap.2 h.comment_of_slashes

/-- A longer string would have the quote that closes the token within it. -/
theorem Takes.not_matches_string (h : rule.Takes front rest) :
    ¬ Matches .string (front ++ c :: behind) := by
  intro hMatches
  obtain ⟨first, more, rfl⟩ := List.exists_cons_of_ne_nil h.matched.ne_nil
  generalize hText : first :: more ++ c :: behind = whole at hMatches
  cases hMatches with
  | @string content hContent =>
      rw [List.cons_append, List.cons.injEq] at hText
      obtain ⟨rfl, hText⟩ := hText
      obtain rfl := h.string_of_quote
      have hOwn := h.matched
      cases hOwn with
      | @string inner hInner =>
          have hQuote : '"' ∈ content := by
            have hDrop := congrArg List.dropLast hText
            rw [List.dropLast_concat] at hDrop
            rw [← hDrop]
            simp
          exact (hContent '"' hQuote).1 rfl

/-- No text of a rule goes on from a token with a blank. -/
theorem Takes.not_matches_blank (h : rule.Takes front rest)
    (hToken : rule.Denotes front (.token token)) (hBlank : isBlank c = true) (longer : Rule) :
    ¬ longer.Matches (front ++ c :: behind) := by
  intro hMatches
  by_cases hBlanks : longer = .blanks
  · subst hBlanks
    exact h.not_matches_blanks hToken hMatches
  by_cases hComment : longer = .comment
  · subst hComment
    exact h.not_matches_comment hToken hBlank hMatches
  by_cases hString : longer = .string
  · subst hString
    exact h.not_matches_string hMatches
  · have hOther := hMatches.not_isBlank_of_mem hBlanks hComment hString
      (List.mem_append_right front (List.mem_cons_self ..))
    rw [hBlank] at hOther
    cases hOther

end Blank

/-- In front of a blank, or at the end of a text, a token has the longest match. -/
theorem Takes.before_blank (h : rule.Takes front rest)
    (hToken : rule.Denotes front (.token token))
    (hOther : ∀ c, other.head? = some c → isBlank c = true) : rule.Takes front other := by
  refine ⟨h.matched, fun longer text hMatches hPrefix => ?_, h.reserved⟩
  rcases List.prefix_or_prefix_of_prefix hPrefix (List.prefix_append front other) with
    hShort | ⟨more, rfl⟩
  · exact hShort.length_le
  · rw [List.prefix_append_right_inj] at hPrefix
    cases more with
    | nil => simp
    | cons c behind =>
        obtain ⟨back, rfl⟩ := hPrefix
        exact absurd hMatches (h.not_matches_blank hToken (hOther c rfl) longer)

end Rule

/-! ### Spaced tokens -/

/-- Layout that begins with a blank. -/
structure IsSpacing (gap : List Char) : Prop where
  layout : IsLayout gap
  blank : ∃ c, gap.head? = some c ∧ isBlank c = true

/-- Words with spacing in front of each of them, and perhaps spacing behind the last one. -/
inductive Spaced : List String → List Char → Prop
  | nil : Spaced [] []
  | spacing {gap : List Char} (hGap : IsSpacing gap) : Spaced [] gap
  | cons {gap rest : List Char} (word : String) {words : List String} (hGap : IsSpacing gap)
      (hRest : Spaced words rest) : Spaced (word :: words) (gap ++ (word.toList ++ rest))

/-- At least one word, with spacing between the words and perhaps layout around them. -/
inductive SpacedOut : List String → List Char → Prop
  | mk {gap rest : List Char} (word : String) {words : List String} (hGap : IsLayout gap)
      (hRest : Spaced words rest) : SpacedOut (word :: words) (gap ++ (word.toList ++ rest))

theorem Spaced.isBlank {words : List String} {text : List Char} (h : Spaced words text) :
    ∀ c, text.head? = some c → isBlank c = true := by
  intro c hc
  cases h with
  | nil => cases hc
  | spacing hGap =>
      obtain ⟨first, hFirst, hBlank⟩ := hGap.blank
      rw [hFirst] at hc
      cases hc
      exact hBlank
  | cons word hGap hRest =>
      obtain ⟨first, hFirst, hBlank⟩ := hGap.blank
      rw [List.head?_append, hFirst] at hc
      cases hc
      exact hBlank

/-- Layout in front of a text is skipped. -/
theorem scan_layout {gap : List Char} (hGap : IsLayout gap) (rest : List Char) :
    scan (gap ++ rest) = scan rest := by
  induction hGap with
  | nil => rfl
  | blank hBlank hRest ih =>
      rw [List.cons_append, scan_blank hBlank]
      exact ih
  | @comment line more hLine hRest ih =>
      have hRun : ∀ c ∈ '/' :: '/' :: line, decide (c ≠ '\n') = true := by simpa using hLine
      have hCut : cut? (('/' :: '/' :: line) ++ ('\n' :: (more ++ rest))) =
          some (cutRun .comment (· ≠ '\n') (('/' :: '/' :: line) ++ ('\n' :: (more ++ rest)))) := by
        simp [cut?, isBlank, Char.isAlpha, Char.isUpper, Char.isLower, Char.isDigit]
      rw [cutRun_append_rest hRun (by simp)] at hCut
      have hScan := scan_gap hCut rfl
      rw [scan_lineFeed, ih] at hScan
      simpa using hScan

/-- In front of a blank, or at the end of a text, the mark is read from its own characters. -/
def Mark.Stands (mark : Mark) : Prop :=
  ∀ rest : List Char, (∀ c, rest.head? = some c → isBlank c = true) →
    scan (mark.text.toList ++ rest) = (scan rest).map fun marks => mark :: marks

/-- So are the tokens of every text. -/
theorem Tiles.stands {passed text : List Char} {lexemes : List Lexeme}
    (h : Tiles passed text lexemes) :
    ∀ lexeme ∈ lexemes, lexeme.token ≠ .endOfInput → lexeme.mark.Stands := by
  induction h with
  | final hGap =>
      rw [List.forall_mem_singleton]
      exact fun hOther => absurd rfl hOther
  | @token passed gap text rest rule token lexemes hGap hTakes hToken hMore ih =>
      refine List.forall_mem_cons.mpr ⟨fun _ other hOther => ?_, ih⟩
      have hAgain := hTakes.before_blank hToken hOther
      have hReading := hAgain.denotes_iff.mp hToken
      have hScan := scan_token hAgain.cut?_eq hReading
      rwa [Lexeme.mark, String.toList_ofList]

/-- Marks that are spaced out are read one after the other. -/
theorem scan_spaced {marks : List Mark} (hStands : ∀ mark ∈ marks, mark.Stands) {text : List Char}
    (h : Spaced (marks.map Mark.text) text) : scan text = some marks := by
  induction marks generalizing text with
  | nil =>
      cases h with
      | nil => exact scan_nil
      | spacing hGap =>
          have hScan := scan_layout hGap.layout []
          rwa [List.append_nil, scan_nil] at hScan
  | cons mark marks ih =>
      rw [List.forall_mem_cons] at hStands
      cases h with
      | cons word hGap hRest =>
          rw [scan_layout hGap.layout, hStands.1 _ hRest.isBlank, ih hStands.2 hRest]
          rfl

theorem scan_spacedOut {marks : List Mark} (hStands : ∀ mark ∈ marks, mark.Stands)
    {text : List Char} (h : SpacedOut (marks.map Mark.text) text) : scan text = some marks := by
  cases marks with
  | nil => cases h
  | cons mark marks =>
      rw [List.forall_mem_cons] at hStands
      cases h with
      | mk word hGap hRest =>
          rw [scan_layout hGap, hStands.1 _ hRest.isBlank, scan_spaced hStands.2 hRest]
          rfl

/-- A text with the tokens of another one, spaced out in its own way, has the same tokens. -/
theorem tokenize_spacedOut {source other : String} {lexemes : List Lexeme}
    (hLexemes : tokenize source = .ok lexemes)
    (hOther : SpacedOut ((properLexemes lexemes).map Lexeme.text) other.toList) :
    ∃ others, tokenize other = .ok others ∧
      others.map Lexeme.mark = lexemes.map Lexeme.mark := by
  obtain ⟨marks, hScan, hMarks⟩ := scan_of_tokenize hLexemes
  have hProper := properLexemes_marks hMarks (scan_proper hScan)
  have hStands : ∀ mark ∈ marks, mark.Stands := by
    rw [← hProper, List.forall_mem_map]
    intro lexeme hMember
    have hTiles := tiles_of_tokenize hLexemes
    refine hTiles.stands lexeme (List.takeWhile_subset _ hMember) fun hEnd => ?_
    have hInner := List.mem_takeWhile_imp hMember
    simp [Lexeme.isEnd, hEnd] at hInner
  have hTexts : (properLexemes lexemes).map Lexeme.text = marks.map Mark.text := by
    rw [← hProper, List.map_map]
    rfl
  rw [hTexts] at hOther
  obtain ⟨others, hOthers, hAgain⟩ := tokenize_of_scan (scan_spacedOut hStands hOther)
  exact ⟨others, hOthers, hAgain.trans hMarks.symm⟩

end QuantumCircuit
