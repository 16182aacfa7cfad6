import QuantumCircuit.Proofs.Token.Rules
import QuantumCircuit.Proofs.Token.Scan

/-!
# Cutting takes the longest match

A text is cut by looking at its first characters, one case for each kind of piece.  Here this is
compared with the rules of tokens, none of which knows about the others.

* `Rule.Takes.cut?_eq` : what has the longest match is cut off.
* `exists_takes_of_cut?` : what is cut off has the longest match.
* `tokenize_longestMatch` : a text is tokenized by the longest match, and where this fails.
-/

namespace QuantumCircuit

variable {text front rest : List Char}

/-! ### Exponents -/

/-- What is split off is an exponent, unless it is nothing. -/
theorem splitExponent_isExponent (text : List Char) :
    (splitExponent text).1 = [] ∨ IsExponent (splitExponent text).1 := by
  cases text with
  | nil => exact Or.inl rfl
  | cons letter rest =>
      simp only [splitExponent]
      split
      · rename_i hLetter
        split
        · exact Or.inl rfl
        · rename_i hDigits
          refine Or.inr (.mk hLetter ?_ ⟨hDigits, fun c hc => List.mem_takeWhile_imp hc⟩)
          unfold splitSign
          split <;> simp
      · exact Or.inl rfl

/-- The sign of an exponent is split off. -/
theorem splitSign_append_digits {sign digits : List Char}
    (hSign : sign = [] ∨ sign = ['+'] ∨ sign = ['-']) (hDigits : IsDigits digits)
    (rest : List Char) : splitSign (sign ++ (digits ++ rest)) = (sign, digits ++ rest) := by
  rcases hSign with rfl | rfl | rfl
  · obtain ⟨hSome, hAll⟩ := hDigits
    cases digits with
    | nil => exact absurd rfl hSome
    | cons c more => exact NumberLayout.splitSign_digit (hAll c (by simp)) (more ++ rest)
  · rfl
  · rfl

/-- An exponent is split off as a whole, if no digit follows it. -/
theorem splitExponent_exponent {exponent : List Char} (hExponent : IsExponent exponent)
    (hRest : ∀ c, rest.head? = some c → c.isDigit = false) :
    splitExponent (exponent ++ rest) = (exponent, rest) := by
  obtain @⟨letter, sign, digits, hLetter, hSign, hDigits⟩ := hExponent
  obtain ⟨hTake, hDrop⟩ := NumberLayout.span_digits hDigits.2 hRest
  have hSplit := splitSign_append_digits hSign hDigits rest
  rw [List.cons_append, List.append_assoc]
  simp only [splitExponent, if_pos hLetter, hSplit, hTake, hDrop, if_neg hDigits.1,
    List.cons_append]

/-- One more character with a property. -/
theorem forall_mem_snoc {P : Char → Prop} (hText : ∀ c ∈ text, P c) {last : Char} (hLast : P last) :
    ∀ c ∈ text ++ [last], P c := by
  rw [List.forall_mem_append, List.forall_mem_singleton]
  exact ⟨hText, hLast⟩

theorem IsDigits.snoc {digits : List Char} (h : IsDigits digits) {c : Char}
    (hDigit : c.isDigit = true) : IsDigits (digits ++ [c]) :=
  ⟨by simp, forall_mem_snoc h.2 hDigit⟩

/-- An exponent goes on with every digit behind it. -/
theorem IsExponent.snoc {exponent : List Char} (h : IsExponent exponent) {c : Char}
    (hDigit : c.isDigit = true) : IsExponent (exponent ++ [c]) := by
  obtain @⟨letter, sign, digits, hLetter, hSign, hDigits⟩ := h
  rw [List.cons_append, List.append_assoc]
  exact .mk hLetter hSign (hDigits.snoc hDigit)

/-- An exponent begins with a letter. -/
theorem IsExponent.head {exponent : List Char} (h : IsExponent exponent) :
    ∃ letter more, exponent = letter :: more ∧ (letter = 'e' ∨ letter = 'E') := by
  obtain ⟨hLetter, -, -⟩ := h
  exact ⟨_, _, rfl, hLetter⟩

/-- A list that begins with a character has it as its first front. -/
theorem singleton_prefix_of_head? {c : Char} (h : rest.head? = some c) : [c] <+: rest := by
  cases rest with
  | nil => cases h
  | cons d more =>
      cases h
      exact ⟨more, rfl⟩

/-- The exponent at a place, which may be none at all, cannot be made longer. -/
structure LongestExponent (exponent rest : List Char) : Prop where
  shape : exponent = [] ∨ IsExponent exponent
  longest : ∀ more, more <+: rest → IsExponent (exponent ++ more) → more = []

/-- The longest exponent is split off. -/
theorem LongestExponent.split {exponent : List Char} (h : LongestExponent exponent rest) :
    splitExponent (exponent ++ rest) = (exponent, rest) := by
  obtain ⟨rfl | hExponent, hLongest⟩ := h
  · have hAppend := splitExponent_append rest
    have hNone : (splitExponent rest).1 = [] := by
      rcases splitExponent_isExponent rest with hNone | hSome
      · exact hNone
      · exact hLongest _ ⟨_, hAppend⟩ hSome
    rw [hNone, List.nil_append] at hAppend
    exact Prod.ext hNone hAppend
  · refine splitExponent_exponent hExponent fun c hc => ?_
    by_contra hDigit
    rw [Bool.not_eq_false] at hDigit
    have hMore := hLongest [c] (singleton_prefix_of_head? hc) (hExponent.snoc hDigit)
    cases hMore

/-- Behind digits the longest exponent begins with no digit, if the digits end there. -/
theorem LongestExponent.not_isDigit {exponent : List Char} (h : LongestExponent exponent rest)
    (hRest : exponent = [] → ∀ c, rest.head? = some c → c.isDigit = false) :
    ∀ c, (exponent ++ rest).head? = some c → c.isDigit = false := by
  intro c hc
  rcases h.shape with rfl | hExponent
  · exact hRest rfl c hc
  · obtain ⟨letter, more, rfl, hLetter⟩ := hExponent.head
    cases hc
    rcases hLetter with rfl | rfl <;> rfl

/-! ### What has the longest match is cut off -/

namespace Rule

variable {rule other : Rule}

/-- Every text of a rule has a first character. -/
theorem Matches.ne_nil (h : rule.Matches text) : text ≠ [] := by
  cases h with
  | blanks hSome hBlank => exact hSome
  | keyword word => cases word <;> decide
  | function f => cases f <;> decide
  | pointed hWhole hFraction hExponent => simp
  | exponential hWhole hExponent => simp [hWhole.1]
  | integer hDigits => exact hDigits.1
  | symbol sign => cases sign <;> decide
  | _ => simp

/-- The longest match cannot be made longer. -/
theorem Takes.eq_nil (h : rule.Takes front rest) (other : Rule) {more : List Char}
    (hMore : more <+: rest)
    (hMatches : other.Matches (front ++ more)) : more = [] := by
  have hLength := h.longest other _ hMatches ((List.prefix_append_right_inj front).mpr hMore)
  rw [List.length_append] at hLength
  exact List.length_eq_zero_iff.mp (by omega)

/-- Behind the longest match stands no character that would make it longer. -/
theorem Takes.head?_eq_false (h : rule.Takes front rest) (other : Rule) (test : Char → Bool)
    (hMatches : ∀ c, test c = true → other.Matches (front ++ [c])) :
    ∀ c, rest.head? = some c → test c = false := by
  intro c hc
  by_contra hTest
  rw [Bool.not_eq_false] at hTest
  have hMore := h.eq_nil other (singleton_prefix_of_head? hc) (hMatches c hTest)
  cases hMore

/-- The pattern of the pieces that a rule describes. -/
def pattern : Rule → Pattern
  | blanks => .blank
  | comment => .comment
  | keyword _ | function _ | identifier => .word
  | real => .real
  | integer => .integer
  | string => .string
  | symbol sign => .symbol sign

theorem Takes.cut?_blanks (h : Takes .blanks front rest) :
    cut? (front ++ rest) = some (⟨.blank, front⟩, rest) := by
  obtain ⟨hSome, hBlank⟩ := h.matched
  have hRest := h.head?_eq_false .blanks isBlank fun c hc =>
    .blanks (by simp) (forall_mem_snoc hBlank hc)
  cases front with
  | nil => exact absurd rfl hSome
  | cons first more =>
      rw [List.cons_append, cut?, if_pos (hBlank first (by simp)), ← List.cons_append,
        cutRun_append_rest hBlank hRest]

theorem Takes.cut?_comment (h : Takes .comment front rest) :
    cut? (front ++ rest) = some (⟨.comment, front⟩, rest) := by
  have hMatched := h.matched
  cases hMatched with
  | @comment line hLine =>
      have hRun : ∀ c ∈ '/' :: '/' :: line, decide (c ≠ '\n') = true := by
        simpa using hLine
      have hRest := h.head?_eq_false .comment (fun c => c ≠ '\n')
        fun c hc => .comment (forall_mem_snoc hLine (by simpa using hc))
      have hCut : cut? (('/' :: '/' :: line) ++ rest) =
          some (cutRun .comment (· ≠ '\n') (('/' :: '/' :: line) ++ rest)) := by
        simp [cut?, isBlank, Char.isAlpha, Char.isUpper, Char.isLower, Char.isDigit]
      rw [hCut, cutRun_append_rest hRun hRest]

/-- A word with the longest match is cut off, whether it is reserved or not. -/
theorem Takes.cut?_word {word : String} (h : Takes rule word.toList rest) (hWord : IsWord word) :
    cut? (word.toList ++ rest) = some (⟨.word, word.toList⟩, rest) := by
  obtain ⟨first, more, hList, hAlpha⟩ := hWord.head
  have hChars := hWord.chars
  rw [hList] at h hChars
  refine QuantumCircuit.cut?_word hWord (h.head?_eq_false .identifier _ fun c hc => ?_)
  rw [List.cons_append]
  refine .identifier hAlpha fun d hd => ?_
  rw [List.mem_append, List.mem_singleton] at hd
  have hTest : isWordChar d = true := by
    rcases hd with hd | rfl
    · exact hChars d (List.mem_cons_of_mem _ hd)
    · exact hc
  simpa [isWordChar] using hTest

/-- Digits with the longest match: no digit, no point and no exponent follows. -/
theorem Takes.cut?_integer (h : Takes .integer front rest) :
    cut? (front ++ rest) = some (⟨.integer, front⟩, rest) := by
  have hMatched := h.matched
  cases hMatched with
  | integer hDigits =>
      have hRest := h.head?_eq_false .integer Char.isDigit fun c hc =>
        .integer (hDigits.snoc hc)
      obtain ⟨hTake, hDrop⟩ := NumberLayout.span_digits hDigits.2 hRest
      -- with a point or an exponent the digits would begin a longer real number
      have hPoint : rest.head? ≠ some '.' := by
        intro hHead
        have hMore := h.eq_nil .real (singleton_prefix_of_head? hHead)
          (.pointed hDigits (List.forall_mem_nil _) (Or.inl rfl))
        cases hMore
      have hExponent : LongestExponent [] rest := by
        refine ⟨Or.inl rfl, fun more hMore hSome => ?_⟩
        exact h.eq_nil .real hMore (.exponential hDigits hSome)
      have hNumber := NumberLayout.cutNumber_of_not_point hDrop hPoint hExponent.split
      rw [if_pos rfl, hTake] at hNumber
      obtain ⟨first, more, hFirst⟩ := List.exists_cons_of_ne_nil hDigits.1
      have hDigit : first.isDigit = true := hDigits.2 first (by simp [hFirst])
      rw [← hNumber, hFirst, List.cons_append, NumberLayout.cut?_of_isDigit hDigit]

/-- Digits behind a point and an exponent that cannot be made longer are split off. -/
theorem span_fraction {fraction exponent : List Char}
    (hFraction : ∀ c ∈ fraction, c.isDigit = true) (hExponent : exponent = [] ∨ IsExponent exponent)
    (hLongest : ∀ more, more <+: rest → ∀ digits last, fraction <+: digits →
      (∀ c ∈ digits, c.isDigit = true) → (last = [] ∨ IsExponent last) →
      fraction ++ (exponent ++ more) = digits ++ last → more = []) :
    (fraction ++ (exponent ++ rest)).takeWhile Char.isDigit = fraction ∧
      (fraction ++ (exponent ++ rest)).dropWhile Char.isDigit = exponent ++ rest ∧
      splitExponent (exponent ++ rest) = (exponent, rest) := by
  have hSplit : LongestExponent exponent rest :=
    ⟨hExponent, fun more hMore hSome =>
      hLongest more hMore _ _ (List.prefix_refl _) hFraction (Or.inr hSome) rfl⟩
  -- without an exponent, one more digit would make the fraction longer
  have hHead := hSplit.not_isDigit (by
    rintro rfl c hc
    by_contra hDigit
    rw [Bool.not_eq_false] at hDigit
    have hMore := hLongest [c] (singleton_prefix_of_head? hc) (fraction ++ [c]) []
      (List.prefix_append _ _) (forall_mem_snoc hFraction hDigit) (Or.inl rfl) (by simp)
    cases hMore)
  obtain ⟨hTake, hDrop⟩ := NumberLayout.span_digits hFraction hHead
  exact ⟨hTake, hDrop, hSplit.split⟩

/-- A real number with the longest match, in each of its forms. -/
theorem Takes.cut?_real (h : Takes .real front rest) :
    cut? (front ++ rest) = some (⟨.real, front⟩, rest) := by
  have hMatched := h.matched
  cases hMatched with
  | @pointed whole fraction exponent hWhole hFraction hExponent =>
      obtain ⟨hTake, hDrop, hSplit⟩ := span_fraction hFraction hExponent
        fun more hMore digits last _ hDigits hLast hSame => h.eq_nil .real hMore (by
          have hLonger := Matches.pointed hWhole hDigits hLast
          rw [← hSame] at hLonger
          simpa using hLonger)
      obtain ⟨hTake', hDrop'⟩ :=
        @NumberLayout.span_digits whole ('.' :: (fraction ++ (exponent ++ rest))) hWhole.2 (by simp)
      have hText : (whole ++ '.' :: (fraction ++ exponent)) ++ rest =
          whole ++ '.' :: (fraction ++ (exponent ++ rest)) := by simp
      have hNumber : cutNumber (whole ++ '.' :: (fraction ++ (exponent ++ rest))) =
          (⟨.real, whole ++ '.' :: (fraction ++ exponent)⟩, rest) := by
        simp only [cutNumber, hTake', hDrop', hTake, hDrop, hSplit]
        simp
      obtain ⟨first, more, rfl⟩ := List.exists_cons_of_ne_nil hWhole.1
      rw [hText, ← hNumber, List.cons_append,
        NumberLayout.cut?_of_isDigit (hWhole.2 first (by simp))]
  | @fractional fraction exponent hFraction hExponent =>
      obtain ⟨hTake, hDrop, hSplit⟩ := span_fraction hFraction.2 hExponent
        fun more hMore digits last hFront hDigits hLast hSame =>
          h.eq_nil .real hMore (by
            have hSome : digits ≠ [] := by
              rintro rfl
              exact hFraction.1 (List.prefix_nil.mp hFront)
            have hLonger := Matches.fractional ⟨hSome, hDigits⟩ hLast
            rw [← hSame] at hLonger
            simpa using hLonger)
      have hText : ('.' :: (fraction ++ exponent)) ++ rest =
          '.' :: (fraction ++ (exponent ++ rest)) := by simp
      have hCut : cut? ('.' :: (fraction ++ (exponent ++ rest))) =
          cutFraction (fraction ++ (exponent ++ rest)) := by
        simp [cut?, isBlank, Char.isAlpha, Char.isUpper, Char.isLower, Char.isDigit]
      rw [hText, hCut, cutFraction, hTake, if_neg hFraction.1, hDrop, hSplit]
      simp
  | @exponential whole exponent hWhole hExponent =>
      have hRest := h.head?_eq_false .real Char.isDigit fun c hc => by
        have hLonger := Matches.exponential hWhole (hExponent.snoc hc)
        rwa [← List.append_assoc] at hLonger
      have hSplit := splitExponent_exponent hExponent hRest
      obtain ⟨letter, more, rfl, hLetter⟩ := hExponent.head
      -- the whole part ends at the letter, and no point stands there
      have hHead : ∀ c, ((letter :: more) ++ rest).head? = some c → c.isDigit = false := by
        intro c hc
        cases hc
        rcases hLetter with rfl | rfl <;> rfl
      have hPoint : ((letter :: more) ++ rest).head? ≠ some '.' := by
        rcases hLetter with rfl | rfl <;> simp
      obtain ⟨hTake, hDrop⟩ := NumberLayout.span_digits hWhole.2 hHead
      have hNumber := NumberLayout.cutNumber_of_not_point hDrop hPoint hSplit
      rw [if_neg (by simp), hTake] at hNumber
      obtain ⟨first, others, rfl⟩ := List.exists_cons_of_ne_nil hWhole.1
      rw [List.append_assoc, ← hNumber, List.cons_append,
        NumberLayout.cut?_of_isDigit (hWhole.2 first (by simp))]

/-- Between the quotes of a string stands no character that ends it. -/
theorem Takes.cut?_string (h : Takes .string front rest) :
    cut? (front ++ rest) = some (⟨.string, front⟩, rest) := by
  have hMatched := h.matched
  cases hMatched with
  | @string content hContent =>
      have hChars : ∀ c ∈ content, isStringChar c = true := by simpa [isStringChar] using hContent
      have hCut := QuantumCircuit.cut?_string hChars rest
      simpa using hCut

/-- A symbol with the longest match is no front of another one or of a comment. -/
theorem Takes.cut?_symbol {sign : Symbol} (h : Takes (.symbol sign) sign.text.toList rest) :
    cut? (sign.text.toList ++ rest) = some (⟨.symbol sign, sign.text.toList⟩, rest) := by
  refine QuantumCircuit.cut?_symbol sign ?_
  -- only three symbols are fronts of longer texts
  cases sign with
  | minus =>
      intro hHead
      have hMore := h.eq_nil (.symbol .arrow) (singleton_prefix_of_head? hHead) (.symbol .arrow)
      cases hMore
  | slash =>
      intro hHead
      have hMore := h.eq_nil .comment (singleton_prefix_of_head? hHead)
        (.comment (List.forall_mem_nil _))
      cases hMore
  | assign =>
      intro hHead
      have hMore := h.eq_nil (.symbol .equals) (singleton_prefix_of_head? hHead) (.symbol .equals)
      cases hMore
  | _ => trivial

theorem Matches.isWord (h : Matches .identifier text) : IsWord (String.ofList text) := by
  cases h with
  | @identifier first rest hFirst hRest =>
      refine ⟨⟨first, rest, String.toList_ofList, hFirst⟩, fun c hc => ?_⟩
      rw [String.toList_ofList, List.mem_cons] at hc
      rcases hc with rfl | hc
      · simp [isWordChar, Char.isAlphanum, hFirst]
      · simpa [isWordChar] using hRest c hc

/-- **Cutting.**  What has the longest match is cut off as a piece of the rule's pattern. -/
theorem Takes.cut?_eq (h : rule.Takes front rest) :
    cut? (front ++ rest) = some (⟨rule.pattern, front⟩, rest) := by
  cases rule with
  | blanks => exact h.cut?_blanks
  | comment => exact h.cut?_comment
  | keyword word =>
      have hMatched := h.matched
      cases hMatched
      exact h.cut?_word word.isWord
  | function f =>
      have hMatched := h.matched
      cases hMatched
      exact h.cut?_word f.isWord
  | real => exact h.cut?_real
  | integer => exact h.cut?_integer
  | string => exact h.cut?_string
  | identifier =>
      have hWord := h.matched.isWord
      have hList : (String.ofList front).toList = front := String.toList_ofList
      have hCut := @Takes.cut?_word rest .identifier (String.ofList front) (by rwa [hList]) hWord
      rwa [hList] at hCut
  | symbol sign =>
      have hMatched := h.matched
      cases hMatched
      exact h.cut?_symbol

end Rule

/-! ### What is cut off has the longest match -/

theorem cutNumber_matches {c : Char} (hDigit : c.isDigit = true) (more : List Char) :
    ∃ rule, Rule.Matches rule (cutNumber (c :: more)).1.text := by
  have hWhole : IsDigits ((c :: more).takeWhile Char.isDigit) :=
    ⟨takeWhile_ne_nil Char.isDigit hDigit more, fun d hd => List.mem_takeWhile_imp hd⟩
  unfold cutNumber
  dsimp only
  split
  · rename_i rest hRest
    have hExponent := splitExponent_isExponent (rest.dropWhile Char.isDigit)
    have hFraction : ∀ d ∈ rest.takeWhile Char.isDigit, d.isDigit = true :=
      fun d hd => List.mem_takeWhile_imp hd
    have hReal := Rule.Matches.pointed hWhole hFraction hExponent
    exact ⟨.real, by simpa using hReal⟩
  · split
    · exact ⟨.integer, .integer hWhole⟩
    · rename_i hSome
      exact ⟨.real, .exponential hWhole ((splitExponent_isExponent _).resolve_left hSome)⟩

theorem cutSymbol_matches {piece : Piece} (h : cutSymbol text = some (piece, rest)) :
    ∃ rule, Rule.Matches rule piece.text := by
  unfold cutSymbol at h
  split at h <;> cases h
  · exact ⟨_, .symbol .equals⟩
  · exact ⟨_, .symbol .arrow⟩
  · exact ⟨_, .symbol .plus⟩
  · exact ⟨_, .symbol .minus⟩
  · exact ⟨_, .symbol .star⟩
  · exact ⟨_, .symbol .slash⟩
  · exact ⟨_, .symbol .caret⟩
  · exact ⟨_, .symbol .assign⟩
  · exact ⟨_, .symbol .leftParen⟩
  · exact ⟨_, .symbol .rightParen⟩
  · exact ⟨_, .symbol .leftBracket⟩
  · exact ⟨_, .symbol .rightBracket⟩
  · exact ⟨_, .symbol .leftBrace⟩
  · exact ⟨_, .symbol .rightBrace⟩
  · exact ⟨_, .symbol .semicolon⟩
  · exact ⟨_, .symbol .comma⟩

/-- Every piece is a text of a rule. -/
theorem cut?_matches {piece : Piece} (h : cut? text = some (piece, rest)) :
    ∃ rule, Rule.Matches rule piece.text := by
  cases text with
  | nil => cases h
  | cons c more =>
      simp only [cut?] at h
      split at h
      · rename_i hBlank
        cases h
        exact ⟨.blanks, .blanks (takeWhile_ne_nil isBlank hBlank more)
          fun d hd => List.mem_takeWhile_imp hd⟩
      split at h
      · rename_i hAlpha
        cases h
        have hFirst : isWordChar c = true := by simp [isWordChar, Char.isAlphanum, hAlpha]
        refine ⟨.identifier, ?_⟩
        rw [List.takeWhile_cons_of_pos hFirst]
        exact .identifier hAlpha fun d hd => by
          simpa [isWordChar] using List.mem_takeWhile_imp hd
      split at h
      · rename_i hDigit
        injection h with h
        have hNumber := cutNumber_matches hDigit more
        rwa [h] at hNumber
      split at h
      · simp only [cutFraction] at h
        split at h <;> cases h
        rename_i hSome
        have hReal := Rule.Matches.fractional ⟨hSome, fun d hd => List.mem_takeWhile_imp hd⟩
          (splitExponent_isExponent (more.dropWhile Char.isDigit))
        exact ⟨.real, by simpa using hReal⟩
      split at h
      · simp only [cutString] at h
        split at h <;> cases h
        refine ⟨.string, ?_⟩
        rw [List.cons_append]
        refine .string fun d hd => ?_
        simpa [isStringChar] using List.mem_takeWhile_imp hd
      split at h
      · rename_i hSlashes
        cases h
        obtain ⟨rfl, hSecond⟩ := hSlashes
        cases more with
        | nil => cases hSecond
        | cons d line =>
            cases hSecond
            refine ⟨.comment, ?_⟩
            rw [List.takeWhile_cons_of_pos (by decide), List.takeWhile_cons_of_pos (by decide)]
            exact .comment fun e he => by simpa using List.mem_takeWhile_imp he
      · exact cutSymbol_matches h

/-- Where some rule matches, one rule has the longest match. -/
theorem exists_takes {rule : Rule} {start text : List Char} (h : rule.Matches start)
    (hStart : start <+: text) :
    ∃ rule front rest, text = front ++ rest ∧ Rule.Takes rule front rest := by
  by_cases hLongest : ∀ (other : Rule) longer, other.Matches longer → longer <+: text →
      longer.length ≤ start.length
  · obtain ⟨rest, rfl⟩ := hStart
    -- a reserved word is matched by its own rule
    by_cases hKeyword : ∃ word : Keyword, word.text.toList = start
    · obtain ⟨word, rfl⟩ := hKeyword
      exact ⟨.keyword word, _, rest, rfl, .keyword word, hLongest, by simp⟩
    by_cases hFunction : ∃ f : MathFunction, f.name.toList = start
    · obtain ⟨f, rfl⟩ := hFunction
      exact ⟨.function f, _, rest, rfl, .function f, hLongest, by simp⟩
    exact ⟨rule, start, rest, rfl, h, hLongest,
      fun _ => ⟨not_exists.mp hKeyword, not_exists.mp hFunction⟩⟩
  · -- matches grow until the longest one is found: the text bounds their length
    push Not at hLongest
    obtain ⟨other, longer, hMatches, hPrefix, hLonger⟩ := hLongest
    exact exists_takes hMatches hPrefix
termination_by text.length - start.length
decreasing_by
  have hLength := hPrefix.length_le
  omega

/-- What is cut off has the longest match of some rule. -/
theorem exists_takes_of_cut? {piece : Piece} (h : cut? text = some (piece, rest)) :
    ∃ rule, text = piece.text ++ rest ∧ rule.pattern = piece.pattern ∧
      Rule.Takes rule piece.text rest := by
  -- some rule has the longest match, and that is what is cut off
  obtain ⟨other, hMatches⟩ := cut?_matches h
  have hText := cut?_append h
  obtain ⟨rule, front, behind, rfl, hTakes⟩ := exists_takes hMatches ⟨rest, hText⟩
  have hCut := hTakes.cut?_eq
  rw [hCut] at h
  cases h
  exact ⟨rule, rfl, rfl, hTakes⟩

/-- Nothing is cut off exactly where no rule matches. -/
theorem cut?_eq_none_iff :
    cut? text = none ↔ ∀ rule front, Rule.Matches rule front → ¬ front <+: text := by
  constructor
  · intro hNone rule front hMatches hPrefix
    obtain ⟨rule, front, rest, rfl, hTakes⟩ := exists_takes hMatches hPrefix
    rw [hTakes.cut?_eq] at hNone
    cases hNone
  · intro hNone
    cases hCut : cut? text with
    | none => rfl
    | some found =>
        obtain ⟨piece, rest⟩ := found
        obtain ⟨rule, hMatches⟩ := cut?_matches hCut
        exact absurd ⟨rest, cut?_append hCut⟩ (hNone rule piece.text hMatches)

/-! ### What a match denotes -/

namespace Rule

variable {rule : Rule}

/-- A text of a rule denotes one thing. -/
theorem Denotes.unique {first second : Reading} (hFirst : rule.Denotes text first)
    (hSecond : rule.Denotes text second) : first = second := by
  cases hFirst with
  | integer hValue =>
      cases hSecond with
      | integer hOther => rw [UInt64.toNat_inj.mp (hValue.trans hOther.symm)]
      | oversized hLarge =>
          rw [← hValue] at hLarge
          exact absurd (UInt64.toNat_lt _) (Nat.not_lt.mpr hLarge)
  | oversized hLarge =>
      cases hSecond with
      | integer hValue =>
          rw [← hValue] at hLarge
          exact absurd (UInt64.toNat_lt _) (Nat.not_lt.mpr hLarge)
      | oversized => rfl
  | real hFinite =>
      cases hSecond with
      | real => rfl
      | infinite hInfinite => simp [hFinite] at hInfinite
  | infinite hInfinite =>
      cases hSecond with
      | real hFinite => simp [hFinite] at hInfinite
      | infinite => rfl
  | string content =>
      generalize hText : '"' :: (content ++ ['"']) = text at hSecond
      cases hSecond with
      | string other => simp_all
  | _ => cases hSecond; rfl

/-- The piece of a rule is read as the rule says. -/
theorem Takes.denotes (h : rule.Takes front rest) :
    rule.Denotes front (Piece.reading ⟨rule.pattern, front⟩) := by
  have hMatched := h.matched
  cases rule with
  | blanks => exact .blanks front
  | comment => exact .comment front
  | keyword word =>
      cases hMatched
      have hToken : Piece.reading ⟨.word, word.text.toList⟩ = .token (.keyword word) := by
        rw [Piece.reading, String.ofList_toList, wordToken_keyword]
      exact hToken ▸ .keyword word _
  | function f =>
      cases hMatched
      have hToken : Piece.reading ⟨.word, f.name.toList⟩ = .token (.function f) := by
        rw [Piece.reading, String.ofList_toList, wordToken_function]
      exact hToken ▸ .function f _
  | real =>
      simp only [pattern, Piece.reading]
      split
      · rename_i hFinite
        exact .real hFinite
      · rename_i hInfinite
        exact .infinite (by simpa using hInfinite)
  | integer =>
      simp only [pattern, Piece.reading]
      split
      · rename_i hSmall
        exact .integer (UInt64.toNat_ofNat_of_lt hSmall)
      · rename_i hLarge
        exact .oversized (Nat.le_of_not_lt hLarge)
  | string =>
      cases hMatched with
      | @string content hContent =>
          simpa [pattern, Piece.reading] using Denotes.string content
  | identifier =>
      obtain ⟨hKeyword, hFunction⟩ := h.reserved rfl
      have hName : IsName (String.ofList front) := by
        refine ⟨hMatched.isWord, fun word hWord => ?_, fun f hName => ?_⟩
        · exact hKeyword word (by rw [hWord, String.toList_ofList])
        · exact hFunction f (by rw [hName, String.toList_ofList])
      have hToken : Piece.reading ⟨.word, front⟩ = .token (.identifier (String.ofList front)) := by
        rw [Piece.reading, (isName_iff.mp hName).2]
      exact hToken ▸ .identifier front
  | symbol sign => exact .symbol sign front

theorem Takes.denotes_iff (h : rule.Takes front rest) {reading : Reading} :
    rule.Denotes front reading ↔ Piece.reading ⟨rule.pattern, front⟩ = reading := by
  constructor
  · exact fun hDenotes => h.denotes.unique hDenotes
  · rintro rfl
    exact h.denotes

end Rule

/-! ### Tokenizing -/

theorem pieces_of_none (h : cut? text = none) : pieces text = ([], text) := by
  rw [pieces]
  split
  · rfl
  · rename_i hSome
    rw [h] at hSome
    cases hSome

/-- The pieces of a text behind its longest match. -/
theorem Rule.Takes.pieces_eq {rule : Rule} (h : rule.Takes front rest) :
    pieces (front ++ rest) = (⟨rule.pattern, front⟩ :: (pieces rest).1, (pieces rest).2) :=
  pieces_of_cut? h.cut?_eq

/-- Where a text cannot be read on, its next character is reported. -/
theorem Halts.layOut_eq {c : Char} (h : Halts (c :: rest)) (start : ℕ) (position : Position) :
    layOut start position (pieces (c :: rest)).2 (pieces (c :: rest)).1 =
      .error ⟨position, c⟩ := by
  generalize hText : c :: rest = text at h
  cases h with
  | unmatched hNone =>
      cases hText
      rw [pieces_of_none (cut?_eq_none_iff.mpr hNone)]
      rfl
  | @refused rule front behind hTakes hRefused =>
      rw [hTakes.denotes_iff] at hRefused
      obtain ⟨first, more, rfl⟩ := List.exists_cons_of_ne_nil hTakes.matched.ne_nil
      cases hText
      rw [hTakes.pieces_eq, layOut]
      simp only [hRefused]
      rfl

/-- Reading by the longest match gives what is laid out. -/
theorem Lexes.layOut_eq {start : ℕ} {position : Position}
    {result : Except LexicalError (List Lexeme)} (h : Lexes start position text result) :
    layOut start position (pieces text).2 (pieces text).1 = result := by
  induction h with
  | done start position =>
      rw [pieces_of_none rfl]
      rfl
  | gap hTakes hGap hRest ih =>
      rw [hTakes.denotes_iff] at hGap
      rw [hTakes.pieces_eq, layOut]
      simp only [hGap]
      exact ih
  | @token start position rule front rest token result hTakes hToken hRest ih =>
      rw [hTakes.denotes_iff] at hToken
      rw [hTakes.pieces_eq, layOut]
      simp only [hToken]
      rw [ih]
      cases result <;> rfl
  | halt hHalts => exact hHalts.layOut_eq _ _

/-- Every text is read by the longest match. -/
theorem lexes_layOut (text : List Char) (start : ℕ) (position : Position) :
    Lexes start position text (layOut start position (pieces text).2 (pieces text).1) := by
  fun_induction pieces text generalizing start position with
  | case1 text hNone =>
      cases text with
      | nil => exact .done start position
      | cons c rest => exact .halt (.unmatched (cut?_eq_none_iff.mp hNone))
  | case2 text piece rest hCut more unread hMore ih =>
      obtain ⟨pattern, front⟩ := piece
      obtain ⟨rule, rfl, rfl, hTakes⟩ := exists_takes_of_cut? hCut
      have hDenotes := hTakes.denotes
      rw [hMore] at ih
      rw [layOut]
      cases hReading : Piece.reading ⟨rule.pattern, front⟩ with
      | gap =>
          rw [hReading] at hDenotes
          exact .gap hTakes hDenotes (ih _ _)
      | token token =>
          rw [hReading] at hDenotes
          exact .token hTakes hDenotes (ih _ _)
      | refused =>
          rw [hReading] at hDenotes
          obtain ⟨c, others, rfl⟩ := List.exists_cons_of_ne_nil hTakes.matched.ne_nil
          exact .halt (.refused hTakes hDenotes)

theorem tokenize_eq_iff {source : String} {result : Except LexicalError (List Lexeme)} :
    tokenize source = result ↔ Lexes 0 .start source.toList result := by
  constructor
  · rintro rfl
    exact lexes_layOut source.toList 0 .start
  · exact fun h => h.layOut_eq

/-! ### Where reading fails -/

/-- A text whose reading fails can be passed up to the place where it halts. -/
theorem Lexes.exists_halt {start : ℕ} {position : Position} {error : LexicalError}
    (h : Lexes start position text (.error error)) :
    ∃ rest, Relation.ReflTransGen Passes text (error.character :: rest) ∧
      Halts (error.character :: rest) := by
  generalize hResult : Except.error error = result at h
  induction h with
  | done => cases hResult
  | gap hTakes hGap hRest ih =>
      obtain ⟨rest, hPasses, hHalts⟩ := ih hResult
      exact ⟨rest, .head (.gap hTakes hGap) hPasses, hHalts⟩
  | @token start position rule front rest token result hTakes hToken hRest ih =>
      cases result with
      | ok lexemes => cases hResult
      | error found =>
          cases hResult
          obtain ⟨rest, hPasses, hHalts⟩ := ih rfl
          exact ⟨rest, .head (.token hTakes hToken) hPasses, hHalts⟩
  | halt hHalts =>
      cases hResult
      exact ⟨_, .refl, hHalts⟩

/-- Where a text halts that can be reached, its reading fails. -/
theorem Lexes.of_halt {c : Char} (hPasses : Relation.ReflTransGen Passes text (c :: rest))
    (hHalts : Halts (c :: rest)) (start : ℕ) (position : Position) :
    ∃ place, Lexes start position text (.error ⟨place, c⟩) := by
  induction hPasses using Relation.ReflTransGen.head_induction_on generalizing start position with
  | refl => exact ⟨position, .halt hHalts⟩
  | head hStep hMore ih =>
      cases hStep with
      | @gap rule front rest hTakes hGap =>
          obtain ⟨place, hPlace⟩ := ih (start + byteLength front) (position.after front)
          exact ⟨place, .gap hTakes hGap hPlace⟩
      | @token rule front rest token hTakes hToken =>
          obtain ⟨place, hPlace⟩ := ih (start + byteLength front) (position.after front)
          exact ⟨place, .token hTakes hToken hPlace⟩

/-- **Longest match.**  Tokenizing gives a result exactly if reading by the longest match does.
It fails at a character exactly if the text can be passed up to a rest that begins with this
character and cannot be read on. -/
theorem tokenize_longestMatch (source : String) :
    (∀ result, tokenize source = result ↔ Lexes 0 .start source.toList result) ∧
      ∀ c, (∃ place, tokenize source = .error ⟨place, c⟩) ↔
        ∃ rest, Relation.ReflTransGen Passes source.toList (c :: rest) ∧ Halts (c :: rest) := by
  refine ⟨fun result => tokenize_eq_iff, fun c => ⟨?_, ?_⟩⟩
  · rintro ⟨place, hError⟩
    exact (tokenize_eq_iff.mp hError).exists_halt
  · rintro ⟨rest, hPasses, hHalts⟩
    obtain ⟨place, hPlace⟩ := Lexes.of_halt hPasses hHalts 0 .start
    exact ⟨place, tokenize_eq_iff.mpr hPlace⟩

end QuantumCircuit
