import QuantumCircuit.Proofs.Decimal.Literal
import QuantumCircuit.Token.Scan

/-!
# Scanning

For the grammar it only matters which tokens a text holds and by which characters they are
written, not where they stand.  `scan` gives just these marks.

* `tokenize_of_scan`, `scan_of_tokenize` : a text is tokenized exactly if it is scanned.
* One lemma for each kind of piece says how `scan` takes the piece off a longer text, and
  what may follow the piece: two pieces must not run into each other.
-/

namespace QuantumCircuit

/-- A token with its characters, wherever they stand. -/
structure Mark where
  token : Token
  text : String
deriving DecidableEq, Repr

/-- The mark of a lexeme. -/
def Lexeme.mark (lexeme : Lexeme) : Mark := ⟨lexeme.token, lexeme.text⟩

/-- The mark behind the last one of a text. -/
def endMark : Mark := ⟨.endOfInput, ""⟩

/-- The marks of pieces; none if a piece is refused. -/
def marksOf : List Piece → Option (List Mark)
  | [] => some []
  | piece :: more =>
    match piece.reading with
    | .gap => marksOf more
    | .token token => (marksOf more).map fun marks => ⟨token, String.ofList piece.text⟩ :: marks
    | .refused => none

/-- The marks of a text; none if it has a character where no token begins. -/
def scan (text : List Char) : Option (List Mark) :=
  if (pieces text).2 = [] then marksOf (pieces text).1 else none

/-! ### Scanning and tokenizing -/

/-- Pieces that can be laid out have marks, and the lexemes show them. -/
theorem layOut_eq_ok {start : ℕ} {position : Position} {unread : List Char}
    {found : List Piece} {lexemes : List Lexeme}
    (h : layOut start position unread found = .ok lexemes) :
    unread = [] ∧ ∃ marks, marksOf found = some marks ∧
      lexemes.map Lexeme.mark = marks ++ [endMark] := by
  induction found generalizing start position lexemes with
  | nil =>
      cases unread with
      | nil =>
          cases h
          exact ⟨rfl, [], rfl, rfl⟩
      | cons c more => cases h
  | cons piece more ih =>
      rw [layOut] at h
      rw [marksOf]
      cases hReading : piece.reading with
      | gap =>
          rw [hReading] at h
          exact ih h
      | token token =>
          rw [hReading] at h
          simp only at h
          cases hMore : layOut (start + byteLength piece.text) (position.after piece.text) unread
              more with
          | error error =>
              rw [hMore] at h
              cases h
          | ok others =>
              rw [hMore] at h
              cases h
              obtain ⟨hUnread, marks, hMarks, hOthers⟩ := ih hMore
              refine ⟨hUnread, ⟨token, String.ofList piece.text⟩ :: marks, by simp [hMarks], ?_⟩
              simp [hOthers, Lexeme.mark]
      | refused =>
          rw [hReading] at h
          cases h

/-- Pieces with marks can be laid out anywhere. -/
theorem layOut_of_marksOf {found : List Piece} {marks : List Mark}
    (h : marksOf found = some marks) (start : ℕ) (position : Position) :
    ∃ lexemes, layOut start position [] found = .ok lexemes ∧
      lexemes.map Lexeme.mark = marks ++ [endMark] := by
  induction found generalizing start position marks with
  | nil =>
      cases h
      exact ⟨_, rfl, rfl⟩
  | cons piece more ih =>
      rw [marksOf] at h
      rw [layOut]
      cases hReading : piece.reading with
      | gap =>
          rw [hReading] at h
          exact ih h _ _
      | token token =>
          rw [hReading] at h
          obtain ⟨others, hOthers, rfl⟩ := Option.map_eq_some_iff.mp h
          obtain ⟨lexemes, hLexemes, hMarks⟩ :=
            ih hOthers (start + byteLength piece.text) (position.after piece.text)
          simp only [hLexemes]
          exact ⟨_, rfl, by simp [hMarks, Lexeme.mark]⟩
      | refused =>
          rw [hReading] at h
          cases h

/-- **Scanning.**  A text can be tokenized exactly if it can be scanned, and the lexemes then
have the marks of the text. -/
theorem tokenize_of_scan {source : String} {marks : List Mark}
    (h : scan source.toList = some marks) :
    ∃ lexemes, tokenize source = .ok lexemes ∧ lexemes.map Lexeme.mark = marks ++ [endMark] := by
  unfold scan at h
  split at h
  · rename_i hUnread
    obtain ⟨lexemes, hLexemes, hMarks⟩ := layOut_of_marksOf h 0 .start
    refine ⟨lexemes, ?_, hMarks⟩
    rw [tokenize]
    dsimp only
    rw [hUnread, hLexemes]
  · cases h

theorem scan_of_tokenize {source : String} {lexemes : List Lexeme}
    (h : tokenize source = .ok lexemes) :
    ∃ marks, scan source.toList = some marks ∧
      lexemes.map Lexeme.mark = marks ++ [endMark] := by
  obtain ⟨hUnread, marks, hMarks, hLexemes⟩ := layOut_eq_ok h
  exact ⟨marks, by rw [scan, if_pos hUnread, hMarks], hLexemes⟩

/-! ### One piece -/

theorem scan_nil : scan [] = some [] := by
  have hPieces : pieces [] = ([], []) := by rw [pieces]; rfl
  simp [scan, hPieces, marksOf]

theorem pieces_of_cut? {text rest : List Char} {piece : Piece}
    (h : cut? text = some (piece, rest)) :
    pieces text = (piece :: (pieces rest).1, (pieces rest).2) := by
  rw [pieces]
  split
  · rename_i hNone
    rw [h] at hNone
    cases hNone
  · rename_i found behind hSome
    rw [h] at hSome
    cases hSome
    rfl

/-- A gap is skipped. -/
theorem scan_gap {text rest : List Char} {piece : Piece} (h : cut? text = some (piece, rest))
    (hReading : piece.reading = .gap) : scan text = scan rest := by
  simp [scan, pieces_of_cut? h, marksOf, hReading]

/-- A token is the first mark. -/
theorem scan_token {text rest : List Char} {piece : Piece} {token : Token}
    (h : cut? text = some (piece, rest)) (hReading : piece.reading = .token token) :
    scan text =
      (scan rest).map fun marks => ⟨token, String.ofList piece.text⟩ :: marks := by
  simp only [scan, pieces_of_cut? h, marksOf, hReading]
  split <;> rfl

/-! ### Blanks -/

/-- A blank in front changes nothing. -/
theorem scan_blank {c : Char} (hBlank : isBlank c = true) (rest : List Char) :
    scan (c :: rest) = scan rest := by
  have hCut (first : Char) (h : isBlank first = true) (more : List Char) :
      scan (first :: more) = scan (more.dropWhile isBlank) := by
    have hRun : cut? (first :: more) = some (cutRun .blank isBlank (first :: more)) := by
      rw [cut?, if_pos h]
    rw [scan_gap hRun rfl, List.dropWhile_cons_of_pos h]
  rw [hCut c hBlank rest]
  -- the blanks behind it are one gap with it, or the gap ends here
  cases rest with
  | nil => rfl
  | cons first more =>
      by_cases hFirst : isBlank first = true
      · rw [hCut first hFirst more, List.dropWhile_cons_of_pos hFirst]
      · rw [List.dropWhile_cons_of_neg hFirst]

@[simp]
theorem scan_space (rest : List Char) : scan (' ' :: rest) = scan rest := scan_blank rfl rest

@[simp]
theorem scan_lineFeed (rest : List Char) : scan ('\n' :: rest) = scan rest := scan_blank rfl rest

/-! ### Symbols -/

/-- The symbol does not run into what follows it. -/
def Symbol.StandsApart (sign : Symbol) (rest : List Char) : Prop :=
  match sign with
  | .minus => rest.head? ≠ some '>'
  | .slash => rest.head? ≠ some '/'
  | .assign => rest.head? ≠ some '='
  | _ => True

theorem cut?_symbol (sign : Symbol) {rest : List Char} (h : sign.StandsApart rest) :
    cut? (sign.text.toList ++ rest) =
      some (⟨.symbol sign, sign.text.toList⟩, rest) := by
  cases sign <;> cases rest <;> simp_all [Symbol.StandsApart, Symbol.text, cut?, isBlank,
    Char.isAlpha, Char.isUpper, Char.isLower, Char.isDigit, cutSymbol]

theorem scan_symbol (sign : Symbol) {rest : List Char} (h : sign.StandsApart rest) :
    scan (sign.text.toList ++ rest) =
      (scan rest).map fun marks => ⟨.symbol sign, sign.text⟩ :: marks := by
  rw [scan_token (cut?_symbol sign h) rfl, String.ofList_toList]

/-- A symbol of one character that nothing behind it can be drawn into. -/
theorem scan_sign {c : Char} (sign : Symbol) (hText : sign.text.toList = [c])
    (hApart : ∀ rest, sign.StandsApart rest) (rest : List Char) :
    scan (c :: rest) = (scan rest).map fun marks => ⟨.symbol sign, sign.text⟩ :: marks := by
  have hScan := scan_symbol sign (hApart rest)
  rwa [hText, List.singleton_append] at hScan

@[simp]
theorem scan_leftParen (rest : List Char) : scan ('(' :: rest) =
    (scan rest).map fun marks => ⟨.symbol .leftParen, "("⟩ :: marks :=
  scan_sign .leftParen rfl (fun _ => trivial) rest

@[simp]
theorem scan_rightParen (rest : List Char) : scan (')' :: rest) =
    (scan rest).map fun marks => ⟨.symbol .rightParen, ")"⟩ :: marks :=
  scan_sign .rightParen rfl (fun _ => trivial) rest

@[simp]
theorem scan_leftBracket (rest : List Char) : scan ('[' :: rest) =
    (scan rest).map fun marks => ⟨.symbol .leftBracket, "["⟩ :: marks :=
  scan_sign .leftBracket rfl (fun _ => trivial) rest

@[simp]
theorem scan_rightBracket (rest : List Char) : scan (']' :: rest) =
    (scan rest).map fun marks => ⟨.symbol .rightBracket, "]"⟩ :: marks :=
  scan_sign .rightBracket rfl (fun _ => trivial) rest

@[simp]
theorem scan_leftBrace (rest : List Char) : scan ('\x7b' :: rest) =
    (scan rest).map fun marks => ⟨.symbol .leftBrace, "\x7b"⟩ :: marks :=
  scan_sign .leftBrace rfl (fun _ => trivial) rest

@[simp]
theorem scan_rightBrace (rest : List Char) : scan ('\x7d' :: rest) =
    (scan rest).map fun marks => ⟨.symbol .rightBrace, "\x7d"⟩ :: marks :=
  scan_sign .rightBrace rfl (fun _ => trivial) rest

@[simp]
theorem scan_semicolon (rest : List Char) : scan (';' :: rest) =
    (scan rest).map fun marks => ⟨.symbol .semicolon, ";"⟩ :: marks :=
  scan_sign .semicolon rfl (fun _ => trivial) rest

@[simp]
theorem scan_comma (rest : List Char) : scan (',' :: rest) =
    (scan rest).map fun marks => ⟨.symbol .comma, ","⟩ :: marks :=
  scan_sign .comma rfl (fun _ => trivial) rest

@[simp]
theorem scan_arrow (rest : List Char) : scan ('-' :: '>' :: rest) =
    (scan rest).map fun marks => ⟨.symbol .arrow, "->"⟩ :: marks :=
  @scan_symbol .arrow rest trivial

@[simp]
theorem scan_equals (rest : List Char) : scan ('=' :: '=' :: rest) =
    (scan rest).map fun marks => ⟨.symbol .equals, "=="⟩ :: marks :=
  @scan_symbol .equals rest trivial

/-! ### Words and numbers -/

/-- No word and no number goes on into the text. -/
def Delimited (rest : List Char) : Prop :=
  ∀ c, rest.head? = some c → isWordChar c = false ∧ c ≠ '.'

theorem Delimited.cons {c : Char} (h : isWordChar c = false ∧ c ≠ '.') (rest : List Char) :
    Delimited (c :: rest) := by
  intro d hd
  cases hd
  exact h

theorem Delimited.endsNumber {rest : List Char} (h : Delimited rest) : EndsNumber rest := by
  intro c hc
  obtain ⟨hWord, hPoint⟩ := h c hc
  refine ⟨?_, hPoint, ?_, ?_⟩
  · simp only [isWordChar, Char.isAlphanum, Bool.or_eq_false_iff] at hWord
    exact hWord.1.2
  · rintro rfl
    revert hWord
    decide
  · rintro rfl
    revert hWord
    decide

/-- The characters of a word: a letter and then letters, digits and underscores. -/
structure IsWord (word : String) : Prop where
  head : ∃ first rest, word.toList = first :: rest ∧ first.isAlpha = true
  chars : ∀ c ∈ word.toList, isWordChar c = true

/-- A letter is no blank. -/
theorem not_isBlank_of_isAlpha {c : Char} (h : c.isAlpha = true) : isBlank c = false := by
  by_contra hBlank
  simp only [isBlank, Bool.not_eq_false, Bool.or_eq_true, decide_eq_true_eq] at hBlank
  rcases hBlank with (((rfl | rfl) | rfl) | rfl) | rfl <;> exact absurd h (by decide)

/-- A run ends where its test fails. -/
theorem cutRun_append_rest {pattern : Pattern} {test : Char → Bool} {run rest : List Char}
    (hRun : ∀ c ∈ run, test c = true) (hRest : ∀ c, rest.head? = some c → test c = false) :
    cutRun pattern test (run ++ rest) = (⟨pattern, run⟩, rest) := by
  rw [cutRun, List.takeWhile_append_of_pos hRun, List.dropWhile_append_of_pos hRun]
  cases rest with
  | nil => simp
  | cons c behind => simp [hRest c rfl]

theorem cut?_word {word : String} (hWord : IsWord word) {rest : List Char}
    (hRest : ∀ c, rest.head? = some c → isWordChar c = false) :
    cut? (word.toList ++ rest) = some (⟨.word, word.toList⟩, rest) := by
  obtain ⟨first, more, hList, hAlpha⟩ := hWord.head
  have hCut : cut? (word.toList ++ rest) =
      some (cutRun .word isWordChar (word.toList ++ rest)) := by
    rw [hList, List.cons_append, cut?, if_neg (by simp [not_isBlank_of_isAlpha hAlpha]),
      if_pos hAlpha]
  rw [hCut, cutRun_append_rest hWord.chars hRest]

theorem scan_word {word : String} (hWord : IsWord word) {rest : List Char}
    (hRest : Delimited rest) :
    scan (word.toList ++ rest) = (scan rest).map fun marks => ⟨wordToken word, word⟩ :: marks := by
  have hReading : (⟨.word, word.toList⟩ : Piece).reading = .token (wordToken word) := by
    simp [Piece.reading]
  rw [scan_token (cut?_word hWord fun c hc => (hRest c hc).1) hReading, String.ofList_toList]

/-- A finite number without a sign. -/
theorem scan_literal {x : Binary64} (hFinite : x.isFinite = true) (hSign : x.isNegative = false)
    {rest : List Char} (hRest : Delimited rest) :
    scan ((Expr.literalText x).toList ++ rest) =
      (scan rest).map fun marks => ⟨Expr.literalToken x, Expr.literalText x⟩ :: marks := by
  rw [scan_token (Expr.cut?_literalText hFinite hSign hRest.endsNumber)
    (Expr.reading_literalText hFinite hSign), String.ofList_toList]

/-- A word of 64 bits in digits. -/
theorem scan_integer (value : UInt64) {rest : List Char} (hRest : Delimited rest) :
    scan ((toString value.toNat).toList ++ rest) =
      (scan rest).map fun marks => ⟨.integer value, toString value.toNat⟩ :: marks := by
  let layout : NumberLayout := ⟨Decimal.digitsOf value.toNat, none, none⟩
  have hText : (toString value.toNat).toList = layout.text := by
    rw [Decimal.toList_toString_nat]
    simp [layout, NumberLayout.text, NumberLayout.fractionText, NumberLayout.exponentText]
  have hLayout : layout.WellFormed :=
    ⟨Decimal.digitsOf_ne_nil _, fun c hc => Decimal.isDigit_of_mem_digitsOf hc, by simp [layout]⟩
  have hCut := NumberLayout.cut?_text hLayout hRest.endsNumber
  rw [← hText] at hCut
  have hReading : (⟨layout.pattern, (toString value.toNat).toList⟩ : Piece).reading =
      .token (.integer value) := by
    have hBound : value.toNat < 2 ^ 64 := value.toNat_lt
    rw [Decimal.toList_toString_nat]
    simpa [layout, NumberLayout.pattern, Piece.reading] using hBound
  rw [scan_token hCut hReading, String.ofList_toList]

/-- The token of a version number with a point in it. -/
def versionToken (major minor : UInt32) : Token :=
  .real (Decimal.toBinary64
    ⟨Decimal.ofDigits (Decimal.digitsOf major.toNat ++ Decimal.digitsOf minor.toNat),
      -(Decimal.digitsOf minor.toNat).length⟩)

/-- The text of a version number. -/
def versionText (major minor : UInt32) : String :=
  toString major.toNat ++ "." ++ toString minor.toNat

/-- A run of digits is less than the power of ten of its length. -/
theorem ofDigits_lt (digits : List Char) (hDigits : ∀ c ∈ digits, c.isDigit = true) :
    Decimal.ofDigits digits < 10 ^ digits.length := by
  induction digits using List.reverseRecOn with
  | nil => simp [Decimal.ofDigits]
  | append_singleton digits c ih =>
      have hRest := ih fun d hd => hDigits d (by simp [hd])
      have hDigit := hDigits c (by simp)
      have hLess : c.toNat - '0'.toNat < 10 := by
        simp only [Char.isDigit, Bool.and_eq_true, decide_eq_true_eq] at hDigit
        have hUpper : c.toNat ≤ 57 := hDigit.2
        have hZero : '0'.toNat = 48 := rfl
        omega
      have hSnoc : Decimal.ofDigits (digits ++ [c]) =
          10 * Decimal.ofDigits digits + (c.toNat - '0'.toNat) := by
        simp [Decimal.ofDigits]
      rw [hSnoc, List.length_append, List.length_singleton, pow_succ]
      omega

/-- Digits behind the point count for less than one. -/
theorem ofDigits_append (whole fraction : List Char) :
    Decimal.ofDigits (whole ++ fraction) =
      Decimal.ofDigits whole * 10 ^ fraction.length + Decimal.ofDigits fraction := by
  rw [Decimal.ofDigits_eq, Decimal.ofDigits_eq, Decimal.ofDigits_eq, Nat.ofDigitChars_append,
    Nat.ofDigitChars_eq_ofDigitChars_zero, mul_comm]

theorem scan_version (major minor : UInt32) {rest : List Char} (hRest : Delimited rest) :
    scan ((versionText major minor).toList ++ rest) = (scan rest).map fun marks =>
      ⟨versionToken major minor, versionText major minor⟩ :: marks := by
  let layout : NumberLayout :=
    ⟨Decimal.digitsOf major.toNat, some (Decimal.digitsOf minor.toNat), none⟩
  have hText : (versionText major minor).toList = layout.text := by
    simp [versionText, Decimal.digitsOf, layout, NumberLayout.text, NumberLayout.fractionText,
      NumberLayout.exponentText]
  have hDigits (n : ℕ) : ∀ c ∈ Decimal.digitsOf n, c.isDigit = true :=
    fun c hc => Decimal.isDigit_of_mem_digitsOf hc
  have hLayout : layout.WellFormed := by
    refine ⟨Decimal.digitsOf_ne_nil _, hDigits _, ?_⟩
    rintro _ ⟨⟩
    exact hDigits _
  have hDecimal : layout.decimal =
      ⟨Decimal.ofDigits (Decimal.digitsOf major.toNat ++ Decimal.digitsOf minor.toNat),
        -(Decimal.digitsOf minor.toNat).length⟩ := by
    simp [layout, NumberLayout.decimal]
  -- the value is less than one above the major number, so that it is far from infinite
  have hFinite : layout.decimal.toBinary64.isFinite = true := by
    apply Decimal.isFinite_toBinary64
    have hMajor : (major.toNat : ℚ) + 1 ≤ 2 ^ 32 := by exact_mod_cast major.toNat_lt
    have hMinor := ofDigits_lt _ (hDigits minor.toNat)
    have hMinor' : (Decimal.ofDigits (Decimal.digitsOf minor.toNat) : ℚ) <
        10 ^ (Decimal.digitsOf minor.toNat).length := by exact_mod_cast hMinor
    have hPower : (0 : ℚ) < 10 ^ (Decimal.digitsOf minor.toNat).length := by positivity
    rw [hDecimal, Decimal.value, ofDigits_append, Decimal.ofDigits_digitsOf major.toNat, zpow_neg,
      zpow_natCast, ← div_eq_mul_inv, div_lt_iff₀ hPower]
    push_cast
    nlinarith
  have hCut := NumberLayout.cut?_text hLayout hRest.endsNumber
  have hReading : (⟨layout.pattern, layout.text⟩ : Piece).reading =
      .token (versionToken major minor) := by
    have hPattern : layout.pattern = .real := rfl
    simp only [hPattern, Piece.reading, NumberLayout.read_text hLayout, if_pos hFinite]
    rw [hDecimal]
    rfl
  rw [← hText] at hCut hReading
  rw [scan_token hCut hReading, String.ofList_toList]

/-- The content of a string is cut off with its quotes. -/
theorem cut?_string {content : List Char} (hContent : ∀ c ∈ content, isStringChar c = true)
    (rest : List Char) :
    cut? ('"' :: (content ++ '"' :: rest)) = some (⟨.string, '"' :: content ++ ['"']⟩, rest) := by
  -- the run of characters ends at the closing quote, which belongs to the piece
  have hTake : (content ++ '"' :: rest).takeWhile isStringChar = content := by
    rw [List.takeWhile_append_of_pos hContent]
    simp [isStringChar]
  have hDrop : (content ++ '"' :: rest).dropWhile isStringChar = '"' :: rest := by
    rw [List.dropWhile_append_of_pos hContent]
    simp [isStringChar]
  have hString : cut? ('"' :: (content ++ '"' :: rest)) = cutString (content ++ '"' :: rest) := by
    simp [cut?, isBlank, Char.isAlpha, Char.isUpper, Char.isLower, Char.isDigit]
  rw [hString, cutString, hDrop, hTake]
  rfl

/-- The content of a string between quotes. -/
theorem scan_string {content : String} (hContent : ∀ c ∈ content.toList, isStringChar c = true)
    (rest : List Char) :
    scan ('"' :: (content.toList ++ '"' :: rest)) = (scan rest).map fun marks =>
      ⟨.string content, "\"" ++ content ++ "\""⟩ :: marks := by
  have hCut := cut?_string hContent rest
  have hText : String.ofList ('"' :: content.toList ++ ['"']) = "\"" ++ content ++ "\"" := by
    apply String.toList_inj.mp
    simp
  have hReading : (⟨.string, '"' :: content.toList ++ ['"']⟩ : Piece).reading =
      .token (.string content) := by
    simp [Piece.reading]
  rw [scan_token hCut hReading, hText]

/-! ### Names and reserved words -/

/-- A name that a text can give to something: a word that is not reserved. -/
structure IsName (name : String) : Prop where
  word : IsWord name
  not_keyword : ∀ keyword : Keyword, keyword.text ≠ name
  not_function : ∀ f : MathFunction, f.name ≠ name

theorem Keyword.mem_all (keyword : Keyword) : keyword ∈ Keyword.all := by
  cases keyword <;> decide

theorem MathFunction.mem_all (f : MathFunction) : f ∈ MathFunction.all := by
  cases f <;> decide

/-- A word is a name exactly if it is read as an identifier. -/
theorem isName_iff {name : String} :
    IsName name ↔ IsWord name ∧ wordToken name = .identifier name := by
  unfold wordToken
  constructor
  · rintro ⟨hWord, hKeyword, hFunction⟩
    refine ⟨hWord, ?_⟩
    rw [List.find?_eq_none.mpr fun keyword _ => by simpa using hKeyword keyword]
    simp only
    rw [List.find?_eq_none.mpr fun f _ => by simpa using hFunction f]
  · rintro ⟨hWord, hToken⟩
    refine ⟨hWord, ?_, ?_⟩
    · intro keyword hText
      split at hToken
      · cases hToken
      · rename_i hNone
        exact absurd (List.find?_eq_none.mp hNone keyword keyword.mem_all) (by simp [hText])
    · intro f hText
      split at hToken
      · cases hToken
      · split at hToken
        · cases hToken
        · rename_i hNone
          exact absurd (List.find?_eq_none.mp hNone f f.mem_all) (by simp [hText])

theorem Keyword.isWord (keyword : Keyword) : IsWord keyword.text := by
  constructor
  · cases keyword <;> exact ⟨_, _, rfl, rfl⟩
  · have hChars : keyword.text.toList.all isWordChar = true := by cases keyword <;> rfl
    exact List.all_eq_true.mp hChars

theorem MathFunction.isWord (f : MathFunction) : IsWord f.name := by
  constructor
  · cases f <;> exact ⟨_, _, rfl, rfl⟩
  · have hChars : f.name.toList.all isWordChar = true := by cases f <;> rfl
    exact List.all_eq_true.mp hChars

theorem wordToken_keyword (keyword : Keyword) : wordToken keyword.text = .keyword keyword := by
  cases keyword <;> rfl

theorem wordToken_function (f : MathFunction) : wordToken f.name = .function f := by
  cases f <;> rfl

/-- A word of the grammar in front of a longer text. -/
theorem scan_keyword (keyword : Keyword) {rest : List Char} (hRest : Delimited rest) :
    scan (keyword.text.toList ++ rest) =
      (scan rest).map fun marks => ⟨.keyword keyword, keyword.text⟩ :: marks := by
  rw [scan_word keyword.isWord hRest, wordToken_keyword]

theorem scan_function (f : MathFunction) {rest : List Char} (hRest : Delimited rest) :
    scan (f.name.toList ++ rest) =
      (scan rest).map fun marks => ⟨.function f, f.name⟩ :: marks := by
  rw [scan_word f.isWord hRest, wordToken_function]

theorem scan_name {name : String} (hName : IsName name) {rest : List Char}
    (hRest : Delimited rest) :
    scan (name.toList ++ rest) =
      (scan rest).map fun marks => ⟨.identifier name, name⟩ :: marks := by
  rw [scan_word hName.word hRest, (isName_iff.mp hName).2]

end QuantumCircuit
