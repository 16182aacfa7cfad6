import QuantumCircuit.Decimal.Reading
import QuantumCircuit.Token.Basic

namespace QuantumCircuit

/-!
# Cutting a text into pieces

A text is cut from left to right, and each cut takes the longest piece that any
pattern matches: blanks, a comment, a word, an integer, a real number, a string
or a symbol.  A real number has a point or an exponent; an exponent needs at least
one digit, and where it has none the number ends before its letter.

Cutting knows nothing about places and values.  What a piece denotes is decided
by `Piece.reading`, which may also refuse it.
-/

/-- The patterns of pieces. -/
inductive Pattern where
  | blank
  | comment
  | word
  | integer
  | real
  | string
  | symbol (sign : Symbol)
deriving DecidableEq, Repr

/-- A blank, a tab, a carriage return, a line feed or a form feed. -/
def isBlank (c : Char) : Bool :=
  c = ' ' || c = '\t' || c = '\r' || c = '\n' || c = '\x0c'

/-- An ASCII letter, an ASCII digit or an underscore. -/
def isWordChar (c : Char) : Bool := c.isAlphanum || c = '_'

/-- May the character stand between the quotes of a string? -/
def isStringChar (c : Char) : Bool := c ≠ '"' && c ≠ '\n'

/-- Splits off the sign of an exponent, if there is one. -/
def splitSign : List Char → List Char × List Char
  | '+' :: rest => (['+'], rest)
  | '-' :: rest => (['-'], rest)
  | rest => ([], rest)

/-- Splits off an exponent: a letter, perhaps a sign, and at least one digit.  Nothing is
split off where the digits are missing. -/
def splitExponent : List Char → List Char × List Char
  | [] => ([], [])
  | letter :: rest =>
    if letter = 'e' ∨ letter = 'E' then
      let (sign, behind) := splitSign rest
      let digits := behind.takeWhile Char.isDigit
      if digits = [] then ([], letter :: rest)
      else (letter :: sign ++ digits, behind.dropWhile Char.isDigit)
    else ([], letter :: rest)

/-- A piece of a text. -/
structure Piece where
  pattern : Pattern
  text : List Char
deriving DecidableEq, Repr

/-- Cuts off the number at the start of a text that begins with a digit. -/
def cutNumber (text : List Char) : Piece × List Char :=
  let whole := text.takeWhile Char.isDigit
  match text.dropWhile Char.isDigit with
  | '.' :: rest =>
    let fraction := rest.takeWhile Char.isDigit
    let (exponent, behind) := splitExponent (rest.dropWhile Char.isDigit)
    (⟨.real, whole ++ '.' :: fraction ++ exponent⟩, behind)
  | rest =>
    let (exponent, behind) := splitExponent rest
    if exponent = [] then (⟨.integer, whole⟩, rest)
    else (⟨.real, whole ++ exponent⟩, behind)

/-- Cuts off a number without digits before its point, given what follows the point. -/
def cutFraction (rest : List Char) : Option (Piece × List Char) :=
  let fraction := rest.takeWhile Char.isDigit
  if fraction = [] then none
  else
    let (exponent, behind) := splitExponent (rest.dropWhile Char.isDigit)
    some (⟨.real, '.' :: fraction ++ exponent⟩, behind)

/-- Cuts off a string, given what follows its first quote. -/
def cutString (rest : List Char) : Option (Piece × List Char) :=
  match rest.dropWhile isStringChar with
  | '"' :: behind => some (⟨.string, '"' :: rest.takeWhile isStringChar ++ ['"']⟩, behind)
  | _ => none

/-- Cuts off a symbol. -/
def cutSymbol : List Char → Option (Piece × List Char)
  | '=' :: '=' :: rest => some (⟨.symbol .equals, ['=', '=']⟩, rest)
  | '-' :: '>' :: rest => some (⟨.symbol .arrow, ['-', '>']⟩, rest)
  | '+' :: rest => some (⟨.symbol .plus, ['+']⟩, rest)
  | '-' :: rest => some (⟨.symbol .minus, ['-']⟩, rest)
  | '*' :: rest => some (⟨.symbol .star, ['*']⟩, rest)
  | '/' :: rest => some (⟨.symbol .slash, ['/']⟩, rest)
  | '^' :: rest => some (⟨.symbol .caret, ['^']⟩, rest)
  | '=' :: rest => some (⟨.symbol .assign, ['=']⟩, rest)
  | '(' :: rest => some (⟨.symbol .leftParen, ['(']⟩, rest)
  | ')' :: rest => some (⟨.symbol .rightParen, [')']⟩, rest)
  | '[' :: rest => some (⟨.symbol .leftBracket, ['[']⟩, rest)
  | ']' :: rest => some (⟨.symbol .rightBracket, [']']⟩, rest)
  | '\x7b' :: rest => some (⟨.symbol .leftBrace, ['\x7b']⟩, rest)
  | '\x7d' :: rest => some (⟨.symbol .rightBrace, ['\x7d']⟩, rest)
  | ';' :: rest => some (⟨.symbol .semicolon, [';']⟩, rest)
  | ',' :: rest => some (⟨.symbol .comma, [',']⟩, rest)
  | _ => none

/-- Cuts off the run of characters that satisfy a test. -/
def cutRun (pattern : Pattern) (test : Char → Bool) (text : List Char) : Piece × List Char :=
  (⟨pattern, text.takeWhile test⟩, text.dropWhile test)

/-- Cuts off the first piece of a text; nothing if no pattern matches there. -/
def cut? : List Char → Option (Piece × List Char)
  | [] => none
  | c :: rest =>
    if isBlank c then some (cutRun .blank isBlank (c :: rest))
    else if c.isAlpha then some (cutRun .word isWordChar (c :: rest))
    else if c.isDigit then some (cutNumber (c :: rest))
    else if c = '.' then cutFraction rest
    else if c = '"' then cutString rest
    else if c = '/' ∧ rest.head? = some '/' then
      some (cutRun .comment (· ≠ '\n') (c :: rest))
    else cutSymbol (c :: rest)

/-! ### Nothing is lost -/

theorem splitSign_append (text : List Char) :
    (splitSign text).1 ++ (splitSign text).2 = text := by
  unfold splitSign
  split <;> rfl

theorem splitExponent_append (text : List Char) :
    (splitExponent text).1 ++ (splitExponent text).2 = text := by
  cases text with
  | nil => rfl
  | cons letter rest =>
    have hSign := splitSign_append rest
    simp only [splitExponent]
    split
    · split
      · rfl
      · simp [List.takeWhile_append_dropWhile, hSign]
    · rfl

theorem cutNumber_append (text : List Char) :
    (cutNumber text).1.text ++ (cutNumber text).2 = text := by
  have hText := List.takeWhile_append_dropWhile (p := Char.isDigit) (l := text)
  unfold cutNumber
  dsimp only
  split
  · rename_i rest hRest
    have hFraction := List.takeWhile_append_dropWhile (p := Char.isDigit) (l := rest)
    have hExponent := splitExponent_append (rest.dropWhile Char.isDigit)
    rw [hRest] at hText
    simp only [List.append_assoc, List.cons_append, hExponent, hFraction]
    exact hText
  · have hExponent := splitExponent_append (text.dropWhile Char.isDigit)
    split
    · exact hText
    · simp only [List.append_assoc, hExponent]
      exact hText

theorem cutFraction_append {rest behind : List Char} {piece : Piece}
    (h : cutFraction rest = some (piece, behind)) :
    piece.text ++ behind = '.' :: rest := by
  have hFraction := List.takeWhile_append_dropWhile (p := Char.isDigit) (l := rest)
  have hExponent := splitExponent_append (rest.dropWhile Char.isDigit)
  simp only [cutFraction] at h
  split at h
  · cases h
  · cases h
    simp only [List.append_assoc, List.cons_append, hExponent, hFraction]

theorem cutString_append {rest behind : List Char} {piece : Piece}
    (h : cutString rest = some (piece, behind)) :
    piece.text ++ behind = '"' :: rest := by
  have hRest := List.takeWhile_append_dropWhile (p := isStringChar) (l := rest)
  unfold cutString at h
  split at h
  · rename_i after hAfter
    cases h
    rw [hAfter] at hRest
    simpa using hRest
  · cases h

theorem cutSymbol_append {text behind : List Char} {piece : Piece}
    (h : cutSymbol text = some (piece, behind)) :
    piece.text ++ behind = text := by
  unfold cutSymbol at h
  split at h <;> cases h <;> rfl

theorem cutRun_append (pattern : Pattern) (test : Char → Bool) (text : List Char) :
    (cutRun pattern test text).1.text ++ (cutRun pattern test text).2 = text :=
  List.takeWhile_append_dropWhile

/-- The two parts of a cut make up the text when the parts of the same cut do. -/
theorem append_of_some {cut : Piece × List Char} {piece : Piece} {rest text : List Char}
    (h : some cut = some (piece, rest)) (hCut : cut.1.text ++ cut.2 = text) :
    piece.text ++ rest = text := by
  cases h
  exact hCut

/-- A piece and what follows it make up the text that was cut. -/
theorem cut?_append {text rest : List Char} {piece : Piece}
    (h : cut? text = some (piece, rest)) : piece.text ++ rest = text := by
  cases text with
  | nil => cases h
  | cons c tail =>
    simp only [cut?] at h
    split at h
    · exact append_of_some h (cutRun_append _ _ _)
    split at h
    · exact append_of_some h (cutRun_append _ _ _)
    split at h
    · exact append_of_some h (cutNumber_append _)
    split at h
    · rename_i hPoint; rw [hPoint]; exact cutFraction_append h
    split at h
    · rename_i hQuote; rw [hQuote]; exact cutString_append h
    split at h
    · exact append_of_some h (cutRun_append _ _ _)
    · exact cutSymbol_append h

/-! ### Every cut takes something -/

theorem takeWhile_ne_nil (test : Char → Bool) {c : Char} (h : test c = true) (rest : List Char) :
    (c :: rest).takeWhile test ≠ [] := by
  simp [h]

theorem cutNumber_ne_nil {c : Char} (h : c.isDigit = true) (rest : List Char) :
    (cutNumber (c :: rest)).1.text ≠ [] := by
  have hWhole := takeWhile_ne_nil Char.isDigit h rest
  unfold cutNumber
  dsimp only
  split
  · simp
  · split <;> simp [hWhole]

theorem cutSymbol_ne_nil {text behind : List Char} {piece : Piece}
    (h : cutSymbol text = some (piece, behind)) : piece.text ≠ [] := by
  unfold cutSymbol at h
  split at h <;> cases h <;> simp

/-- A piece has at least one character. -/
theorem cut?_ne_nil {text rest : List Char} {piece : Piece}
    (h : cut? text = some (piece, rest)) : piece.text ≠ [] := by
  cases text with
  | nil => cases h
  | cons c tail =>
    simp only [cut?] at h
    split at h
    · rename_i hBlank; cases h; exact takeWhile_ne_nil isBlank hBlank tail
    split at h
    · rename_i hAlpha
      cases h
      exact takeWhile_ne_nil isWordChar (by simp [isWordChar, Char.isAlphanum, hAlpha]) tail
    split at h
    · rename_i hDigit
      have hNumber := cutNumber_ne_nil hDigit tail
      injection h with h
      rwa [h] at hNumber
    split at h
    · simp only [cutFraction] at h
      split at h <;> cases h
      simp
    split at h
    · simp only [cutString] at h
      split at h <;> cases h
      simp
    split at h
    · rename_i hComment
      cases h
      exact takeWhile_ne_nil (· ≠ '\n') (by simp [hComment.1]) tail
    · exact cutSymbol_ne_nil h

/-- What follows a piece is shorter than the text that was cut. -/
theorem cut?_length_lt {text rest : List Char} {piece : Piece}
    (h : cut? text = some (piece, rest)) : rest.length < text.length := by
  have hText := congrArg List.length (cut?_append h)
  have hPiece := List.length_pos_iff.mpr (cut?_ne_nil h)
  simp only [List.length_append] at hText
  omega

/-- The pieces of a text, and what is left where no pattern matches. -/
def pieces (text : List Char) : List Piece × List Char :=
  match _h : cut? text with
  | none => ([], text)
  | some (piece, rest) =>
    let (more, unread) := pieces rest
    (piece :: more, unread)
termination_by text.length
decreasing_by exact cut?_length_lt _h

/-! ### What a piece denotes -/

/-- What a piece denotes. -/
inductive Reading where
  | gap
  | token (token : Token)
  | refused
deriving DecidableEq, Repr

/-- A word is a keyword, the name of a function or else an identifier. -/
def wordToken (word : String) : Token :=
  match Keyword.all.find? fun keyword => keyword.text = word with
  | some keyword => .keyword keyword
  | none =>
    match MathFunction.all.find? fun f => f.name = word with
    | some f => .function f
    | none => .identifier word

/-- Blanks and comments denote nothing.  An integer of `2 ^ 64` or more and a real number
too large to be finite are refused. -/
def Piece.reading (piece : Piece) : Reading :=
  match piece.pattern with
  | .blank | .comment => .gap
  | .word => .token (wordToken (String.ofList piece.text))
  | .integer =>
    let value := Decimal.ofDigits piece.text
    if value < Nat.pow 2 64 then .token (.integer (UInt64.ofNat value)) else .refused
  | .real =>
    let value := (Decimal.read piece.text).toBinary64
    if value.isFinite then .token (.real value) else .refused
  | .string => .token (.string (String.ofList (piece.text.drop 1).dropLast))
  | .symbol sign => .token (.symbol sign)

end QuantumCircuit
