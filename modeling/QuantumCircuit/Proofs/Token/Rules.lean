import Mathlib.Data.List.Infix
import Mathlib.Logic.Relation
import QuantumCircuit.Token.Scan

/-!
# The rules of tokens

A rule says which texts a token or a gap may have, and what such a text denotes.  The rules are
stated one by one, without regard to how a text is cut.  A text is then read by the longest match:
at each place the rule applies that matches the longest front of what is left, and a reserved word
wins over an identifier.

* `Rule.Matches`, `Rule.Denotes` : the texts of a rule and what they denote.
* `Rule.Takes` : a rule has the longest match at the start of a text.
* `Lexes` : reading a text to its end, or to the place where it cannot be read.
-/

namespace QuantumCircuit

/-! ### Texts of the rules -/

/-- At least one digit, and nothing but digits. -/
def IsDigits (text : List Char) : Prop := text ≠ [] ∧ ∀ c ∈ text, c.isDigit = true

/-- The letter of an exponent, perhaps a sign, and digits. -/
inductive IsExponent : List Char → Prop
  | mk {letter : Char} {sign digits : List Char} (hLetter : letter = 'e' ∨ letter = 'E')
      (hSign : sign = [] ∨ sign = ['+'] ∨ sign = ['-']) (hDigits : IsDigits digits) :
      IsExponent (letter :: (sign ++ digits))

/-- The kinds of tokens and gaps. -/
inductive Rule where
  | blanks
  | comment
  | keyword (word : Keyword)
  | function (f : MathFunction)
  | real
  | integer
  | string
  | identifier
  | symbol (sign : Symbol)
deriving DecidableEq, Repr

namespace Rule

/-- The texts of a rule.  A real number has one of three forms. -/
inductive Matches : Rule → List Char → Prop
  | blanks {text : List Char} (hSome : text ≠ []) (hBlank : ∀ c ∈ text, isBlank c = true) :
      Matches .blanks text
  | comment {line : List Char} (hLine : ∀ c ∈ line, c ≠ '\n') :
      Matches .comment ('/' :: '/' :: line)
  | keyword (word : Keyword) : Matches (.keyword word) word.text.toList
  | function (f : MathFunction) : Matches (.function f) f.name.toList
  | pointed {whole fraction exponent : List Char} (hWhole : IsDigits whole)
      (hFraction : ∀ c ∈ fraction, c.isDigit = true)
      (hExponent : exponent = [] ∨ IsExponent exponent) :
      Matches .real (whole ++ '.' :: (fraction ++ exponent))
  | fractional {fraction exponent : List Char} (hFraction : IsDigits fraction)
      (hExponent : exponent = [] ∨ IsExponent exponent) :
      Matches .real ('.' :: (fraction ++ exponent))
  | exponential {whole exponent : List Char} (hWhole : IsDigits whole)
      (hExponent : IsExponent exponent) : Matches .real (whole ++ exponent)
  | integer {digits : List Char} (hDigits : IsDigits digits) : Matches .integer digits
  | string {content : List Char} (hContent : ∀ c ∈ content, c ≠ '"' ∧ c ≠ '\n') :
      Matches .string ('"' :: (content ++ ['"']))
  | identifier {first : Char} {rest : List Char} (hFirst : first.isAlpha = true)
      (hRest : ∀ c ∈ rest, c.isAlphanum = true ∨ c = '_') : Matches .identifier (first :: rest)
  | symbol (sign : Symbol) : Matches (.symbol sign) sign.text.toList

/-- What a text of a rule denotes.  An integer that needs more than 64 bits and a real number that
is read as infinite are refused. -/
inductive Denotes : Rule → List Char → Reading → Prop
  | blanks (text : List Char) : Denotes .blanks text .gap
  | comment (text : List Char) : Denotes .comment text .gap
  | keyword (word : Keyword) (text : List Char) :
      Denotes (.keyword word) text (.token (.keyword word))
  | function (f : MathFunction) (text : List Char) :
      Denotes (.function f) text (.token (.function f))
  | real {text : List Char} (hFinite : (Decimal.read text).toBinary64.isFinite = true) :
      Denotes .real text (.token (.real (Decimal.read text).toBinary64))
  | infinite {text : List Char} (hInfinite : (Decimal.read text).toBinary64.isFinite = false) :
      Denotes .real text .refused
  | integer {text : List Char} {value : UInt64} (hValue : value.toNat = Decimal.ofDigits text) :
      Denotes .integer text (.token (.integer value))
  | oversized {text : List Char} (hLarge : Nat.pow 2 64 ≤ Decimal.ofDigits text) :
      Denotes .integer text .refused
  | string (content : List Char) :
      Denotes .string ('"' :: (content ++ ['"'])) (.token (.string (String.ofList content)))
  | identifier (text : List Char) :
      Denotes .identifier text (.token (.identifier (String.ofList text)))
  | symbol (sign : Symbol) (text : List Char) :
      Denotes (.symbol sign) text (.token (.symbol sign))

/-- The rule has the longest match at the start of `front ++ rest`, and the match is `front`. -/
structure Takes (rule : Rule) (front rest : List Char) : Prop where
  matched : rule.Matches front
  longest : ∀ (other : Rule) longer, other.Matches longer → longer <+: front ++ rest →
    longer.length ≤ front.length
  /-- A reserved word is no identifier. -/
  reserved : rule = .identifier →
    (∀ word : Keyword, word.text.toList ≠ front) ∧ ∀ f : MathFunction, f.name.toList ≠ front

end Rule

/-! ### Reading by the longest match -/

/-- A text that cannot be read on: no rule matches a front of it, or the longest match denotes
nothing. -/
inductive Halts : List Char → Prop
  | unmatched {c : Char} {rest : List Char}
      (hNone : ∀ rule front, Rule.Matches rule front → ¬ front <+: c :: rest) : Halts (c :: rest)
  | refused {rule : Rule} {front rest : List Char} (hTakes : rule.Takes front rest)
      (hRefused : rule.Denotes front .refused) : Halts (front ++ rest)

/-- The longest match at the start of a text is passed, with `rest` left behind it. -/
inductive Passes : List Char → List Char → Prop
  | gap {rule : Rule} {front rest : List Char} (hTakes : rule.Takes front rest)
      (hGap : rule.Denotes front .gap) : Passes (front ++ rest) rest
  | token {rule : Rule} {front rest : List Char} {token : Token} (hTakes : rule.Takes front rest)
      (hToken : rule.Denotes front (.token token)) : Passes (front ++ rest) rest

/-- Reading a text that begins at a byte and a place: gaps are skipped, every token becomes a
lexeme with its own characters, and the end of the text is a lexeme, too.  Where the text cannot
be read on, its next character is reported. -/
inductive Lexes : Nat → Position → List Char → Except LexicalError (List Lexeme) → Prop
  | done (start : Nat) (position : Position) :
      Lexes start position [] (.ok [⟨.endOfInput, "", start, start, position⟩])
  | gap {start : Nat} {position : Position} {rule : Rule} {front rest : List Char}
      {result : Except LexicalError (List Lexeme)} (hTakes : rule.Takes front rest)
      (hGap : rule.Denotes front .gap)
      (hRest : Lexes (start + byteLength front) (position.after front) rest result) :
      Lexes start position (front ++ rest) result
  | token {start : Nat} {position : Position} {rule : Rule} {front rest : List Char}
      {token : Token} {result : Except LexicalError (List Lexeme)}
      (hTakes : rule.Takes front rest) (hToken : rule.Denotes front (.token token))
      (hRest : Lexes (start + byteLength front) (position.after front) rest result) :
      Lexes start position (front ++ rest) (result.map fun lexemes =>
        ⟨token, String.ofList front, start, start + byteLength front, position⟩ :: lexemes)
  | halt {start : Nat} {position : Position} {c : Char} {rest : List Char}
      (hHalts : Halts (c :: rest)) : Lexes start position (c :: rest) (.error ⟨position, c⟩)

end QuantumCircuit
