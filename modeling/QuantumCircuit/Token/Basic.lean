import QuantumCircuit.Decimal.Text
import QuantumCircuit.Expr.Basic
import QuantumCircuit.Position

namespace QuantumCircuit

/-!
# Tokens

A text is a sequence of tokens: reserved words, numbers, strings, identifiers and
symbols, and after them the end of the input.  A lexeme is a token as it stands
in a text: its characters, the bytes it covers and its place.
-/

/-- The reserved words other than the names of functions. -/
inductive Keyword where
  | version
  | inclusion
  | qreg
  | creg
  | gate
  | opaqueGate
  | measure
  | reset
  | barrier
  | condition
  | pi
deriving DecidableEq, Repr, Inhabited

namespace Keyword

/-- The word itself. -/
def text : Keyword → String
  | version => "OPENQASM"
  | inclusion => "include"
  | qreg => "qreg"
  | creg => "creg"
  | gate => "gate"
  | opaqueGate => "opaque"
  | measure => "measure"
  | reset => "reset"
  | barrier => "barrier"
  | condition => "if"
  | pi => "pi"

/-- Every keyword. -/
def all : List Keyword :=
  [version, inclusion, qreg, creg, gate, opaqueGate, measure, reset, barrier, condition, pi]

end Keyword

/-- The operators and the punctuation. -/
inductive Symbol where
  | plus
  | minus
  | star
  | slash
  | caret
  | assign
  | equals
  | arrow
  | leftParen
  | rightParen
  | leftBracket
  | rightBracket
  | leftBrace
  | rightBrace
  | semicolon
  | comma
deriving DecidableEq, Repr, Inhabited

/-- The characters of a symbol. -/
def Symbol.text : Symbol → String
  | plus => "+"
  | minus => "-"
  | star => "*"
  | slash => "/"
  | caret => "^"
  | assign => "="
  | equals => "=="
  | arrow => "->"
  | leftParen => "("
  | rightParen => ")"
  | leftBracket => "["
  | rightBracket => "]"
  | leftBrace => "\x7b"
  | rightBrace => "\x7d"
  | semicolon => ";"
  | comma => ","

/-- A token with what it denotes. -/
inductive Token where
  | keyword (word : Keyword)
  | function (f : MathFunction)
  | real (value : Binary64)
  | integer (value : UInt64)
  | string (content : String)
  | identifier (name : String)
  | symbol (sign : Symbol)
  | endOfInput
deriving DecidableEq, Repr, Inhabited

/-- A token without what it denotes: the kinds that a grammar tells apart. -/
inductive TokenKind where
  | keyword (word : Keyword)
  | function
  | real
  | integer
  | string
  | identifier
  | symbol (sign : Symbol)
  | endOfInput
deriving DecidableEq, Repr, Inhabited

/-- The name of a kind where a text lists what it expected. -/
def TokenKind.description : TokenKind → String
  | keyword word => "`" ++ word.text ++ "`"
  | function => "function name"
  | real => "real number"
  | integer => "integer"
  | string => "string"
  | identifier => "identifier"
  | symbol sign => "`" ++ sign.text ++ "`"
  | endOfInput => "end of input"

/-- The coarse classes of tokens. -/
inductive TokenClass where
  | keyword
  | identifier
  | number
  | string
  | symbol
  | endOfInput
deriving DecidableEq, Repr

namespace Token

/-- The kind of a token. -/
def kind : Token → TokenKind
  | keyword word => .keyword word
  | function _ => .function
  | real _ => .real
  | integer _ => .integer
  | string _ => .string
  | identifier _ => .identifier
  | symbol sign => .symbol sign
  | endOfInput => .endOfInput

/-- The class of a token; the names of functions are reserved words. -/
def category : Token → TokenClass
  | keyword _ | function _ => .keyword
  | real _ | integer _ => .number
  | string _ => .string
  | identifier _ => .identifier
  | symbol _ => .symbol
  | endOfInput => .endOfInput

/-- A text for a token.  Numbers are written from their value, reals never with an exponent. -/
def text : Token → String
  | keyword word => word.text
  | function f => f.name
  | real value => NumberStyle.plain.text value
  | integer value => toString value.toNat
  | string content => "\"" ++ content ++ "\""
  | identifier name => name
  | symbol sign => sign.text
  | endOfInput => "<eof>"

end Token

/-- A token as it stands in a text. -/
structure Lexeme where
  token : Token
  /-- The characters of the token; none at the end of the input. -/
  text : String
  /-- The byte at which the token begins. -/
  start : Nat
  /-- The byte behind its last one. -/
  stop : Nat
  position : Position
deriving DecidableEq, Repr, Inhabited

namespace Lexeme

/-- Does the lexeme end the input? -/
def isEnd (lexeme : Lexeme) : Bool := lexeme.token = .endOfInput

/-- How a lexeme is named where a text says what it found. -/
def found (lexeme : Lexeme) : String :=
  if lexeme.isEnd then "end of input" else "`" ++ lexeme.text ++ "`"

/-- The place right behind a lexeme, on its own line; its column stops at the largest word. -/
def endPosition (lexeme : Lexeme) : Position :=
  ⟨lexeme.position.line, saturatingCount lexeme.position.column lexeme.text.length⟩

end Lexeme

end QuantumCircuit
