import QuantumCircuit.Grammar.Statement

namespace QuantumCircuit

/-!
# From texts to trees

A phrase is read from the lexemes before the first end of the input, and has to
take all of them.  Lexemes that hold no end of the input end behind the last one.
-/

/-- The lexeme at which a list of lexemes ends. -/
def finalLexeme (lexemes : List Lexeme) : Lexeme :=
  match lexemes.find? Lexeme.isEnd with
  | some final => final
  | none =>
    match lexemes.getLast? with
    | some last => ⟨.endOfInput, "", last.stop, last.stop, last.endPosition⟩
    | none => ⟨.endOfInput, "", 0, 0, .start⟩

/-- The lexemes before the first end of the input. -/
def properLexemes (lexemes : List Lexeme) : List Lexeme :=
  lexemes.takeWhile fun lexeme => !lexeme.isEnd

/-- Reads a phrase that takes all of the input. -/
def readAll {α : Type} (reader : Grammar.Reader α) (lexemes : List Lexeme) :
    Except SyntaxError α :=
  match reader (properLexemes lexemes) with
  | .ok (value, []) => .ok value
  | .ok (_, rest) =>
    .error (Grammar.Mismatch.report ⟨[.token .endOfInput], rest⟩ (finalLexeme lexemes))
  | .error mismatch => .error (mismatch.report (finalLexeme lexemes))

/-- Reads a program, without checking it. -/
def Program.ofLexemes (mode : Grammar.Mode) (lexemes : List Lexeme) :
    Except SyntaxError Program :=
  (readAll (Grammar.statements mode) lexemes).map Program.mk

/-- Reads an expression. -/
def Expr.ofLexemes (lexemes : List Lexeme) : Except SyntaxError Expr :=
  readAll Grammar.expression lexemes

/-- The lexemes of a text, or what is wrong with it. -/
def lexemesOf (source : String) : Except Diagnostic (List Lexeme) :=
  (tokenize source).mapError .lexical

/-- Reads an expression from a text. -/
def Expr.parse (source : String) : Except Diagnostic Expr := do
  if source.isEmpty then .error (.missingArgument "expression")
  else
    let lexemes ← lexemesOf source
    (Expr.ofLexemes lexemes).mapError .syntactic

/-- Reads a program from a text, without checking it. -/
def Program.parse (mode : Grammar.Mode) (source : String) : Except Diagnostic Program := do
  let lexemes ← lexemesOf source
  (Program.ofLexemes mode lexemes).mapError .syntactic

end QuantumCircuit
