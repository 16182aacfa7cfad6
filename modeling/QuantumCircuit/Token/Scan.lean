import QuantumCircuit.Token.Piece

namespace QuantumCircuit

/-!
# The tokens of a text

The pieces of a text are laid out one behind the other from the first place on,
and those that denote tokens become lexemes.  The list ends with the end of the
input.  Reading stops at the first piece that is refused and at the first
character where no piece begins.
-/

/-- A character that begins no token. -/
structure LexicalError where
  position : Position
  character : Char
deriving DecidableEq, Repr

/-- The wording of a lexical error. -/
def LexicalError.message (error : LexicalError) : String :=
  .join ["unrecognized character '", error.character.toString, "' at line ",
    toString error.position.line, ", column ", toString error.position.column]

/-- The number of bytes of a text. -/
def byteLength (text : List Char) : Nat :=
  text.foldl (fun total c => total + c.utf8Size) 0

/-- Lays out pieces from a byte and a place on; `unread` is what follows the last piece. -/
def layOut (start : Nat) (position : Position) (unread : List Char) :
    List Piece → Except LexicalError (List Lexeme)
  | [] =>
    match unread with
    | [] => .ok [⟨.endOfInput, "", start, start, position⟩]
    | c :: _ => .error ⟨position, c⟩
  | piece :: more =>
    let stop := start + byteLength piece.text
    match piece.reading with
    | .gap => layOut stop (position.after piece.text) unread more
    | .token token => do
      let lexemes ← layOut stop (position.after piece.text) unread more
      .ok (⟨token, String.ofList piece.text, start, stop, position⟩ :: lexemes)
    | .refused => .error ⟨position, piece.text.headD ' '⟩

/-- The lexemes of a text; the last one is the end of the input. -/
def tokenize (source : String) : Except LexicalError (List Lexeme) :=
  let (found, unread) := pieces source.toList
  layOut 0 .start unread found

/-- The characters of a text over which places are carried along while it is read: all of them, or
those in front of the first one that begins no token. -/
def scanned (text : List Char) : List Char :=
  ((pieces text).1.takeWhile fun piece => piece.reading ≠ .refused).flatMap Piece.text

/-- Does a counter of lines or columns overflow while the text is read?  A build with overflow
checks has no result for such a text. -/
def countersOverflow (source : String) : Bool :=
  Position.start.overflowsOver (scanned source.toList)

end QuantumCircuit
