namespace QuantumCircuit
namespace Yaml

/-!
# The characters of a YAML text

A text may hold printable characters, tabs and line breaks only.  A byte order mark
at its start is dropped, and a carriage return, with a line feed behind it or alone,
and the control character for a next line count as a line feed.  The separators of
lines and paragraphs break lines, too, but stay what they are.
-/

/-- The mark that may stand at the start of a text. -/
def byteOrderMark : Char := '\uFEFF'

/-- The ranges of the characters that a text may hold. -/
def admittedRanges : List (Nat × Nat) :=
  [(0x09, 0x0A), (0x0D, 0x0D), (0x20, 0x7E), (0x85, 0x85), (0xA0, 0xD7FF), (0xE000, 0xFFFD),
    (0x10000, 0x10FFFF)]

/-- May a text hold the character? -/
def isAdmitted (c : Char) : Bool :=
  admittedRanges.any fun range => range.1 ≤ c.toNat && c.toNat ≤ range.2

/-- A blank or a tab. -/
def isPadding (c : Char) : Bool := c = ' ' || c = '\t'

/-- A line feed or a separator of lines or paragraphs. -/
def isBreak (c : Char) : Bool := c = '\n' || c = '\u2028' || c = '\u2029'

/-- Does a word end in front of the text? -/
def endsWord : List Char → Bool
  | [] => true
  | c :: _ => isPadding c || isBreak c

/-- An ASCII letter or digit, an underscore or a hyphen. -/
def isNameChar (c : Char) : Bool := c.isAlphanum || c = '_' || c = '-'

/-- The signs of collections in one line. -/
def isFlowSign (c : Char) : Bool := [',', '[', ']', '\x7b', '\x7d'].contains c

/-- Writes every line break but the separators as a line feed; `afterReturn` says whether a
carriage return stands before the text. -/
def unifyBreaks (afterReturn : Bool) : List Char → List Char
  | [] => []
  | c :: rest =>
    if c = '\n' && afterReturn then unifyBreaks false rest
    else if c = '\r' then '\n' :: unifyBreaks true rest
    else if c = '\u0085' then '\n' :: unifyBreaks false rest
    else c :: unifyBreaks false rest

/-- The characters of a text as they are read; none if the text holds one that it may not. -/
def characters? (text : String) : Option (List Char) :=
  let body := match text.toList with
    | [] => []
    | c :: rest => if c = byteOrderMark then rest else c :: rest
  if body.all isAdmitted then some (unifyBreaks false body) else none

/-- A place in a text: the lines before it and the characters before it on its line. -/
structure Mark where
  line : Nat
  column : Nat
deriving DecidableEq, Repr

namespace Mark

/-- The first place. -/
def start : Mark := ⟨0, 0⟩

/-- The place behind a character. -/
def advance (mark : Mark) (c : Char) : Mark :=
  if isBreak c then ⟨mark.line + 1, 0⟩ else ⟨mark.line, mark.column + 1⟩

/-- The place so many characters further on the same line. -/
def forward (mark : Mark) (count : Nat) : Mark := ⟨mark.line, mark.column + count⟩

end Mark

/-- What is left of a text, and where it begins. -/
structure Cursor where
  rest : List Char
  mark : Mark
deriving DecidableEq, Repr

namespace Cursor

/-- Passes characters of one line. -/
def skip (cursor : Cursor) (count : Nat) : Cursor :=
  ⟨cursor.rest.drop count, cursor.mark.forward count⟩

/-- Splits off the characters that satisfy a test; none of them may break the line. -/
def span (test : Char → Bool) (cursor : Cursor) : List Char × Cursor :=
  let found := cursor.rest.takeWhile test
  (found, cursor.skip found.length)

/-- Passes blanks and tabs. -/
def skipPadding (cursor : Cursor) : Cursor := (cursor.span isPadding).2

/-- Passes what is left of a line that holds at most a comment, and the line break. -/
def endLine? (cursor : Cursor) : Option Cursor :=
  let padded := cursor.skipPadding
  let commented :=
    if padded.rest.head? = some '#' then (padded.span fun c => !isBreak c).2 else padded
  match commented.rest with
  | [] => some commented
  | c :: rest => if isBreak c then some ⟨rest, commented.mark.advance c⟩ else none

end Cursor

/-- Does the text begin with three equal signs that stand alone? -/
def beginsRule (sign : Char) (text : List Char) : Bool :=
  text.take 3 = [sign, sign, sign] && endsWord (text.drop 3)

/-- Does the text begin with the end or the start of a document, given where it stands? -/
def beginsBoundary (mark : Mark) (text : List Char) : Bool :=
  mark.column = 0 && (beginsRule '-' text || beginsRule '.' text)

end Yaml
end QuantumCircuit
