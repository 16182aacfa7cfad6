import QuantumCircuit.Yaml.Text

namespace QuantumCircuit
namespace Yaml

/-!
# Scalars

A scalar is plain, or it stands between quotes, or it is a block of indented lines
behind a bar or an angle.  A plain or quoted scalar may go on over several lines:
blanks around a line break are dropped, a single line feed becomes a blank, and of
several line feeds the first one is dropped.
-/

/-- How a scalar is written. -/
inductive Style where
  | plain
  | single
  | double
  | literal
  | folded
deriving DecidableEq, Repr

/-! ### Gaps -/

/-- The blanks and line breaks between two words of a scalar. -/
structure Gap where
  /-- The blanks of a gap without a line break. -/
  padding : List Char
  broken : Bool
  /-- The first line break; none if it was written as an escape. -/
  first : List Char
  /-- The other line breaks. -/
  more : List Char
deriving DecidableEq, Repr

namespace Gap

/-- No gap. -/
def empty : Gap := ⟨[], false, [], []⟩

/-- The gap behind an escaped line break. -/
def escaped : Gap := ⟨[], true, [], []⟩

/-- Are there no blanks and no line breaks? -/
def isEmpty (gap : Gap) : Bool := gap.padding.isEmpty && !gap.broken

/-- Adds a blank; behind a line break it does not count. -/
def addPadding (gap : Gap) (c : Char) : Gap :=
  if gap.broken then gap else ⟨gap.padding ++ [c], false, [], []⟩

/-- Adds a line break. -/
def addBreak (gap : Gap) (c : Char) : Gap :=
  if gap.broken then ⟨[], true, gap.first, gap.more ++ [c]⟩ else ⟨[], true, [c], []⟩

/-- Adds a blank or a line break. -/
def add (gap : Gap) (c : Char) : Gap := if isBreak c then gap.addBreak c else gap.addPadding c

/-- What the gap adds to the scalar. -/
def joined (gap : Gap) : List Char :=
  if !gap.broken then gap.padding
  else if gap.first = ['\n'] then if gap.more.isEmpty then [' '] else gap.more
  else gap.first ++ gap.more

end Gap

/-! ### Plain scalars -/

/-- A plain scalar, whether a line break was passed behind it, and what follows. -/
structure PlainScalar where
  text : List Char
  broken : Bool
  next : Cursor
deriving Repr

/-- Does a plain scalar end in front of a word, behind a gap?  Outside flow collections the
word must be indented by `indent`. -/
def endsPlain (flow : Bool) (indent : Nat) (mark : Mark) (text : List Char) : Bool :=
  (!flow && mark.column < indent) || beginsBoundary mark text || text.head? = some '#'

/-- Does a sign that ends a plain scalar stand in front of a text? -/
def endsPlainWord (flow : Bool) (c : Char) (rest : List Char) : Bool :=
  (c = ':' && endsWord rest) || (flow && isFlowSign c)

/-- Is a colon out of place here? -/
def misplacedColon (flow : Bool) (c : Char) (rest : List Char) : Bool :=
  flow && c = ':' && (rest.head?.map fun next => isFlowSign next || next = '?').getD false

/-- Reads a plain scalar; `gap` is what has been passed since its last word. -/
def plainScalar? (flow : Bool) (indent : Nat) (gap : Gap) (mark : Mark) :
    List Char → Option PlainScalar
  | [] => some ⟨[], gap.broken, ⟨[], mark⟩⟩
  | c :: rest =>
    if isPadding c || isBreak c then
      if gap.broken && c = '\t' && mark.column < indent then none
      else plainScalar? flow indent (gap.add c) (mark.advance c) rest
    else if !gap.isEmpty && endsPlain flow indent mark (c :: rest) then
      some ⟨[], gap.broken, ⟨c :: rest, mark⟩⟩
    else if misplacedColon flow c rest then none
    else if endsPlainWord flow c rest then some ⟨[], gap.broken, ⟨c :: rest, mark⟩⟩
    else do
      let scalar ← plainScalar? flow indent .empty (mark.advance c) rest
      return ⟨gap.joined ++ c :: scalar.text, scalar.broken, scalar.next⟩

/-! ### Quoted scalars -/

/-- Puts text in front of a scalar that was read. -/
def withText (text : List Char) : Option (List Char × Cursor) → Option (List Char × Cursor) :=
  Option.map fun scalar => (text ++ scalar.1, scalar.2)

/-- Reads a scalar behind its single quote.  `quote` says whether a quote was just passed: a
second one stands for itself, and anything else follows the scalar. -/
def singleQuoted? (quote : Bool) (gap : Gap) (mark : Mark) :
    List Char → Option (List Char × Cursor)
  | [] => if quote then some ([], ⟨[], mark⟩) else none
  | c :: rest =>
    if quote then
      if c = '\'' then withText ['\''] (singleQuoted? false .empty (mark.advance c) rest)
      else some ([], ⟨c :: rest, mark⟩)
    else if isPadding c || isBreak c then
      singleQuoted? false (gap.add c) (mark.advance c) rest
    else if beginsBoundary mark (c :: rest) then none
    else if c = '\'' then
      withText gap.joined (singleQuoted? true .empty (mark.advance c) rest)
    else withText (gap.joined ++ [c]) (singleQuoted? false .empty (mark.advance c) rest)

/-- The characters that an escape of one letter stands for. -/
def simpleEscapes : List (Char × Char) :=
  [('0', '\x00'), ('a', '\x07'), ('b', '\x08'), ('t', '\t'), ('\t', '\t'), ('n', '\n'),
    ('v', '\x0b'), ('f', '\x0c'), ('r', '\r'), ('e', '\x1b'), (' ', ' '), ('"', '"'),
    ('/', '/'), ('\\', '\\'), ('N', '\u0085'), ('_', '\u00a0'), ('L', '\u2028'),
    ('P', '\u2029')]

/-- The number of hexadecimal digits behind the letter of an escape. -/
def escapeDigits : List (Char × Nat) := [('x', 2), ('u', 4), ('U', 8)]

/-- The value of a hexadecimal digit. -/
def hexDigit? (c : Char) : Option Nat :=
  if c.isDigit then some (c.toNat - '0'.toNat)
  else if 'a' ≤ c && c ≤ 'f' then some (c.toNat - 'a'.toNat + 10)
  else if 'A' ≤ c && c ≤ 'F' then some (c.toNat - 'A'.toNat + 10)
  else none

/-- The character with a number, if there is one. -/
def character? (n : Nat) : Option Char :=
  if (0xD800 ≤ n && n ≤ 0xDFFF) || 0x10FFFF < n then none else some (Char.ofNat n)

/-- What was just passed in a scalar between double quotes. -/
inductive DoubleState where
  | words (gap : Gap)
  | backslash
  /-- Digits of an escape are still to come; `value` is the number so far. -/
  | digits (missing : Nat) (value : Nat)
deriving DecidableEq, Repr

/-- Reads a scalar behind its double quote. -/
def doubleQuoted? (state : DoubleState) (mark : Mark) :
    List Char → Option (List Char × Cursor)
  | [] => none
  | c :: rest =>
    let next := mark.advance c
    match state with
    | .backslash =>
      if isBreak c then doubleQuoted? (.words .escaped) next rest
      else
        match simpleEscapes.lookup c, escapeDigits.lookup c with
        | some meant, _ => withText [meant] (doubleQuoted? (.words .empty) next rest)
        | none, some count => doubleQuoted? (.digits count 0) next rest
        | none, none => none
    | .digits missing value => do
      let digit ← hexDigit? c
      if 1 < missing then doubleQuoted? (.digits (missing - 1) (16 * value + digit)) next rest
      else do
        let meant ← character? (16 * value + digit)
        withText [meant] (doubleQuoted? (.words .empty) next rest)
    | .words gap =>
      if isPadding c || isBreak c then doubleQuoted? (.words (gap.add c)) next rest
      else if beginsBoundary mark (c :: rest) then none
      else if c = '"' then some (gap.joined, ⟨rest, next⟩)
      else if c = '\\' then withText gap.joined (doubleQuoted? .backslash next rest)
      else withText (gap.joined ++ [c]) (doubleQuoted? (.words .empty) next rest)

/-! ### Blocks -/

/-- What becomes of the line breaks at the end of a block. -/
inductive Chomping where
  /-- The last line keeps its line break. -/
  | clip
  | strip
  | keep
deriving DecidableEq, Repr

/-- What stands behind the sign of a block. -/
structure BlockHeader where
  chomping : Chomping
  /-- The indentation beyond that of the surrounding block, if it is given. -/
  indentation : Option Nat
deriving DecidableEq, Repr

/-- The chomping of a sign. -/
def chomping? (c : Char) : Option Chomping :=
  if c = '+' then some .keep else if c = '-' then some .strip else none

/-- The indentation of a digit; zero is refused. -/
def indentation? (c : Char) : Option Nat :=
  if c.isDigit && c ≠ '0' then some (c.toNat - '0'.toNat) else none

/-- Reads the signs of a block header from the characters up to the first other one. -/
def blockHeader? : List Char → Option BlockHeader
  | [] => some ⟨.clip, none⟩
  | [only] =>
    match chomping? only, indentation? only with
    | some chomping, _ => some ⟨chomping, none⟩
    | none, some indentation => some ⟨.clip, some indentation⟩
    | none, none => none
  | [first, second] =>
    match chomping? first, indentation? second, chomping? second, indentation? first with
    | some chomping, some indentation, _, _ => some ⟨chomping, some indentation⟩
    | _, _, some chomping, some indentation => some ⟨chomping, some indentation⟩
    | _, _, _, _ => none
  | _ => none

/-- The indentation of the first line with text, or of a longer empty line before it; at
least `least`.  A tab before it is refused. -/
def blockIndentation? (least : Nat) (column : Nat) : List Char → Option Nat
  | [] => some (max least column)
  | c :: rest =>
    if c = ' ' then blockIndentation? least (column + 1) rest
    else if c = '\t' then none
    else if isBreak c then blockIndentation? (max least column) 0 rest
    else some (max least column)

/-- What was just passed in a block. -/
inductive BlockState where
  | between
  | line
deriving DecidableEq, Repr

/-- The line breaks behind the last line with text, and whether that line began with a
blank.  The first one is kept apart. -/
structure BlockGap where
  first : List Char
  more : List Char
  afterBlank : Bool
deriving DecidableEq, Repr

/-- What a gap of a block adds in front of a line. -/
def BlockGap.joined (gap : BlockGap) (folded beforeBlank : Bool) : List Char :=
  if folded && gap.first = ['\n'] && !gap.afterBlank && !beforeBlank then
    if gap.more.isEmpty then [' '] else gap.more
  else gap.first ++ gap.more

/-- What a gap adds at the end of a block. -/
def BlockGap.chomped (gap : BlockGap) : Chomping → List Char
  | .strip => []
  | .clip => gap.first
  | .keep => gap.first ++ gap.more

/-- Reads the lines of a block with a known indentation. -/
def blockLines? (folded : Bool) (chomping : Chomping) (indent : Nat) (state : BlockState)
    (gap : BlockGap) (mark : Mark) : List Char → Option (List Char × Cursor)
  | [] => some (gap.chomped chomping, ⟨[], mark⟩)
  | c :: rest =>
    let next := mark.advance c
    match state with
    | .line =>
      if isBreak c then
        blockLines? folded chomping indent .between ⟨[c], [], gap.afterBlank⟩ next rest
      else withText [c] (blockLines? folded chomping indent .line gap next rest)
    | .between =>
      if mark.column < indent && c = ' ' then
        blockLines? folded chomping indent .between gap next rest
      else if mark.column < indent && c = '\t' then none
      else if isBreak c then
        blockLines? folded chomping indent .between
          ⟨gap.first, gap.more ++ [c], gap.afterBlank⟩ next rest
      else if mark.column = indent then
        withText (gap.joined folded (isPadding c) ++ [c])
          (blockLines? folded chomping indent .line ⟨[], [], isPadding c⟩ next rest)
      else some (gap.chomped chomping, ⟨c :: rest, mark⟩)

/-- Reads a block behind its sign; `outer` is the indentation of the surrounding block, if
there is one. -/
def blockScalar? (folded : Bool) (outer : Option Nat) (cursor : Cursor) :
    Option (List Char × Cursor) := do
  let (signs, behind) := cursor.span fun c => c = '+' || c = '-' || c.isDigit
  let header ← blockHeader? signs
  let lines ← behind.endLine?
  let indent ← match header.indentation with
    | some indentation => some (outer.getD 0 + indentation)
    | none => blockIndentation? (max 1 ((outer.map (· + 1)).getD 0)) 0 lines.rest
  blockLines? folded header.chomping indent .between ⟨[], [], false⟩ lines.mark lines.rest

end Yaml
end QuantumCircuit
