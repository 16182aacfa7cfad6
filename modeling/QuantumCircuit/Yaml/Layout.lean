import QuantumCircuit.Yaml.Token

namespace QuantumCircuit
namespace Yaml

/-!
# The tokens of a text

Outside flow collections the columns of the text matter: a block opens where a key or
an entry stands further to the right than the block around it, and closes where a token
stands further to the left.

A key may stand without a sign in front of it.  So the place of every token that could
begin one is kept, one for each open flow collection and one outside of them, until a
colon follows it on the same line or it is too far away.  Where a block can only go on
with a key, that colon must follow.
-/

/-- A place where a key may begin. -/
structure KeyStart where
  mark : Mark
  /-- The number of tokens before it. -/
  count : Nat
  required : Bool
deriving DecidableEq, Repr

/-- What is known at a place of a text. -/
structure Layout where
  cursor : Cursor
  /-- The tokens before the place. -/
  tokens : List Token
  /-- The columns of the open blocks, the innermost first. -/
  columns : List Nat
  /-- Where a key may have begun in the innermost flow collection, or outside of them. -/
  candidate : Option KeyStart
  /-- The same for the collections around it; there are as many as open flow collections. -/
  outer : List (Option KeyStart)
  /-- May a key begin here? -/
  keyAllowed : Bool
deriving DecidableEq, Repr

/-- How far away the colon of a key may be. -/
def keyReach : Nat := 1024

/-- Keeps the start of a key while its colon may follow; fails if one was required. -/
def KeyStart.kept? (mark : Mark) (start : Option KeyStart) : Option (Option KeyStart) :=
  match start with
  | none => some none
  | some start =>
    if start.mark.line < mark.line || start.mark.column + keyReach < mark.column then
      if start.required then none else some none
    else some (some start)

namespace Layout

/-- The layout at the start of a text. -/
def start (text : List Char) : Layout := ⟨⟨text, .start⟩, [], [], none, [], true⟩

/-- Is a flow collection open? -/
def inFlow (layout : Layout) : Bool := !layout.outer.isEmpty

/-! ### Gaps between tokens -/

/-- Passes blanks, comments and line breaks.  A tab is passed where no key may begin, and a
line break outside flow collections allows a key. -/
def skipGap (flow : Bool) (keyAllowed comment : Bool) (mark : Mark) :
    List Char → Bool × Cursor
  | [] => (keyAllowed, ⟨[], mark⟩)
  | c :: rest =>
    let next := mark.advance c
    if isBreak c then skipGap flow (keyAllowed || !flow) false next rest
    else if comment then skipGap flow keyAllowed true next rest
    else if c = '#' then skipGap flow keyAllowed true next rest
    else if c = ' ' || (c = '\t' && (flow || !keyAllowed)) ||
        (c = byteOrderMark && mark.column = 0) then
      skipGap flow keyAllowed false next rest
    else (keyAllowed, ⟨c :: rest, mark⟩)

/-- Goes on to the next token. -/
def toToken (layout : Layout) : Layout :=
  let (keyAllowed, cursor) := skipGap layout.inFlow layout.keyAllowed false
    layout.cursor.mark layout.cursor.rest
  ⟨cursor, layout.tokens, layout.columns, layout.candidate, layout.outer, keyAllowed⟩

/-! ### Keys -/

/-- Forgets the starts of keys that are too far away. -/
def forgetFar? (layout : Layout) : Option Layout := do
  let candidate ← KeyStart.kept? layout.cursor.mark layout.candidate
  let outer ← layout.outer.mapM (KeyStart.kept? layout.cursor.mark)
  return ⟨layout.cursor, layout.tokens, layout.columns, candidate, outer, layout.keyAllowed⟩

/-- Forgets the start of a key; fails if a key was required there. -/
def forgetKey? (layout : Layout) : Option Layout :=
  if (layout.candidate.map KeyStart.required).getD false then none
  else
    some ⟨layout.cursor, layout.tokens, layout.columns, none, layout.outer, layout.keyAllowed⟩

/-- Keeps this place as the start of a key if one may begin here.  It is required where the
innermost block can only go on with a key. -/
def keepKey? (layout : Layout) : Option Layout :=
  if layout.keyAllowed then do
    let free ← layout.forgetKey?
    let required := !layout.inFlow && layout.columns.head? = some layout.cursor.mark.column
    return ⟨free.cursor, free.tokens, free.columns,
      some ⟨free.cursor.mark, free.tokens.length, required⟩, free.outer, free.keyAllowed⟩
  else some layout

/-- Says whether a key may begin behind the next token. -/
def allowKey (layout : Layout) (keyAllowed : Bool) : Layout :=
  ⟨layout.cursor, layout.tokens, layout.columns, layout.candidate, layout.outer, keyAllowed⟩

/-! ### Blocks -/

/-- Puts tokens behind a number of tokens. -/
def insert (layout : Layout) (count : Nat) (tokens : List Token) : Layout :=
  ⟨layout.cursor, layout.tokens.take count ++ tokens ++ layout.tokens.drop count,
    layout.columns, layout.candidate, layout.outer, layout.keyAllowed⟩

/-- Opens a block if its column is further to the right than the innermost block. -/
def openBlock (layout : Layout) (column count : Nat) (token : Token) : Layout :=
  if layout.inFlow ||
      (layout.columns.head?.map fun inner => decide (column ≤ inner)).getD false then
    layout
  else
    let opened := layout.insert count [token]
    ⟨opened.cursor, opened.tokens, column :: opened.columns, opened.candidate, opened.outer,
      opened.keyAllowed⟩

/-- Closes the blocks further to the right than a column, or all of them. -/
def closeBlocks (layout : Layout) (column : Option Nat) : Layout :=
  if layout.inFlow then layout
  else
    let left := layout.columns.dropWhile fun inner => column.all fun column => column < inner
    let closed := layout.columns.length - left.length
    ⟨layout.cursor, layout.tokens ++ List.replicate closed .blockEnd, left, layout.candidate,
      layout.outer, layout.keyAllowed⟩

/-! ### Single tokens -/

/-- Adds a token that was read up to a cursor. -/
def add (layout : Layout) (token : Token) (cursor : Cursor) : Layout :=
  ⟨cursor, layout.tokens ++ [token], layout.columns, layout.candidate, layout.outer,
    layout.keyAllowed⟩

/-- Adds a token of so many characters. -/
def addSign (layout : Layout) (token : Token) (count : Nat) : Layout :=
  layout.add token (layout.cursor.skip count)

/-- Adds the start of a flow collection. -/
def openFlow? (layout : Layout) (token : Token) : Option Layout := do
  let kept ← layout.keepKey?
  let inner : Layout :=
    ⟨kept.cursor, kept.tokens, kept.columns, none, kept.candidate :: kept.outer, true⟩
  return inner.addSign token 1

/-- Adds the end of a flow collection. -/
def closeFlow? (layout : Layout) (token : Token) : Option Layout := do
  let free ← layout.forgetKey?
  let around : Layout :=
    match free.outer with
    | [] => free
    | candidate :: outer =>
      ⟨free.cursor, free.tokens, free.columns, candidate, outer, free.keyAllowed⟩
  return (around.allowKey false).addSign token 1

/-- Adds the comma of a flow collection. -/
def flowEntry? (layout : Layout) : Option Layout := do
  let free ← layout.forgetKey?
  return (free.allowKey true).addSign .flowEntry 1

/-- Opens a block at this place for a token that needs one; outside flow collections it may
only stand where a key may. -/
def openHere? (layout : Layout) (token : Token) : Option Layout :=
  if layout.inFlow then some layout
  else if layout.keyAllowed then
    some (layout.openBlock layout.cursor.mark.column layout.tokens.length token)
  else none

/-- Adds the hyphen of an entry. -/
def blockEntry? (layout : Layout) : Option Layout := do
  let opened ← layout.openHere? .blockSequenceStart
  let free ← opened.forgetKey?
  return (free.allowKey true).addSign .blockEntry 1

/-- Adds the question mark of a key. -/
def explicitKey? (layout : Layout) : Option Layout := do
  let opened ← layout.openHere? .blockMappingStart
  let free ← opened.forgetKey?
  return (free.allowKey (!layout.inFlow)).addSign .key 1

/-- Adds the colon of a value; its key begins where one may have begun. -/
def value? (layout : Layout) : Option Layout :=
  match layout.candidate with
  | some start =>
    let keyed := layout.insert start.count [.key]
    let opened := keyed.openBlock start.mark.column start.count .blockMappingStart
    let free : Layout :=
      ⟨opened.cursor, opened.tokens, opened.columns, none, opened.outer, false⟩
    some (free.addSign .value 1)
  | none => do
    let opened ← layout.openHere? .blockMappingStart
    return (opened.allowKey (!layout.inFlow)).addSign .value 1

/-- Adds a token that may begin a key. -/
def content? (layout : Layout) (read : Layout → Option (Token × Cursor)) : Option Layout := do
  let kept ← layout.keepKey?
  let (token, cursor) ← read kept
  return (kept.allowKey false).add token cursor

/-- Adds an anchor or an alias. -/
def anchor? (layout : Layout) (token : List Char → Token) : Option Layout :=
  layout.content? fun kept => do
    let (name, cursor) ← anchorName? (kept.cursor.skip 1)
    return (token name, cursor)

/-- Adds a quoted scalar. -/
def quoted? (layout : Layout) (style : Style) : Option Layout :=
  layout.content? fun kept => do
    let inner := kept.cursor.skip 1
    let (text, cursor) ← if style = .single then singleQuoted? false .empty inner.mark inner.rest
      else doubleQuoted? (.words .empty) inner.mark inner.rest
    return (.scalar style text, cursor)

/-- Adds a block scalar; behind it a key may begin. -/
def block? (layout : Layout) (style : Style) : Option Layout := do
  let free ← layout.forgetKey?
  let (text, cursor) ← blockScalar? (style = .folded) free.columns.head? (free.cursor.skip 1)
  return (free.allowKey true).add (.scalar style text) cursor

/-- Adds a plain scalar; a key may begin behind it if a line break does. -/
def plain? (layout : Layout) : Option Layout := do
  let kept ← layout.keepKey?
  let indent := (kept.columns.head?.map (· + 1)).getD 0
  let scalar ← plainScalar? kept.inFlow indent .empty kept.cursor.mark kept.cursor.rest
  return (kept.allowKey scalar.broken).add (.scalar .plain scalar.text) scalar.next

/-- Adds a directive. -/
def directiveLine? (layout : Layout) : Option Layout := do
  let free ← (layout.closeBlocks none).forgetKey?
  let (token, cursor) ← directive? (free.cursor.skip 1)
  return (free.allowKey false).add token cursor

/-- Adds the start or the end of a document. -/
def boundary? (layout : Layout) (token : Token) : Option Layout := do
  let free ← (layout.closeBlocks none).forgetKey?
  return (free.allowKey false).addSign token 3

/-- The signs that no plain scalar begins with. -/
def isSign (c : Char) : Bool := "-?:,[]\x7b\x7d#&*!|>'\"%@\x60".toList.contains c

/-- Does a plain scalar begin with the character?  A hyphen may begin one in front of
anything but a blank, and outside flow collections so may a question mark or a colon. -/
def beginsPlain (flow : Bool) (c : Char) (rest : List Char) : Bool :=
  !(isPadding c || isBreak c || isSign c) ||
    (c = '-' && !(rest.head?.map isPadding).getD false) ||
    (!flow && (c = '?' || c = ':') && !endsWord rest)

/-- Adds the token that begins with a character. -/
def tokenFor? (layout : Layout) (c : Char) (rest : List Char) : Option Layout :=
  let flow := layout.inFlow
  let atStart := layout.cursor.mark.column = 0
  if atStart && c = '%' then layout.directiveLine?
  else if atStart && beginsRule '-' (c :: rest) then layout.boundary? .documentStart
  else if atStart && beginsRule '.' (c :: rest) then layout.boundary? .documentEnd
  else if c = '[' then layout.openFlow? .flowSequenceStart
  else if c = '\x7b' then layout.openFlow? .flowMappingStart
  else if c = ']' then layout.closeFlow? .flowSequenceEnd
  else if c = '\x7d' then layout.closeFlow? .flowMappingEnd
  else if c = ',' then layout.flowEntry?
  else if c = '-' && endsWord rest then layout.blockEntry?
  else if c = '?' && (flow || endsWord rest) then layout.explicitKey?
  else if c = ':' && (flow || endsWord rest) then layout.value?
  else if c = '*' then layout.anchor? .aliasOf
  else if c = '&' then layout.anchor? .anchor
  else if c = '!' then layout.content? fun kept => tag? flow kept.cursor
  else if c = '|' && !flow then layout.block? .literal
  else if c = '>' && !flow then layout.block? .folded
  else if c = '\'' then layout.quoted? .single
  else if c = '"' then layout.quoted? .double
  else if beginsPlain flow c rest then layout.plain?
  else none

/-- All tokens from a place on.  Every token takes at least one character, so `bound` is the
number of characters. -/
def allTokens? : Nat → Layout → Option (List Token)
  | 0, _ => none
  | bound + 1, layout => do
    let near ← layout.toToken.forgetFar?
    match near.cursor.rest with
    | [] =>
      let closed ← (near.closeBlocks none).forgetKey?
      return closed.tokens
    | c :: rest =>
      let next ← (near.closeBlocks (some near.cursor.mark.column)).tokenFor? c rest
      allTokens? bound next

end Layout

/-- The tokens of a text, if it is well formed up to their order. -/
def tokens? (text : List Char) : Option (List Token) :=
  (Layout.start text).allTokens? (text.length + 1)

end Yaml
end QuantumCircuit
