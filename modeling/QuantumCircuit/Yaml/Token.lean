import QuantumCircuit.Decimal.Basic
import QuantumCircuit.Yaml.Scalar

namespace QuantumCircuit
namespace Yaml

/-!
# Tokens of a YAML text

Besides the signs and scalars of a text there are tokens that no character stands
for: the starts and the ends of the blocks that indentation opens and closes, and the
start of a key that only its colon gives away.
-/

/-- The octets of a tag. -/
abbrev Octets := List UInt8

/-- A token. -/
inductive Token where
  | version (major minor : Nat)
  /-- An abbreviation of the octets with which tags begin. -/
  | abbreviation (handle : List Char) (meaning : Octets)
  | documentStart
  | documentEnd
  | blockSequenceStart
  | blockMappingStart
  | blockEnd
  | flowSequenceStart
  | flowSequenceEnd
  | flowMappingStart
  | flowMappingEnd
  | blockEntry
  | flowEntry
  | key
  | value
  | aliasOf (name : List Char)
  | anchor (name : List Char)
  /-- A tag without a handle is given in full. -/
  | tag (handle : List Char) (suffix : Octets)
  | scalar (style : Style) (text : List Char)
deriving DecidableEq, Repr

/-! ### Names -/

/-- The signs that may follow the name of an anchor. -/
def followsName : List Char := ['?', ':', ',', ']', '\x7d', '%', '@', '\x60']

/-- Reads the name behind the sign of an anchor or an alias. -/
def anchorName? (cursor : Cursor) : Option (List Char × Cursor) :=
  let (name, next) := cursor.span isNameChar
  if name.isEmpty then none
  else if endsWord next.rest || followsName.contains (next.rest.headD ' ') then
    some (name, next)
  else none

/-! ### Tags -/

/-- May the character stand in a tag?  In a tag that is given in full, some signs of
collections may, too. -/
def isTagChar (full : Bool) (c : Char) : Bool :=
  isNameChar c || ";/?:@&=+$.%!~*'()".toList.contains c ||
    (full && (c = ',' || c = '[' || c = ']'))

/-- The number of octets that follow the first octet of a character. -/
def trailingOctets? (octet : Nat) : Option Nat :=
  if octet < 0x80 then some 0
  else if 0xC0 ≤ octet && octet < 0xE0 then some 1
  else if 0xE0 ≤ octet && octet < 0xF0 then some 2
  else if 0xF0 ≤ octet && octet < 0xF8 then some 3
  else none

/-- The octets of a tag; an escape stands for an octet, and `missing` octets of a character
are still to come. -/
def octets? (missing : Nat) : List Char → Option Octets
  | '%' :: high :: low :: rest => do
    let octet := 16 * (← hexDigit? high) + (← hexDigit? low)
    let left ← if missing = 0 then trailingOctets? octet
      else if 0x80 ≤ octet && octet < 0xC0 then some (missing - 1) else none
    let octets ← octets? left rest
    return UInt8.ofNat octet :: octets
  | [] => if missing = 0 then some [] else none
  | c :: rest => do
    if missing ≠ 0 || c = '%' then none
    else
      let octets ← octets? 0 rest
      return UInt8.ofNat c.toNat :: octets

/-- The octets of characters that are no escapes. -/
def plainOctets (text : List Char) : Octets := text.map fun c => UInt8.ofNat c.toNat

/-- Reads the octets of a tag; `required` says whether there must be some. -/
def tagOctets? (full required : Bool) (cursor : Cursor) : Option (Octets × Cursor) := do
  let (text, next) := cursor.span (isTagChar full)
  if required && text.isEmpty then none
  else
    let octets ← octets? 0 text
    return (octets, next)

/-- Reads a handle: an exclamation mark, a name and perhaps a second mark. -/
def tagHandle? (cursor : Cursor) : Option (List Char × Cursor) :=
  if cursor.rest.head? = some '!' then
    let (name, next) := (cursor.skip 1).span isNameChar
    if next.rest.head? = some '!' then some ('!' :: name ++ ['!'], next.skip 1)
    else some ('!' :: name, next)
  else none

/-- Is the handle closed by a second mark? -/
def isClosedHandle (handle : List Char) : Bool :=
  1 < handle.length && handle.getLast? = some '!'

/-- Reads a tag that is given in full behind `!<`. -/
def fullTag? (cursor : Cursor) : Option (Token × Cursor) := do
  let (octets, next) ← tagOctets? true true cursor
  if next.rest.head? = some '>' then return (.tag [] octets, next.skip 1) else none

/-- Reads a tag with a handle.  What looks like a handle but is not closed belongs to the tag
itself, and a mark alone is a tag. -/
def shortTag? (cursor : Cursor) : Option (Token × Cursor) := do
  let (handle, next) ← tagHandle? cursor
  if isClosedHandle handle then
    let (octets, behind) ← tagOctets? false true next
    return (.tag handle octets, behind)
  else
    let (octets, behind) ← tagOctets? false false next
    let suffix := plainOctets (handle.drop 1) ++ octets
    return (if suffix.isEmpty then .tag [] (plainOctets ['!']) else .tag ['!'] suffix, behind)

/-- Reads a tag; a blank, a line break or, in a flow collection, a comma follows it. -/
def tag? (flow : Bool) (cursor : Cursor) : Option (Token × Cursor) := do
  let (tag, next) ← if cursor.rest.take 2 = ['!', '<'] then fullTag? (cursor.skip 2)
    else shortTag? cursor
  if endsWord next.rest || (flow && next.rest.head? = some ',') then return (tag, next)
  else none

/-! ### Directives -/

/-- Reads one number of a version. -/
def versionNumber? (cursor : Cursor) : Option (Nat × Cursor) :=
  let (digits, next) := cursor.span Char.isDigit
  if digits.isEmpty || 9 < digits.length then none
  else some (Decimal.ofDigits digits, next)

/-- Reads the version behind the name of its directive. -/
def version? (cursor : Cursor) : Option (Token × Cursor) := do
  let (major, next) ← versionNumber? cursor.skipPadding
  if next.rest.head? = some '.' then
    let (minor, behind) ← versionNumber? (next.skip 1)
    return (.version major minor, behind)
  else none

/-- Reads a handle and what it stands for behind the name of its directive. -/
def abbreviation? (cursor : Cursor) : Option (Token × Cursor) := do
  let (handle, next) ← tagHandle? cursor.skipPadding
  if (handle = ['!'] || isClosedHandle handle) && (next.rest.head?.map isPadding).getD false then
    let (octets, behind) ← tagOctets? true true next.skipPadding
    if endsWord behind.rest then return (.abbreviation handle octets, behind) else none
  else none

/-- Reads a directive behind its sign, up to the end of its line. -/
def directive? (cursor : Cursor) : Option (Token × Cursor) := do
  let (name, next) := cursor.span isNameChar
  if endsWord next.rest then
    let (token, behind) ← if name = "YAML".toList then version? next
      else if name = "TAG".toList then abbreviation? next
      else none
    let line ← behind.endLine?
    return (token, line)
  else none

end Yaml
end QuantumCircuit
