import QuantumCircuit.Token.Scan

namespace QuantumCircuit

/-!
# Diagnostics

Everything that can be wrong with a text is reported as one diagnostic with a
stable code, a message and a place.  Callers branch on the code; the message is
for readers.
-/

/-- A token that cannot continue what stands before it. -/
structure SyntaxError where
  position : Position
  /-- Descriptions of what could have stood there. -/
  expected : List String
  found : String
deriving DecidableEq, Repr

/-- The rules that a program of correct form can break. -/
inductive SemanticKind where
  | unknownRegister
  | unknownGate
  | arityMismatch
  | indexOutOfRange
  | duplicateDeclaration
  | misplacedVersion
  | unsupportedVersion
  | invalidRegisterSize
  | registerKindMismatch
  | broadcastMismatch
  | overlappingArguments
  | unknownParameter
  | invalidGateBody
deriving DecidableEq, Repr

namespace SemanticKind

/-- The code of a rule. -/
def code : SemanticKind → String
  | unknownRegister => "UnknownRegister"
  | unknownGate => "UnknownGate"
  | arityMismatch => "ArityMismatch"
  | indexOutOfRange => "IndexOutOfRange"
  | duplicateDeclaration => "DuplicateDeclaration"
  | misplacedVersion => "MisplacedVersion"
  | unsupportedVersion => "UnsupportedVersion"
  | invalidRegisterSize => "InvalidRegisterSize"
  | registerKindMismatch => "RegisterKindMismatch"
  | broadcastMismatch => "BroadcastMismatch"
  | overlappingArguments => "OverlappingArguments"
  | unknownParameter => "UnknownParameter"
  | invalidGateBody => "InvalidGateBody"

/-- Every rule. -/
def all : List SemanticKind :=
  [unknownRegister, unknownGate, arityMismatch, indexOutOfRange, duplicateDeclaration,
    misplacedVersion, unsupportedVersion, invalidRegisterSize, registerKindMismatch,
    broadcastMismatch, overlappingArguments, unknownParameter, invalidGateBody]

end SemanticKind

/-- A broken rule, where it is broken and by what. -/
structure SemanticError where
  kind : SemanticKind
  position : Position
  detail : String
deriving DecidableEq, Repr

/-- What is wrong with a text. -/
inductive Diagnostic where
  /-- There is no text at all. -/
  | missingArgument (argument : String)
  | lexical (error : LexicalError)
  | syntactic (error : SyntaxError)
  | semantic (error : SemanticError)
  /-- The preloaded gate library is itself at fault. -/
  | libraryFault (inner : Diagnostic)
deriving DecidableEq, Repr

/-- Joins alternatives as a list in words. -/
def alternatives : List String → String
  | [] => "nothing"
  | [only] => only
  | [first, second] => first ++ " or " ++ second
  | several =>
    .join ["one of ", String.intercalate ", " several.dropLast, ", or ", several.getLastD ""]

/-- A place in words. -/
def atPlace (position : Position) : String :=
  .join [" at line ", toString position.line, ", column ", toString position.column, ": "]

/-- The wording of a syntax error. -/
def SyntaxError.message (error : SyntaxError) : String :=
  .join ["syntax error", atPlace error.position, "expected ", alternatives error.expected,
    ", found ", error.found]

/-- The wording of a semantic error. -/
def SemanticError.message (error : SemanticError) : String :=
  .join [error.kind.code, atPlace error.position, error.detail]

namespace Diagnostic

/-- The stable code of a diagnostic. -/
def code : Diagnostic → String
  | missingArgument _ => "MissingArgument"
  | lexical _ => "LexError"
  | syntactic _ => "SyntaxError"
  | semantic error => error.kind.code
  | libraryFault _ => "LibraryLoadFault"

/-- The wording of a diagnostic. -/
def message : Diagnostic → String
  | missingArgument argument => .join ["Required argument missing: ", argument]
  | lexical error => error.message
  | syntactic error => error.message
  | semantic error => error.message
  | libraryFault inner => .join ["Standard library failed to load: ", inner.message]

/-- The place of a diagnostic; a missing text has none. -/
def position : Diagnostic → Position
  | missingArgument _ => .unplaced
  | lexical error => error.position
  | syntactic error => error.position
  | semantic error => error.position
  | libraryFault inner => inner.position

/-- The rule that a diagnostic reports as broken, if it is a semantic error itself. -/
def semanticKind? : Diagnostic → Option SemanticKind
  | semantic error => some error.kind
  | _ => none

end Diagnostic

end QuantumCircuit
