import QuantumCircuit.Diagnostic

namespace QuantumCircuit
namespace Grammar

/-!
# Readers

A reader takes a phrase from the front of a list of lexemes, none of which is
the end of the input, and gives back what the phrase denotes together with the
lexemes behind it.  A reader that fails says what it could have gone on with and
which lexemes were left; an empty rest means that the input ended too early.

Readers are put together in sequence.  Lists of phrases are read by `separated` and
`repeated`.  Both ask that an item takes at least one lexeme (`Shortens`), and recurse
on the length of the rest.
-/

/-- What could have stood at a place. -/
inductive Expectation where
  | token (kind : TokenKind)
  | versionNumber
  | shallowerNesting
deriving DecidableEq, Repr

/-- The highest tree of an expression, and the deepest nesting while it is read. -/
def nestingLimit : Nat := 256

/-- The wording of an expectation. -/
def Expectation.description : Expectation → String
  | token kind => kind.description
  | versionNumber => "version number"
  | shallowerNesting =>
    "at most " ++ toString nestingLimit ++ " levels of expression nesting"

/-- Why a phrase could not be read. -/
structure Mismatch where
  expected : List Expectation
  /-- The lexemes from the first one that did not fit on. -/
  rest : List Lexeme
deriving DecidableEq, Repr

/-- The syntax error of a mismatch in an input that ends at `final`. -/
def Mismatch.report (mismatch : Mismatch) (final : Lexeme) : SyntaxError :=
  let found := mismatch.rest.headD final
  ⟨found.position, mismatch.expected.map Expectation.description, found.found⟩

/-- A reader of phrases that denote values of a type. -/
abbrev Reader (α : Type) := StateT (List Lexeme) (Except Mismatch) α

variable {α β : Type}

/-! ### Steps -/

/-- Reads one lexeme that `select` accepts. -/
def one (select : Lexeme → Option α) (expected : List Expectation) : Reader α
  | [] => .error ⟨expected, []⟩
  | lexeme :: rest =>
    match select lexeme with
    | some value => .ok (value, rest)
    | none => .error ⟨expected, lexeme :: rest⟩

/-- Reads a symbol. -/
def symbol (sign : Symbol) : Reader Unit :=
  one (fun lexeme => if lexeme.token = .symbol sign then some () else none)
    [.token (.symbol sign)]

/-- Reads a keyword and gives its place. -/
def keyword (word : Keyword) : Reader Position :=
  one (fun lexeme => if lexeme.token = .keyword word then some lexeme.position else none)
    [.token (.keyword word)]

/-- Reads an identifier and gives its name and its place. -/
def identifier : Reader (String × Position) :=
  one (fun lexeme =>
    match lexeme.token with
    | .identifier name => some (name, lexeme.position)
    | _ => none) [.token .identifier]

/-- Reads an integer. -/
def integer : Reader UInt64 :=
  one (fun lexeme =>
    match lexeme.token with
    | .integer value => some value
    | _ => none) [.token .integer]

/-- Reads the content of a string. -/
def string : Reader String :=
  one (fun lexeme =>
    match lexeme.token with
    | .string content => some content
    | _ => none) [.token .string]

/-- Reads a phrase and the symbol that ends it. -/
def endedBy (sign : Symbol) (phrase : Reader α) : Reader α := do
  let value ← phrase
  symbol sign
  return value

/-- Fails at the next lexeme. -/
def expecting (expected : List Expectation) : Reader α :=
  fun lexemes => .error ⟨expected, lexemes⟩

/-- The lexemes behind a symbol, if the list begins with it. -/
def accept? (sign : Symbol) : List Lexeme → Option (List Lexeme)
  | [] => none
  | lexeme :: rest => if lexeme.token = .symbol sign then some rest else none

/-- Reads on behind a symbol if it comes next, and in another way if it does not. -/
def ifNext (sign : Symbol) (present absent : Reader α) : Reader α := fun lexemes =>
  match accept? sign lexemes with
  | some rest => present rest
  | none => absent lexemes

/-- Chooses a way to read on by whether a symbol comes next, and leaves the symbol. -/
def ifAhead (sign : Symbol) (present absent : Reader α) : Reader α := fun lexemes =>
  match accept? sign lexemes with
  | some _ => present lexemes
  | none => absent lexemes

theorem bind_eq_ok (first : Reader α) (next : α → Reader β) (lexemes rest : List Lexeme)
    (value : β) :
    (first >>= next) lexemes = .ok (value, rest) ↔
      ∃ found behind, first lexemes = .ok (found, behind) ∧
        next found behind = .ok (value, rest) := by
  simp only [bind, StateT.bind, Except.bind]
  cases first lexemes with
  | error mismatch => simp
  | ok pair =>
    constructor
    · exact fun h => ⟨pair.1, pair.2, rfl, h⟩
    · rintro ⟨found, behind, hPair, h⟩
      cases hPair
      exact h

theorem pure_eq_ok (value found : α) (lexemes rest : List Lexeme) :
    (pure value : Reader α) lexemes = .ok (found, rest) ↔ found = value ∧ rest = lexemes := by
  show Except.ok (value, lexemes) = Except.ok (found, rest) ↔ _
  rw [Except.ok.injEq, Prod.mk.injEq, eq_comm, @eq_comm _ lexemes]

/-! ### Progress -/

/-- The reader takes at least one lexeme whenever it succeeds. -/
def Shortens (reader : Reader α) : Prop :=
  ∀ lexemes value rest, reader lexemes = .ok (value, rest) → rest.length < lexemes.length

/-- The reader never puts anything back. -/
def NeverGrows (reader : Reader α) : Prop :=
  ∀ lexemes value rest, reader lexemes = .ok (value, rest) → rest.length ≤ lexemes.length

theorem Shortens.neverGrows {reader : Reader α} (h : Shortens reader) : NeverGrows reader :=
  fun lexemes value rest hRead => Nat.le_of_lt (h lexemes value rest hRead)

theorem pure_neverGrows (value : α) : NeverGrows (pure value : Reader α) := by
  intro lexemes found rest h
  rw [pure_eq_ok] at h
  exact Nat.le_of_eq (congrArg List.length h.2)

theorem NeverGrows.bind {first : Reader α} {next : α → Reader β} (hFirst : NeverGrows first)
    (hNext : ∀ value, NeverGrows (next value)) : NeverGrows (first >>= next) := by
  intro lexemes value rest h
  rw [bind_eq_ok] at h
  obtain ⟨found, behind, h₁, h₂⟩ := h
  exact Nat.le_trans (hNext _ _ _ _ h₂) (hFirst _ _ _ h₁)

theorem Shortens.bind {first : Reader α} {next : α → Reader β} (hFirst : Shortens first)
    (hNext : ∀ value, NeverGrows (next value)) : Shortens (first >>= next) := by
  intro lexemes value rest h
  rw [bind_eq_ok] at h
  obtain ⟨found, behind, h₁, h₂⟩ := h
  exact Nat.lt_of_le_of_lt (hNext _ _ _ _ h₂) (hFirst _ _ _ h₁)

theorem NeverGrows.bind_shortens {first : Reader α} {next : α → Reader β}
    (hFirst : NeverGrows first) (hNext : ∀ value, Shortens (next value)) :
    Shortens (first >>= next) := by
  intro lexemes value rest h
  rw [bind_eq_ok] at h
  obtain ⟨found, behind, h₁, h₂⟩ := h
  exact Nat.lt_of_lt_of_le (hNext _ _ _ _ h₂) (hFirst _ _ _ h₁)

theorem one_shortens (select : Lexeme → Option α) (expected : List Expectation) :
    Shortens (one select expected) := by
  intro lexemes value rest h
  cases lexemes with
  | nil => cases h
  | cons lexeme others =>
    simp only [one] at h
    split at h <;> cases h
    simp

theorem symbol_shortens (sign : Symbol) : Shortens (symbol sign) := one_shortens _ _

theorem keyword_shortens (word : Keyword) : Shortens (keyword word) := one_shortens _ _

theorem identifier_shortens : Shortens identifier := one_shortens _ _

theorem integer_shortens : Shortens integer := one_shortens _ _

theorem string_shortens : Shortens string := one_shortens _ _

theorem endedBy_neverGrows (sign : Symbol) {phrase : Reader α} (hPhrase : NeverGrows phrase) :
    NeverGrows (endedBy sign phrase) :=
  hPhrase.bind fun _ => (symbol_shortens _).neverGrows.bind fun _ => pure_neverGrows _

theorem endedBy_shortens (sign : Symbol) {phrase : Reader α} (hPhrase : Shortens phrase) :
    Shortens (endedBy sign phrase) :=
  hPhrase.bind fun _ => (symbol_shortens _).neverGrows.bind fun _ => pure_neverGrows _

theorem accept?_length {sign : Symbol} {lexemes rest : List Lexeme}
    (h : accept? sign lexemes = some rest) : rest.length < lexemes.length := by
  cases lexemes with
  | nil => cases h
  | cons lexeme others =>
    simp only [accept?] at h
    split at h <;> cases h
    simp

theorem ifNext_neverGrows (sign : Symbol) {present absent : Reader α}
    (hPresent : NeverGrows present) (hAbsent : NeverGrows absent) :
    NeverGrows (ifNext sign present absent) := by
  intro lexemes value rest h
  simp only [ifNext] at h
  split at h
  · rename_i behind hSign
    exact Nat.le_trans (hPresent _ _ _ h) (Nat.le_of_lt (accept?_length hSign))
  · exact hAbsent _ _ _ h

theorem ifAhead_neverGrows (sign : Symbol) {present absent : Reader α}
    (hPresent : NeverGrows present) (hAbsent : NeverGrows absent) :
    NeverGrows (ifAhead sign present absent) := by
  intro lexemes value rest h
  simp only [ifAhead] at h
  split at h
  · exact hPresent _ _ _ h
  · exact hAbsent _ _ _ h

/-! ### Lists of phrases -/

/-- Reads one item, and another one behind every comma. -/
def separated (item : Reader α) (progress : Shortens item) (lexemes : List Lexeme) :
    Except Mismatch (List α × List Lexeme) :=
  match _hItem : item lexemes with
  | .error mismatch => .error mismatch
  | .ok (value, rest) =>
    match _hComma : accept? .comma rest with
    | none => .ok ([value], rest)
    | some behind =>
      match separated item progress behind with
      | .error mismatch => .error mismatch
      | .ok (values, final) => .ok (value :: values, final)
termination_by lexemes.length
decreasing_by
  exact Nat.lt_trans (accept?_length _hComma) (progress _ _ _ _hItem)

/-- Reads items until the rest is `done`. -/
def repeated (item : Reader α) (progress : Shortens item) (done : List Lexeme → Bool)
    (lexemes : List Lexeme) : Except Mismatch (List α × List Lexeme) :=
  if done lexemes then .ok ([], lexemes)
  else
    match _hItem : item lexemes with
    | .error mismatch => .error mismatch
    | .ok (value, rest) =>
      match repeated item progress done rest with
      | .error mismatch => .error mismatch
      | .ok (values, final) => .ok (value :: values, final)
termination_by lexemes.length
decreasing_by exact progress _ _ _ _hItem

theorem separated_shortens (item : Reader α) (progress : Shortens item) :
    Shortens (separated item progress) := by
  intro lexemes values final h
  fun_induction separated item progress lexemes generalizing values final with
  | case1 => cases h
  | case2 lexemes value rest hItem hComma =>
    cases h
    exact progress _ _ _ hItem
  | case3 => cases h
  | case4 lexemes value rest hItem behind hComma values final hMore ih =>
    cases h
    have hRest := ih _ _ hMore
    have hBehind := accept?_length hComma
    have hFirst := progress _ _ _ hItem
    omega

theorem repeated_neverGrows (item : Reader α) (progress : Shortens item)
    (done : List Lexeme → Bool) : NeverGrows (repeated item progress done) := by
  intro lexemes values final h
  fun_induction repeated item progress done lexemes generalizing values final with
  | case1 => cases h; exact Nat.le_refl _
  | case2 => cases h
  | case3 => cases h
  | case4 lexemes hDone value rest hItem values final hMore ih =>
    cases h
    have hRest := ih _ _ hMore
    have hFirst := progress _ _ _ hItem
    omega

end Grammar
end QuantumCircuit
