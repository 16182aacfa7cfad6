import Mathlib.Tactic.Common
import QuantumCircuit.Grammar.Reader

/-!
# Readers and phrases

A grammar says which lists of lexemes are phrases and what they denote; a reader takes phrases
from the front of a list.  Two predicates connect them:

* `Sound` : whatever the reader takes is a phrase;
* `Completes` : every phrase is taken as a whole in front of certain symbols.

The file proves both for the readers from which all others are made.
-/

namespace QuantumCircuit
namespace Grammar

/-! ### Steps -/

variable {α β : Type}

theorem bind_of_ok {first : Reader α} {next : α → Reader β} {lexemes rest : List Lexeme}
    {value : α} (h : first lexemes = .ok (value, rest)) :
    (first >>= next) lexemes = next value rest := by
  simp only [bind, StateT.bind, Except.bind, h]

theorem bind_of_error {first : Reader α} {next : α → Reader β} {lexemes : List Lexeme}
    {mismatch : Mismatch} (h : first lexemes = .error mismatch) :
    (first >>= next) lexemes = .error mismatch := by
  simp only [bind, StateT.bind, Except.bind, h]

/-- Where two readers agree, they agree with what comes behind them. -/
theorem bind_congr_at {first other : Reader α} {next : α → Reader β} {lexemes rest : List Lexeme}
    (h : first lexemes = other rest) : (first >>= next) lexemes = (other >>= next) rest := by
  simp only [bind, StateT.bind, h]

theorem symbol_cons {sign : Symbol} {lexeme : Lexeme} (h : lexeme.token = .symbol sign)
    (rest : List Lexeme) : symbol sign (lexeme :: rest) = .ok ((), rest) := by
  simp [symbol, one, h]

theorem symbol_eq_ok {sign : Symbol} {lexemes rest : List Lexeme} {value : Unit}
    (h : symbol sign lexemes = .ok (value, rest)) :
    ∃ lexeme, lexemes = lexeme :: rest ∧ lexeme.token = .symbol sign := by
  cases lexemes with
  | nil => cases h
  | cons lexeme others =>
      simp only [symbol, one] at h
      by_cases hToken : lexeme.token = .symbol sign
      · rw [if_pos hToken] at h
        cases h
        exact ⟨lexeme, rfl, hToken⟩
      · rw [if_neg hToken] at h
        cases h

theorem endedBy_of_ok {sign : Symbol} {phrase : Reader α} {lexemes rest : List Lexeme}
    {final : Lexeme} {value : α} (hFinal : final.token = .symbol sign)
    (h : phrase lexemes = .ok (value, final :: rest)) :
    endedBy sign phrase lexemes = .ok (value, rest) := by
  rw [endedBy, bind_of_ok h, bind_of_ok (symbol_cons hFinal rest)]
  rfl

theorem endedBy_of_error {sign : Symbol} {phrase : Reader α} {lexemes : List Lexeme}
    {mismatch : Mismatch} (h : phrase lexemes = .error mismatch) :
    endedBy sign phrase lexemes = .error mismatch := by
  rw [endedBy, bind_of_error h]

theorem endedBy_eq_ok {sign : Symbol} {phrase : Reader α} {lexemes rest : List Lexeme} {value : α}
    (h : endedBy sign phrase lexemes = .ok (value, rest)) :
    ∃ final, final.token = .symbol sign ∧ phrase lexemes = .ok (value, final :: rest) := by
  rw [endedBy, bind_eq_ok] at h
  obtain ⟨found, behind, hPhrase, h⟩ := h
  rw [bind_eq_ok] at h
  obtain ⟨_, after, hSymbol, h⟩ := h
  rw [pure_eq_ok] at h
  obtain ⟨rfl, rfl⟩ := h
  obtain ⟨final, rfl, hFinal⟩ := symbol_eq_ok hSymbol
  exact ⟨final, hFinal, hPhrase⟩

/-- What is read behind a choice is read behind both ways to read on. -/
theorem ifNext_bind (sign : Symbol) (present absent : Reader α) (next : α → Reader β) :
    ifNext sign present absent >>= next = ifNext sign (present >>= next) (absent >>= next) := by
  funext lexemes
  simp only [ifNext, bind, StateT.bind]
  cases accept? sign lexemes <;> rfl

/-! ### Soundness and completeness -/

/-- What the reader takes from the front of a list is a phrase. -/
def Sound (reader : Reader α) (phrase : List Lexeme → α → Prop) : Prop :=
  ∀ lexemes value rest, reader lexemes = .ok (value, rest) →
    ∃ front, lexemes = front ++ rest ∧ phrase front value

/-- The reader takes every phrase in front of the symbols that may follow it. -/
def Completes (reader : Reader α) (phrase : List Lexeme → α → Prop) (follows : Symbol → Prop) :
    Prop :=
  ∀ lexemes value, phrase lexemes value → ∀ next rest sign, next.token = .symbol sign →
    follows sign → reader (lexemes ++ next :: rest) = .ok (value, next :: rest)

/-- A reader of one lexeme. -/
theorem one_eq_ok {select : Lexeme → Option α} {expected : List Expectation}
    {lexemes rest : List Lexeme} {value : α} (h : one select expected lexemes = .ok (value, rest)) :
    ∃ lexeme, lexemes = lexeme :: rest ∧ select lexeme = some value := by
  cases lexemes with
  | nil => cases h
  | cons lexeme others =>
      simp only [one] at h
      split at h
      · rename_i found hFound
        cases h
        exact ⟨lexeme, rfl, hFound⟩
      · cases h

theorem one_cons {select : Lexeme → Option α} {expected : List Expectation} {lexeme : Lexeme}
    {value : α} (h : select lexeme = some value) (rest : List Lexeme) :
    one select expected (lexeme :: rest) = .ok (value, rest) := by
  simp only [one, h]

theorem keyword_eq_ok {word : Keyword} {lexemes rest : List Lexeme} {position : Position}
    (h : keyword word lexemes = .ok (position, rest)) :
    ∃ lexeme, lexemes = lexeme :: rest ∧ lexeme.token = .keyword word ∧
      lexeme.position = position := by
  obtain ⟨lexeme, rfl, hSelect⟩ := one_eq_ok h
  split at hSelect <;> cases hSelect
  exact ⟨lexeme, rfl, by assumption, rfl⟩

theorem keyword_cons {word : Keyword} {lexeme : Lexeme} (h : lexeme.token = .keyword word)
    (rest : List Lexeme) : keyword word (lexeme :: rest) = .ok (lexeme.position, rest) :=
  one_cons (by simp [h]) rest

theorem identifier_eq_ok {lexemes rest : List Lexeme} {found : String × Position}
    (h : identifier lexemes = .ok (found, rest)) :
    ∃ lexeme, lexemes = lexeme :: rest ∧ lexeme.token = .identifier found.1 ∧
      lexeme.position = found.2 := by
  obtain ⟨lexeme, rfl, hSelect⟩ := one_eq_ok h
  split at hSelect <;> cases hSelect
  exact ⟨lexeme, rfl, by assumption, rfl⟩

theorem identifier_cons {name : String} {lexeme : Lexeme}
    (h : lexeme.token = .identifier name) (rest : List Lexeme) :
    identifier (lexeme :: rest) = .ok ((name, lexeme.position), rest) :=
  one_cons (by simp [h]) rest

theorem integer_eq_ok {lexemes rest : List Lexeme} {value : UInt64}
    (h : integer lexemes = .ok (value, rest)) :
    ∃ lexeme, lexemes = lexeme :: rest ∧ lexeme.token = .integer value := by
  obtain ⟨lexeme, rfl, hSelect⟩ := one_eq_ok h
  split at hSelect <;> cases hSelect
  exact ⟨lexeme, rfl, by assumption⟩

theorem integer_cons {value : UInt64} {lexeme : Lexeme} (h : lexeme.token = .integer value)
    (rest : List Lexeme) : integer (lexeme :: rest) = .ok (value, rest) :=
  one_cons (by simp [h]) rest

theorem string_eq_ok {lexemes rest : List Lexeme} {content : String}
    (h : string lexemes = .ok (content, rest)) :
    ∃ lexeme, lexemes = lexeme :: rest ∧ lexeme.token = .string content := by
  obtain ⟨lexeme, rfl, hSelect⟩ := one_eq_ok h
  split at hSelect <;> cases hSelect
  exact ⟨lexeme, rfl, by assumption⟩

theorem string_cons {content : String} {lexeme : Lexeme} (h : lexeme.token = .string content)
    (rest : List Lexeme) : string (lexeme :: rest) = .ok (content, rest) :=
  one_cons (by simp [h]) rest

theorem accept?_eq_some {sign : Symbol} {lexemes rest : List Lexeme}
    (h : accept? sign lexemes = some rest) :
    ∃ lexeme, lexemes = lexeme :: rest ∧ lexeme.token = .symbol sign := by
  cases lexemes with
  | nil => cases h
  | cons lexeme others =>
      simp only [accept?] at h
      split at h <;> cases h
      exact ⟨lexeme, rfl, by assumption⟩

theorem accept?_cons {sign : Symbol} {lexeme : Lexeme} (h : lexeme.token = .symbol sign)
    (rest : List Lexeme) : accept? sign (lexeme :: rest) = some rest := by
  simp [accept?, h]

theorem accept?_other {sign : Symbol} {lexeme : Lexeme} (h : lexeme.token ≠ .symbol sign)
    (rest : List Lexeme) : accept? sign (lexeme :: rest) = none := by
  simp [accept?, h]

/-! ### Lists -/

/-- Phrases with commas between them. -/
inductive Listed (item : List Lexeme → α → Prop) : List Lexeme → List α → Prop
  | one {lexemes : List Lexeme} {value : α} (hItem : item lexemes value) :
      Listed item lexemes [value]
  | more {comma : Lexeme} {first others : List Lexeme} {value : α} {values : List α}
      (hItem : item first value) (hComma : comma.token = .symbol .comma)
      (hOthers : Listed item others values) :
      Listed item (first ++ comma :: others) (value :: values)

/-- A list in parentheses that may be empty, or be left out with its parentheses. -/
inductive InParentheses (item : List Lexeme → α → Prop) : List Lexeme → List α → Prop
  | absent : InParentheses item [] []
  | empty {opening closing : Lexeme} (hOpening : opening.token = .symbol .leftParen)
      (hClosing : closing.token = .symbol .rightParen) :
      InParentheses item [opening, closing] []
  | given {opening closing : Lexeme} {inner : List Lexeme} {values : List α}
      (hOpening : opening.token = .symbol .leftParen) (hInner : Listed item inner values)
      (hClosing : closing.token = .symbol .rightParen) :
      InParentheses item (opening :: (inner ++ [closing])) values

variable {item : Reader α} {phrase : List Lexeme → α → Prop} {follows : Symbol → Prop}

/-- A list in steps: an item, and behind a comma the rest of the list. -/
theorem separated_eq {item : Reader α} (progress : Shortens item) :
    separated item progress = (do
      let value ← item
      ifNext .comma
        (do
          let values ← (separated item progress : Reader (List α))
          return value :: values)
        (return [value]) : Reader (List α)) := by
  funext lexemes
  rw [separated]
  split
  · rename_i hItem
    rw [bind_of_error hItem]
  · rename_i value rest hItem
    rw [bind_of_ok hItem]
    split
    · rename_i hComma
      simp only [ifNext, hComma]
      rfl
    · rename_i behind hComma
      simp only [ifNext, hComma]
      split
      · rename_i hMore
        rw [bind_of_error hMore]
      · rename_i hMore
        rw [bind_of_ok hMore]
        rfl

theorem separated_sound (progress : Shortens item) (hItem : Sound item phrase) :
    Sound (separated item progress) (Listed phrase) := by
  intro lexemes values final h
  fun_induction separated item progress lexemes generalizing values final with
  | case1 => cases h
  | case2 lexemes value rest hRead hComma =>
      cases h
      obtain ⟨front, rfl, hPhrase⟩ := hItem _ _ _ hRead
      exact ⟨front, rfl, .one hPhrase⟩
  | case3 => cases h
  | case4 lexemes value rest hRead behind hComma values final hMore ih =>
      cases h
      obtain ⟨front, rfl, hPhrase⟩ := hItem _ _ _ hRead
      obtain ⟨comma, rfl, hToken⟩ := accept?_eq_some hComma
      obtain ⟨others, rfl, hOthers⟩ := ih _ _ hMore
      exact ⟨front ++ comma :: others, by simp, .more hPhrase hToken hOthers⟩

/-- A list is read up to the first symbol that is no comma. -/
theorem separated_completes (progress : Shortens item) (hItem : Completes item phrase follows)
    (hComma : follows .comma) :
    Completes (separated item progress) (Listed phrase)
      fun sign => follows sign ∧ sign ≠ .comma := by
  rintro lexemes values hListed next rest sign hNext ⟨hFollows, hOther⟩
  have hLast : accept? .comma (next :: rest) = none := by
    apply accept?_other
    rw [hNext]
    intro hSame
    exact hOther (Token.symbol.inj hSame)
  -- the last item stands in front of `next`, every other one in front of a comma
  induction hListed with
  | @one lexemes value hPhrase =>
      rw [separated_eq, bind_of_ok (hItem _ _ hPhrase next rest sign hNext hFollows)]
      simp only [ifNext, hLast]
      rfl
  | @more comma first others value values hPhrase hToken hOthers ih =>
      have hRead := hItem _ _ hPhrase comma (others ++ next :: rest) .comma hToken hComma
      rw [List.append_assoc, List.cons_append, separated_eq, bind_of_ok hRead]
      simp only [ifNext, accept?_cons hToken]
      rw [bind_of_ok ih]
      rfl

/-- A list is refused if its next item is, or the items behind its comma are. -/
theorem separated_error (progress : Shortens item) {lexemes : List Lexeme} {mismatch : Mismatch}
    (hItem : item lexemes = .error mismatch) :
    separated item progress lexemes = .error mismatch := by
  rw [separated_eq, bind_of_error hItem]

theorem separated_step_error (progress : Shortens item) {lexemes rest : List Lexeme}
    {comma : Lexeme} {value : α} {mismatch : Mismatch}
    (hItem : item lexemes = .ok (value, comma :: rest)) (hComma : comma.token = .symbol .comma)
    (hMore : separated item progress rest = .error mismatch) :
    separated item progress lexemes = .error mismatch := by
  rw [separated_eq, bind_of_ok hItem]
  simp only [ifNext, accept?_cons hComma]
  rw [bind_of_error hMore]

end Grammar
end QuantumCircuit
