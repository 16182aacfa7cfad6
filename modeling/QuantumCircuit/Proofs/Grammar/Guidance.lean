import QuantumCircuit.Proofs.Grammar.Lookahead
import QuantumCircuit.Proofs.Grammar.Nesting
import QuantumCircuit.Proofs.Grammar.Reading

/-!
# What is expected can follow

Where a reader fails, it says which lexemes it could have gone on with.  Whatever it has taken
until then goes on with each of them to a phrase, if nesting is not limited.

* `Expects` : on a list, what is expected goes on to a phrase.
* `Guides` : a reader that takes phrases only and expects what goes on to phrases.
* `Guides.bind` : readers one after the other.
-/

namespace QuantumCircuit
namespace Grammar

variable {α β : Type}

/-- The lexemes that an expectation is about. -/
def Expectation.Describes : Expectation → Lexeme → Prop
  | .token kind, lexeme => lexeme.token.kind = kind
  | .versionNumber, lexeme => ∃ major minor, IsVersion lexeme major minor
  | .shallowerNesting, _ => False

/-- If the reader fails on the list, and not for the nesting, then what it has taken goes on to a
phrase with a lexeme for each of its expectations. -/
def Expects (reader : Reader α) (phrase : List Lexeme → α → Prop) (lexemes : List Lexeme) : Prop :=
  ∀ expected rest, reader lexemes = .error ⟨expected, rest⟩ → expected ≠ [.shallowerNesting] →
    ∃ front, lexemes = front ++ rest ∧ expected ≠ [] ∧ ∀ expectation ∈ expected,
      ∃ lexeme more value, expectation.Describes lexeme ∧ phrase (front ++ lexeme :: more) value

namespace Expects

variable {reader : Reader α} {phrase : List Lexeme → α → Prop} {lexemes : List Lexeme}

theorem of_ok {value : α} {rest : List Lexeme} (h : reader lexemes = .ok (value, rest)) :
    Expects reader phrase lexemes := by
  intro expected rest hError
  rw [h] at hError
  cases hError

theorem of_tooDeep {rest : List Lexeme} (h : reader lexemes = .error (tooDeep rest)) :
    Expects reader phrase lexemes := by
  intro expected rest hError hShallow
  rw [h] at hError
  cases hError
  exact absurd rfl hShallow

/-- A reader that fails at the first lexeme. -/
theorem of_here {expected : List Expectation} (h : reader lexemes = .error ⟨expected, lexemes⟩)
    (hSome : expected ≠ []) (hBegins : ∀ expectation ∈ expected,
      ∃ lexeme more value, expectation.Describes lexeme ∧ phrase (lexeme :: more) value) :
    Expects reader phrase lexemes := by
  intro found rest hError _
  rw [h] at hError
  cases hError
  exact ⟨[], rfl, hSome, hBegins⟩

theorem congr {other : Reader α} (h : Expects other phrase lexemes)
    (hSame : reader lexemes = other lexemes) : Expects reader phrase lexemes := by
  rw [Expects, hSame]
  exact h

theorem mono {wider : List Lexeme → α → Prop} (h : Expects reader phrase lexemes)
    (hPhrase : ∀ part value, phrase part value → wider part value) :
    Expects reader wider lexemes := by
  intro expected rest hError hShallow
  obtain ⟨front, hFront, hSome, hAll⟩ := h expected rest hError hShallow
  refine ⟨front, hFront, hSome, fun expectation hMember => ?_⟩
  obtain ⟨lexeme, more, value, hDescribes, hGoesOn⟩ := hAll expectation hMember
  exact ⟨lexeme, more, value, hDescribes, hPhrase _ _ hGoesOn⟩

/-- Behind a lexeme that has been taken. -/
theorem cons {inner : Reader α} {first : Lexeme} {rest : List Lexeme}
    (h : Expects inner (fun part => phrase (first :: part)) rest)
    (hSame : reader (first :: rest) = inner rest) : Expects reader phrase (first :: rest) := by
  intro expected behind hError hShallow
  rw [hSame] at hError
  obtain ⟨front, rfl, hSome, hAll⟩ := h expected behind hError hShallow
  exact ⟨first :: front, rfl, hSome, hAll⟩

/-- Readers one after the other: a phrase of the first one can be finished, and behind what the
first one has taken the second one expects what finishes it. -/
theorem bind {next : α → Reader β} {whole : List Lexeme → β → Prop}
    (hFirst : Expects reader phrase lexemes)
    (hFinish : ∀ part value, phrase part value → ∃ more result, whole (part ++ more) result)
    (hNext : ∀ found behind, reader lexemes = .ok (found, behind) →
      ∃ front, lexemes = front ++ behind ∧
        Expects (next found) (fun part => whole (front ++ part)) behind) :
    Expects (reader >>= next) whole lexemes := by
  intro expected rest hError hShallow
  cases hRead : reader lexemes with
  | error mismatch =>
      -- what the first reader could have gone on with makes a phrase, which can be finished
      rw [bind_of_error hRead] at hError
      cases hError
      obtain ⟨front, hFront, hSome, hAll⟩ := hFirst expected rest hRead hShallow
      refine ⟨front, hFront, hSome, fun expectation hMember => ?_⟩
      obtain ⟨lexeme, more, value, hDescribes, hPhrase⟩ := hAll expectation hMember
      obtain ⟨final, result, hWhole⟩ := hFinish _ _ hPhrase
      exact ⟨lexeme, more ++ final, result, hDescribes, by simpa using hWhole⟩
  | ok found =>
      -- the second reader fails, behind what the first one has taken
      obtain ⟨found, behind⟩ := found
      rw [bind_of_ok hRead] at hError
      obtain ⟨front, rfl, hBehind⟩ := hNext found behind hRead
      obtain ⟨back, rfl, hSome, hAll⟩ := hBehind expected rest hError hShallow
      refine ⟨front ++ back, by simp, hSome, fun expectation hMember => ?_⟩
      obtain ⟨lexeme, more, value, hDescribes, hWhole⟩ := hAll expectation hMember
      exact ⟨lexeme, more, value, hDescribes, by simpa using hWhole⟩

theorem map {f : α → β} {taken : List Lexeme → α → Prop} {whole : List Lexeme → β → Prop}
    (h : Expects reader phrase lexemes)
    (hPhrase : ∀ part value, phrase part value → whole part (f value))
    (hSound : Sound reader taken) :
    Expects (reader >>= fun value => pure (f value)) whole lexemes := by
  refine h.bind (fun part value hPart => ⟨[], f value, ?_⟩) fun found behind hRead => ?_
  · rw [List.append_nil]
    exact hPhrase _ _ hPart
  · obtain ⟨front, hFront, -⟩ := hSound _ _ _ hRead
    exact ⟨front, hFront, .of_ok rfl⟩

theorem ifNext {sign : Symbol} {present absent : Reader α}
    (hPresent : ∀ first rest, lexemes = first :: rest → first.token = .symbol sign →
      Expects present (fun part => phrase (first :: part)) rest)
    (hAbsent : Expects absent phrase lexemes) :
    Expects (ifNext sign present absent) phrase lexemes := by
  cases hAccept : accept? sign lexemes with
  | some rest =>
      obtain ⟨first, rfl, hFirst⟩ := accept?_eq_some hAccept
      exact (hPresent first rest rfl hFirst).cons (by simp only [Grammar.ifNext, hAccept])
  | none => exact hAbsent.congr (by simp only [Grammar.ifNext, hAccept])

end Expects

/-! ### Readers that guide -/

/-- The reader takes phrases only, what it expects goes on to phrases, and there are phrases. -/
structure Guides (reader : Reader α) (phrase : List Lexeme → α → Prop) : Prop where
  sound : Sound reader phrase
  expects : ∀ lexemes, Expects reader phrase lexemes
  inhabited : ∃ lexemes value, phrase lexemes value

/-- No lexemes at all. -/
inductive Done (value : α) : List Lexeme → α → Prop
  | mk : Done value [] value

/-- A phrase, and behind it one that depends on what the first denotes. -/
inductive Then (first : List Lexeme → α → Prop) (next : α → List Lexeme → β → Prop) :
    List Lexeme → β → Prop
  | mk {front back : List Lexeme} {found : α} {value : β} (hFirst : first front found)
      (hNext : next found back value) : Then first next (front ++ back) value

/-- A phrase and the symbol that ends it. -/
inductive EndedBy (sign : Symbol) (phrase : List Lexeme → α → Prop) : List Lexeme → α → Prop
  | mk {final : Lexeme} {lexemes : List Lexeme} {value : α} (hPhrase : phrase lexemes value)
      (hFinal : final.token = .symbol sign) : EndedBy sign phrase (lexemes ++ [final]) value

/-- A symbol on its own. -/
inductive IsSymbol (sign : Symbol) : List Lexeme → Unit → Prop
  | mk {lexeme : Lexeme} (hToken : lexeme.token = .symbol sign) : IsSymbol sign [lexeme] ()

/-- A keyword with its place. -/
inductive IsKeyword (word : Keyword) : List Lexeme → Position → Prop
  | mk {lexeme : Lexeme} (hToken : lexeme.token = .keyword word) :
      IsKeyword word [lexeme] lexeme.position

inductive IsInteger : List Lexeme → UInt64 → Prop
  | mk {lexeme : Lexeme} {value : UInt64} (hToken : lexeme.token = .integer value) :
      IsInteger [lexeme] value

inductive IsString : List Lexeme → String → Prop
  | mk {lexeme : Lexeme} {content : String} (hToken : lexeme.token = .string content) :
      IsString [lexeme] content

inductive IsVersionNumber : List Lexeme → UInt32 × UInt32 → Prop
  | mk {lexeme : Lexeme} {major minor : UInt32} (hVersion : IsVersion lexeme major minor) :
      IsVersionNumber [lexeme] (major, minor)

namespace Guides

variable {reader : Reader α} {phrase : List Lexeme → α → Prop}

theorem mono {wider : List Lexeme → α → Prop} (h : Guides reader phrase)
    (hPhrase : ∀ part value, phrase part value → wider part value) : Guides reader wider where
  sound := fun lexemes value rest hRead => by
    obtain ⟨front, hFront, hPart⟩ := h.sound lexemes value rest hRead
    exact ⟨front, hFront, hPhrase _ _ hPart⟩
  expects := fun lexemes => (h.expects lexemes).mono hPhrase
  inhabited := by
    obtain ⟨lexemes, value, hPart⟩ := h.inhabited
    exact ⟨lexemes, value, hPhrase _ _ hPart⟩

theorem pure (value : α) : Guides (Pure.pure value : Reader α) (Done value) where
  sound := fun lexemes found rest h => by
    rw [pure_eq_ok] at h
    obtain ⟨rfl, rfl⟩ := h
    exact ⟨[], rfl, .mk⟩
  expects := fun lexemes => .of_ok rfl
  inhabited := ⟨[], value, .mk⟩

/-- **Sequence.**  Readers one after the other guide if each of them does. -/
theorem bind {next : α → Reader β} {onward : α → List Lexeme → β → Prop} (h : Guides reader phrase)
    (hNext : ∀ found, Guides (next found) (onward found)) :
    Guides (reader >>= next) (Then phrase onward) where
  sound := fun lexemes value rest hRead => by
    rw [bind_eq_ok] at hRead
    obtain ⟨found, behind, hFound, hValue⟩ := hRead
    obtain ⟨front, rfl, hFront⟩ := h.sound _ _ _ hFound
    obtain ⟨back, rfl, hBack⟩ := (hNext found).sound _ _ _ hValue
    exact ⟨front ++ back, by simp, .mk hFront hBack⟩
  expects := fun lexemes => by
    refine (h.expects lexemes).bind (fun part found hPart => ?_) fun found behind hRead => ?_
    · obtain ⟨more, value, hMore⟩ := (hNext found).inhabited
      exact ⟨more, value, .mk hPart hMore⟩
    · obtain ⟨front, hFront, hPart⟩ := h.sound _ _ _ hRead
      exact ⟨front, hFront, ((hNext found).expects behind).mono fun _ _ hMore => .mk hPart hMore⟩
  inhabited := by
    obtain ⟨front, found, hFront⟩ := h.inhabited
    obtain ⟨back, value, hBack⟩ := (hNext found).inhabited
    exact ⟨front ++ back, value, .mk hFront hBack⟩

end Guides

/-! ### Single lexemes -/

/-- A reader of one lexeme guides if what it expects describes a lexeme that it selects. -/
theorem one_guides {select : Lexeme → Option α} {phrase : List Lexeme → α → Prop}
    {expectation : Expectation} (lexeme : Lexeme) {value : α}
    (hPhrase : ∀ lexeme value, select lexeme = some value → phrase [lexeme] value)
    (hDescribes : expectation.Describes lexeme) (hSelect : select lexeme = some value) :
    Guides (one select [expectation]) phrase where
  sound := fun lexemes found rest h => by
    obtain ⟨first, rfl, hFound⟩ := one_eq_ok h
    exact ⟨[first], rfl, hPhrase _ _ hFound⟩
  expects := fun lexemes => by
    have hBegins : ∀ other ∈ [expectation], ∃ lexeme more value, other.Describes lexeme ∧
        phrase (lexeme :: more) value := by
      rw [List.forall_mem_singleton]
      exact ⟨lexeme, [], value, hDescribes, hPhrase _ _ hSelect⟩
    cases lexemes with
    | nil => exact .of_here rfl (by simp) hBegins
    | cons first rest =>
        cases hFirst : select first with
        | none => exact .of_here (by simp only [one, hFirst]) (by simp) hBegins
        | some found => exact .of_ok (one_cons hFirst rest)
  inhabited := ⟨[lexeme], value, hPhrase _ _ hSelect⟩

theorem symbol_guides (sign : Symbol) : Guides (symbol sign) (IsSymbol sign) := by
  refine one_guides (Token.lexeme (.symbol sign)) (fun lexeme _ hSelect => ?_) rfl
    (if_pos rfl)
  split at hSelect <;> cases hSelect
  exact .mk (by assumption)

theorem keyword_guides (word : Keyword) : Guides (keyword word) (IsKeyword word) := by
  refine one_guides (Token.lexeme (.keyword word)) (fun lexeme _ hSelect => ?_) rfl
    (if_pos rfl)
  split at hSelect <;> cases hSelect
  exact .mk (by assumption)

theorem identifier_guides : Guides identifier IsPlacedName := by
  refine one_guides (Token.lexeme (.identifier "q")) (fun lexeme _ hSelect => ?_) rfl rfl
  split at hSelect <;> cases hSelect
  exact .mk (by assumption)

theorem integer_guides : Guides integer IsInteger := by
  refine one_guides (Token.lexeme (.integer 1)) (fun lexeme _ hSelect => ?_) rfl rfl
  split at hSelect <;> cases hSelect
  exact .mk (by assumption)

theorem string_guides : Guides string IsString := by
  refine one_guides (Token.lexeme (.string "")) (fun lexeme _ hSelect => ?_) rfl rfl
  split at hSelect <;> cases hSelect
  exact .mk (by assumption)

theorem versionNumber_guides : Guides versionNumber IsVersionNumber := by
  have hTwo : IsVersion (Token.lexeme (.integer 2)) 2 0 :=
    ⟨Or.inl rfl, versionOf?_eq_some.mp (by decide)⟩
  refine one_guides (Token.lexeme (.integer 2)) (fun lexeme found hSelect => ?_)
    ⟨2, 0, hTwo⟩ (versionOf?_eq_some.mpr hTwo.text)
  obtain ⟨other, hSame, hVersion⟩ := versionNumber_eq_ok (one_cons hSelect [])
  cases hSame
  exact .mk hVersion

theorem endedBy_guides (sign : Symbol) {reader : Reader α} {phrase : List Lexeme → α → Prop}
    (h : Guides reader phrase) : Guides (endedBy sign reader) (EndedBy sign phrase) := by
  refine (h.bind fun value => (symbol_guides sign).bind fun _ => Guides.pure value).mono ?_
  rintro _ _ ⟨hPhrase, ⟨⟨hToken⟩, ⟨⟩⟩⟩
  exact .mk hPhrase hToken

/-! ### Lists -/

theorem separated_expects {item : Reader α} (progress : Shortens item)
    {phrase : List Lexeme → α → Prop} (hItem : Guides item phrase) (lexemes : List Lexeme) :
    Expects (separated item progress) (Listed phrase) lexemes := by
  rw [separated_eq]
  refine (hItem.expects lexemes).bind (fun part value hPart => ⟨[], [value], ?_⟩)
    fun value rest hRead => ?_
  · rw [List.append_nil]
    exact .one hPart
  · obtain ⟨front, hFront, hFirst⟩ := hItem.sound _ _ _ hRead
    refine ⟨front, hFront, .ifNext (fun comma behind hRest hComma => ?_) (.of_ok rfl)⟩
    have hShorter : behind.length < lexemes.length := by
      rw [hFront, hRest]
      simp
      omega
    exact (separated_expects progress hItem behind).map
      (fun part values hPart => .more hFirst hComma hPart) (separated_sound _ hItem.sound)
termination_by lexemes.length

theorem separated_guides {item : Reader α} (progress : Shortens item)
    {phrase : List Lexeme → α → Prop} (hItem : Guides item phrase) :
    Guides (separated item progress) (Listed phrase) where
  sound := separated_sound progress hItem.sound
  expects := separated_expects progress hItem
  inhabited := by
    obtain ⟨lexemes, value, hPhrase⟩ := hItem.inhabited
    exact ⟨lexemes, [value], .one hPhrase⟩

theorem inParentheses_guides {list : Reader (List α)} {phrase : List Lexeme → α → Prop}
    (hList : Guides list (Listed phrase)) :
    Guides (inParentheses (optional list)) (InParentheses phrase) where
  sound := inParentheses_sound hList.sound
  expects := fun lexemes => by
    refine .ifNext (fun opening rest _ hOpening => ?_) (.of_ok rfl)
    -- an empty list is seen from the parenthesis behind it, which is never listed as expected
    have hOptional : Guides (optional list) fun part values =>
        part = [] ∧ values = [] ∨ Listed phrase part values := by
      refine ⟨fun part values rest hRead => ?_, fun part => ?_, ⟨[], [], Or.inl ⟨rfl, rfl⟩⟩⟩
      · simp only [optional, ifAhead] at hRead
        split at hRead
        · rw [pure_eq_ok] at hRead
          obtain ⟨rfl, rfl⟩ := hRead
          exact ⟨[], rfl, Or.inl ⟨rfl, rfl⟩⟩
        · obtain ⟨front, hFront, hListed⟩ := hList.sound _ _ _ hRead
          exact ⟨front, hFront, Or.inr hListed⟩
      · cases hAccept : accept? .rightParen part with
        | some rest => exact .of_ok (by simp only [optional, ifAhead, hAccept]; rfl)
        | none =>
            exact ((hList.expects part).mono fun _ _ hListed => Or.inr hListed).congr
              (by simp only [optional, ifAhead, hAccept])
    refine ((endedBy_guides .rightParen hOptional).expects rest).mono ?_
    rintro _ _ ⟨⟨rfl, rfl⟩ | hListed, hClosing⟩
    · exact .empty hOpening hClosing
    · exact .given hOpening hListed hClosing
  inhabited := ⟨[], [], .absent⟩

/-! ### Expressions -/

/-- A phrase of a level, whatever its nesting is. -/
def IsPhraseOf (level : Nat) (lexemes : List Lexeme) (e : Expr) : Prop :=
  ∃ cost, Derives level lexemes e cost

theorem IsPhraseOf.loosen {level tight : Nat} {lexemes : List Lexeme} {e : Expr}
    (h : IsPhraseOf tight lexemes e) (hLevel : level ≤ tight) : IsPhraseOf level lexemes e := by
  obtain ⟨cost, hDerives⟩ := h
  exact ⟨cost, hDerives.loosen hLevel⟩

/-- Minus signs, and how many there are. -/
inductive IsMinusSigns : List Lexeme → Nat → Prop
  | mk {signs : List Lexeme} (hSigns : ∀ sign ∈ signs, sign.token = .symbol .minus) :
      IsMinusSigns signs signs.length

theorem minusSigns_error {seen : Nat} {lexemes : List Lexeme} {mismatch : Mismatch}
    (h : minusSigns seen lexemes = .error mismatch) : ∃ rest, mismatch = tooDeep rest := by
  induction lexemes generalizing seen with
  | nil => cases h
  | cons lexeme others ih =>
      rw [minusSigns] at h
      split at h
      · split at h
        · cases h
          exact ⟨_, rfl⟩
        · exact ih h
      · cases h

theorem minusSigns_guides : Guides (minusSigns 0) IsMinusSigns where
  sound := fun lexemes count rest h => by
    obtain ⟨signs, rfl, rfl, hSigns⟩ := minusSigns_eq_ok h
    rw [Nat.zero_add]
    exact ⟨signs, rfl, .mk hSigns⟩
  expects := fun lexemes => by
    cases hRead : minusSigns 0 lexemes with
    | ok found => exact .of_ok hRead
    | error mismatch =>
        obtain ⟨rest, rfl⟩ := minusSigns_error hRead
        exact .of_tooDeep hRead
  inhabited := ⟨[], 0, .mk (List.forall_mem_nil _)⟩

theorem bounded_guides (e : Expr) : Guides (bounded e) (Done e) where
  sound := fun lexemes found rest h => by
    obtain ⟨-, rfl, rfl⟩ := bounded_eq_ok.mp h
    exact ⟨[], rfl, .mk⟩
  expects := fun lexemes => by
    by_cases hHigh : nestingLimit < e.height
    · exact .of_tooDeep (bounded_of_lt hHigh lexemes)
    · exact .of_ok (bounded_of_le (Nat.le_of_not_lt hHigh) lexemes)
  inhabited := ⟨[], e, .mk⟩

theorem isPhraseOf_pi {level : Nat} (hLevel : level ≤ 5) :
    IsPhraseOf level [Token.lexeme (.keyword .pi)] .pi :=
  ⟨0, (Derives.leaf rfl).loosen hLevel⟩

/-- With each of the lexemes that can begin an expression a signed phrase begins. -/
theorem expressionStart_begins : ∀ expectation ∈ expressionStart, ∃ lexeme more e,
    expectation.Describes lexeme ∧ IsPhraseOf 4 (lexeme :: more) e := by
  have hLeaf (token : Token) {e : Expr} (h : opening? token = some (.leaf e)) :
      ∃ lexeme more e, (Expectation.token token.kind).Describes lexeme ∧
        IsPhraseOf 4 (lexeme :: more) e :=
    ⟨token.lexeme, [], e, rfl, 0, (Derives.leaf h).loosen (by decide)⟩
  obtain ⟨cost, hPi⟩ := isPhraseOf_pi (Nat.zero_le 5)
  have hParenthesis : IsPhraseOf 4 ([.symbol .leftParen, .keyword .pi, .symbol .rightParen].map
      Token.lexeme) .pi := ⟨_, (Derives.parenthesis rfl hPi rfl).loosen (by decide)⟩
  have hCall : IsPhraseOf 4 ([.function .sin, .symbol .leftParen, .keyword .pi,
      .symbol .rightParen].map Token.lexeme) (.call .sin .pi) :=
    ⟨_, (Derives.call rfl rfl hPi rfl).loosen (by decide)⟩
  have hMinus : IsPhraseOf 4 ([.symbol .minus, .keyword .pi].map Token.lexeme) (.neg .pi) :=
    ⟨_, .minus rfl ((Derives.leaf rfl).loosen (by decide))⟩
  simp only [expressionStart, List.forall_mem_cons]
  exact ⟨hLeaf (.integer 1) rfl, hLeaf (.real .zero) rfl, hLeaf (.keyword .pi) rfl,
    hLeaf (.identifier "q") rfl,
    ⟨Token.lexeme (.function .sin), _, _, rfl, hCall⟩,
    ⟨Token.lexeme (.symbol .leftParen), _, _, rfl, hParenthesis⟩,
    ⟨Token.lexeme (.symbol .minus), _, _, rfl, hMinus⟩, List.forall_mem_nil _⟩

theorem callOf_guides {inner : Reader Expr} (hInner : Guides inner (IsPhraseOf 0))
    {name : Lexeme} {f : MathFunction} (hName : name.token = .function f) :
    Guides (callOf inner f) fun part => IsPhraseOf 5 (name :: part) := by
  refine ((symbol_guides .leftParen).bind fun _ => (endedBy_guides .rightParen hInner).bind
    fun e => bounded_guides (.call f e)).mono ?_
  rintro _ _ ⟨⟨hOpening⟩, ⟨⟨⟨cost, hDerives⟩, hClosing⟩, ⟨⟩⟩⟩
  exact ⟨cost + 1, by simpa using Derives.call hName hOpening hDerives hClosing⟩

theorem parenthesis_guides {inner : Reader Expr} (hInner : Guides inner (IsPhraseOf 0))
    {opening : Lexeme} (hOpening : opening.token = .symbol .leftParen) :
    Guides (endedBy .rightParen inner) fun part => IsPhraseOf 5 (opening :: part) := by
  refine (endedBy_guides .rightParen hInner).mono ?_
  rintro _ _ ⟨⟨cost, hDerives⟩, hClosing⟩
  exact ⟨cost + 1, .parenthesis hOpening hDerives hClosing⟩

/-- Where no primary phrase begins, a minus sign could still stand in front of one. -/
theorem primary_expects {inner : Reader Expr} (hInner : Guides inner (IsPhraseOf 0))
    (lexemes : List Lexeme) : Expects (primary inner) (IsPhraseOf 4) lexemes := by
  have hSome : expressionStart ≠ [] := by decide
  cases lexemes with
  | nil => exact .of_here rfl hSome expressionStart_begins
  | cons lexeme rest =>
      have hLoosen (part : List Lexeme) (e : Expr) (hPart : IsPhraseOf 5 (lexeme :: part) e) :
          IsPhraseOf 4 (lexeme :: part) e := hPart.loosen (by decide)
      cases hOpening : opening? lexeme.token with
      | none =>
          exact .of_here (by simp only [primary, hOpening]) hSome expressionStart_begins
      | some opening =>
          cases opening with
          | leaf e => exact .of_ok (primary_leaf hOpening rest)
          | function f =>
              have hCall := callOf_guides hInner (opening?_function hOpening)
              exact ((hCall.expects rest).mono hLoosen).cons (by simp only [primary, hOpening])
          | parenthesis =>
              have hInside := parenthesis_guides hInner (opening?_parenthesis hOpening)
              exact ((hInside.expects rest).mono hLoosen).cons (by simp only [primary, hOpening])

theorem unary_guides {levels : Nat} (hInner : Guides (expressionWithin levels 0) (IsPhraseOf 0)) :
    Guides (unary (expressionWithin levels 0)) (IsPhraseOf 4) := by
  have hPrimary : Guides (primary (expressionWithin levels 0)) (IsPhraseOf 4) := by
    refine ⟨fun lexemes e rest hRead => ?_, primary_expects hInner, _, _, isPhraseOf_pi (by decide)⟩
    obtain ⟨front, cost, hFront, hDerives, -⟩ :=
      primary_taken (fun _ _ _ h => expressionWithin_sound (Nat.zero_le 4) h) hRead
    exact ⟨front, hFront, cost, .tighter hDerives⟩
  refine (minusSigns_guides.bind fun count => hPrimary.bind fun e =>
    bounded_guides (negated count e)).mono ?_
  rintro _ _ ⟨⟨hSigns⟩, ⟨⟨cost, hDerives⟩, ⟨⟩⟩⟩
  exact ⟨cost, by simpa using Derives.minusSigns hSigns hDerives⟩

/-- Behind a left operand an expression goes on with what the right operand of the next operator
expects. -/
theorem climb_expects {levels lowest level : Nat} {left : Expr} {front lexemes : List Lexeme}
    (hInner : ∀ bound ≤ 4, ∀ lexemes,
      Expects (expressionWithin levels bound) (IsPhraseOf bound) lexemes)
    (hLeft : IsPhraseOf level front left) (hEdge : Stops (edge level) lexemes) :
    Expects (climb (expressionWithin levels) lowest left)
      (fun part => IsPhraseOf lowest (front ++ part)) lexemes := by
  by_cases hStops : Stops lowest lexemes
  · exact .of_ok (climb_stops hStops left)
  · rw [Stops] at hStops
    push Not at hStops
    obtain ⟨operator, behind, hFront, hTight⟩ := hStops
    obtain ⟨sign, symbol, rfl, hSign, hOperator⟩ := frontOperator?_eq_some hFront
    have hBound : rightPrecedence operator ≤ 4 := by cases operator <;> decide
    -- with the operator and a right operand the phrase so far is one of the operator's level
    have hBinary {second : List Lexeme} {right : Expr}
        (hRight : IsPhraseOf (rightPrecedence operator) second right) :
        IsPhraseOf operator.precedence (front ++ sign :: second) (.binary operator left right) := by
      obtain ⟨leftCost, hLeft⟩ := hLeft.loosen (leftPrecedence_le (hEdge _ _ hFront))
      obtain ⟨rightCost, hRight⟩ := hRight
      exact ⟨_, .binary hSign hOperator hLeft hRight⟩
    refine Expects.cons ?_ (climb_eq hFront hTight)
    refine (hInner _ hBound behind).bind (fun second right hRight => ?_) fun right rest hRead => ?_
    · exact ⟨[], _, by simpa using (hBinary hRight).loosen hTight⟩
    · obtain ⟨⟨second, cost, hSecond, hDerives, -⟩, -, hNext⟩ := expressionWithin_sound hBound hRead
      refine ⟨second, hSecond, ?_⟩
      have hHere := hBinary ⟨cost, hDerives⟩
      refine ((bounded_guides _).expects rest).bind (fun part e hPart => ?_)
        fun e after hBounded => ?_
      · cases hPart
        exact ⟨[], _, by simpa using hHere.loosen hTight⟩
      · obtain ⟨hHeight, rfl, rfl⟩ := bounded_eq_ok.mp hBounded
        -- the left operand grows, but no higher than the limit
        have hHigher := Expr.height_left_lt operator left right
        have hEdge' : Stops (edge operator.precedence) after := by rwa [edge_precedence operator]
        refine ⟨[], rfl, (climb_expects hInner hHere hEdge').mono fun part e hPart => ?_⟩
        simpa using hPart
termination_by nestingLimit - left.height

theorem expressionWithin_guides {levels lowest : Nat} (hLowest : lowest ≤ 4) :
    Guides (expressionWithin levels lowest) (IsPhraseOf lowest) where
  sound := fun lexemes e rest hRead => by
    obtain ⟨⟨front, cost, hFront, hDerives, -⟩, -, -⟩ := expressionWithin_sound hLowest hRead
    exact ⟨front, hFront, cost, hDerives⟩
  expects := fun lexemes => by
    cases levels with
    | zero => exact .of_tooDeep rfl
    | succ levels =>
        have hUnary := unary_guides (@expressionWithin_guides levels 0 (Nat.zero_le 4))
        refine (hUnary.expects lexemes).bind (fun part left hLeft => ?_) fun left rest hRead => ?_
        · exact ⟨[], left, by simpa using hLeft.loosen hLowest⟩
        · obtain ⟨front, hFront, hLeft⟩ := hUnary.sound _ _ _ hRead
          exact ⟨front, hFront, climb_expects
            (fun bound hBound => (expressionWithin_guides hBound).expects) hLeft (stops_four rest)⟩
  inhabited := ⟨_, _, isPhraseOf_pi (Nat.le_succ_of_le hLowest)⟩

theorem expression_guides : Guides expression IsFormula := expressionWithin_guides (Nat.zero_le 4)

end Grammar
end QuantumCircuit
