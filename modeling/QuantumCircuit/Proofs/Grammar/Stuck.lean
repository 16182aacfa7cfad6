import QuantumCircuit.Proofs.Grammar.Omission

/-!
# Where readers get stuck

A reader that takes a phrase looks at the next lexeme for the symbols that would have gone on it;
a reader that fails has looked for some symbols in vain before it asks for what it expects.  Both
happen at a spot, which knows the tokens of the statement so far and the symbols that have been
refused there already.

* `Finished` : the phrase is taken in front of everything but some symbols, which go on it.
* `Stuck` : the reader fails at everything but what it expects and some symbols, which go on.
* `Spot` : the tokens of a begun statement and the symbols refused behind them.
* `Tells` : on a list, a reader is finished or stuck as the omissions say.
* `Tells.bind`, `Tells.ifNext`, `separated_tells` : sequences, choices and lists.
-/

namespace QuantumCircuit
namespace Grammar

variable {α β : Type}

/-! ### Outcomes -/

/-- The lexemes begin with none of the symbols. -/
def Avoids (signs : List Symbol) (lexemes : List Lexeme) : Prop :=
  ∀ first ∈ lexemes.head?, ∀ sign ∈ signs, first.token ≠ .symbol sign

/-- The lexemes begin with nothing that is expected. -/
def Misses (expected : List Expectation) (lexemes : List Lexeme) : Prop :=
  ∀ first ∈ lexemes.head?, ∀ expectation ∈ expected, ¬ expectation.Describes first

/-- The lexemes go on to a phrase. -/
def Begins (phrase : List Lexeme → α → Prop) (lexemes : List Lexeme) : Prop :=
  ∃ more value, phrase (lexemes ++ more) value

/-- The lexemes go on to a phrase with each of the symbols. -/
def GoesOnWith (phrase : List Lexeme → α → Prop) (signs : List Symbol) (front : List Lexeme) :
    Prop :=
  ∀ sign ∈ signs, ∀ lexeme : Lexeme, lexeme.token = .symbol sign → Begins phrase (front ++ [lexeme])

/-- The reader takes the phrase in front of everything that avoids some symbols, and with each of
these the phrase goes on. -/
structure Finished (reader : Reader α) (phrase : List Lexeme → α → Prop) (signs : List Symbol)
    (front : List Lexeme) (value : α) : Prop where
  reads : ∀ other, Avoids signs other → reader (front ++ other) = .ok (value, other)
  taken : phrase front value
  goesOn : GoesOnWith phrase signs front

/-- The reader fails behind the lexemes at everything that is not expected and avoids some symbols,
and with everything else they go on to a phrase. -/
structure Stuck (reader : Reader α) (phrase : List Lexeme → α → Prop)
    (expected : List Expectation) (signs : List Symbol) (front : List Lexeme) : Prop where
  fails : ∀ other, Avoids signs other → Misses expected other →
    reader (front ++ other) = .error ⟨expected, other⟩
  expects : ∀ expectation ∈ expected, ∀ lexeme, expectation.Describes lexeme →
    Begins phrase (front ++ [lexeme])
  goesOn : GoesOnWith phrase signs front
  /-- A statement has been begun. -/
  begun : expected ≠ statementStart ∧ expected ≠ declarationStart

theorem avoids_nil (lexemes : List Lexeme) : Avoids [] lexemes :=
  fun _ _ _ hSign => absurd hSign List.not_mem_nil

theorem avoids_at_end (signs : List Symbol) : Avoids signs [] := by simp [Avoids]

theorem misses_at_end (expected : List Expectation) : Misses expected [] := by simp [Misses]

theorem exists_of_not_misses {expected : List Expectation} {lexemes : List Lexeme}
    (h : ¬ Misses expected lexemes) : ∃ first rest, lexemes = first :: rest ∧
      ∃ expectation ∈ expected, expectation.Describes first := by
  rw [Misses] at h
  push Not at h
  obtain ⟨first, hFirst, hDescribes⟩ := h
  obtain ⟨rest, rfl⟩ := List.head?_eq_some_iff.mp (Option.mem_def.mp hFirst)
  exact ⟨first, rest, rfl, hDescribes⟩

theorem avoids_append {first second : List Symbol} {lexemes : List Lexeme} :
    Avoids (first ++ second) lexemes ↔ Avoids first lexemes ∧ Avoids second lexemes := by
  simp only [Avoids, List.forall_mem_append]
  exact ⟨fun h => ⟨fun lexeme hHead => (h lexeme hHead).1, fun lexeme hHead => (h lexeme hHead).2⟩,
    fun h lexeme hHead => ⟨h.1 lexeme hHead, h.2 lexeme hHead⟩⟩

theorem avoids_cons {sign : Symbol} {signs : List Symbol} {lexemes : List Lexeme} :
    Avoids (sign :: signs) lexemes ↔ Avoids [sign] lexemes ∧ Avoids signs lexemes :=
  @avoids_append [sign] signs lexemes

theorem Avoids.mono {larger signs : List Symbol} {lexemes : List Lexeme} (h : Avoids larger lexemes)
    (hSigns : ∀ sign ∈ signs, sign ∈ larger) : Avoids signs lexemes :=
  fun lexeme hHead sign hSign => h lexeme hHead sign (hSigns sign hSign)

/-- Only the first lexeme counts. -/
theorem avoids_congr {signs : List Symbol} {lexemes other : List Lexeme}
    (h : lexemes.head? = other.head?) : Avoids signs lexemes ↔ Avoids signs other := by
  rw [Avoids, Avoids, h]

theorem Avoids.accept? {sign : Symbol} {lexemes : List Lexeme} (h : Avoids [sign] lexemes) :
    accept? sign lexemes = none := by
  cases lexemes with
  | nil => rfl
  | cons lexeme rest => exact accept?_other (h lexeme rfl sign (List.mem_singleton_self _)) rest

theorem avoids_of_accept? {sign : Symbol} {lexemes : List Lexeme}
    (h : Grammar.accept? sign lexemes = none) : Avoids [sign] lexemes := by
  rintro lexeme hHead other hOther hToken
  obtain rfl := List.mem_singleton.mp hOther
  obtain ⟨rest, rfl⟩ := List.head?_eq_some_iff.mp (Option.mem_def.mp hHead)
  rw [accept?_cons hToken] at h
  cases h

/-- If every phrase goes on to a wider one, so does what begins one. -/
theorem Begins.mono {phrase : List Lexeme → α → Prop} {wider : List Lexeme → β → Prop}
    {front : List Lexeme} (h : Begins phrase front)
    (hFinish : ∀ part value, phrase part value → ∃ more result, wider (part ++ more) result) :
    Begins wider front := by
  obtain ⟨more, value, hMore⟩ := h
  obtain ⟨final, result, hFinal⟩ := hFinish _ _ hMore
  exact ⟨more ++ final, result, by simpa using hFinal⟩

theorem GoesOnWith.mono {phrase : List Lexeme → α → Prop} {wider : List Lexeme → β → Prop}
    {signs : List Symbol} {front : List Lexeme} (h : GoesOnWith phrase signs front)
    (hFinish : ∀ part value, phrase part value → ∃ more result, wider (part ++ more) result) :
    GoesOnWith wider signs front :=
  fun sign hSign lexeme hToken => (h sign hSign lexeme hToken).mono hFinish

/-- Behind some lexemes, what goes on is what goes on with them. -/
theorem begins_append {phrase : List Lexeme → α → Prop} {front back : List Lexeme} :
    Begins (fun part => phrase (front ++ part)) back ↔ Begins phrase (front ++ back) := by
  simp only [Begins, List.append_assoc]

theorem goesOnWith_append {phrase : List Lexeme → α → Prop} {signs : List Symbol}
    {front back : List Lexeme} :
    GoesOnWith (fun part => phrase (front ++ part)) signs back ↔
      GoesOnWith phrase signs (front ++ back) := by
  simp only [GoesOnWith, begins_append, List.append_assoc]

theorem GoesOnWith.behind {phrase : List Lexeme → α → Prop} {wider : List Lexeme → β → Prop}
    {signs : List Symbol} {front : List Lexeme} (h : GoesOnWith phrase signs front)
    (hFinish : ∀ part value, phrase part value → ∃ more result, wider (part ++ more) result) :
    GoesOnWith (fun part => wider (front ++ part)) signs [] := by
  rw [goesOnWith_append, List.append_nil]
  exact h.mono hFinish

theorem goesOnWith_nil (phrase : List Lexeme → α → Prop) (front : List Lexeme) :
    GoesOnWith phrase [] front :=
  fun _ hSign => absurd hSign List.not_mem_nil

namespace Stuck

variable {reader : Reader α} {next : α → Reader β} {phrase : List Lexeme → α → Prop}
  {whole : List Lexeme → β → Prop} {expected : List Expectation} {signs : List Symbol}
  {front : List Lexeme}

theorem mono {wider : List Lexeme → α → Prop} (h : Stuck reader phrase expected signs front)
    (hFinish : ∀ part value, phrase part value → ∃ more result, wider (part ++ more) result) :
    Stuck reader wider expected signs front where
  fails := h.fails
  expects := fun expectation hMember lexeme hLexeme =>
    (h.expects expectation hMember lexeme hLexeme).mono hFinish
  goesOn := h.goesOn.mono hFinish
  begun := h.begun

/-- Of two readers, the first one is stuck. -/
theorem bind (h : Stuck reader phrase expected signs front)
    (hFinish : ∀ part value, phrase part value → ∃ more result, whole (part ++ more) result) :
    Stuck (reader >>= next) whole expected signs front where
  fails := fun other hAvoids hMisses => bind_of_error (h.fails other hAvoids hMisses)
  expects := fun expectation hMember lexeme hLexeme =>
    (h.expects expectation hMember lexeme hLexeme).mono hFinish
  goesOn := h.goesOn.mono hFinish
  begun := h.begun

/-- Of two readers, the second one is stuck, behind what the first one takes in front of everything
that avoids some symbols. -/
theorem of_next {value : α} {back : List Lexeme} {opened : List Symbol}
    (h : Stuck (next value) (fun part => whole (front ++ part)) expected signs back)
    (hReads : ∀ other, Avoids opened other →
      reader (front ++ (back ++ other)) = .ok (value, back ++ other))
    (hGoesOn : GoesOnWith whole opened (front ++ back)) :
    Stuck (reader >>= next) whole expected (signs ++ opened) (front ++ back) where
  fails := fun other hAvoids hMisses => by
    obtain ⟨hSigns, hOpened⟩ := avoids_append.mp hAvoids
    rw [List.append_assoc, bind_of_ok (hReads other hOpened)]
    exact h.fails other hSigns hMisses
  expects := fun expectation hMember lexeme hLexeme => by
    rw [List.append_assoc]
    exact begins_append.mp (h.expects expectation hMember lexeme hLexeme)
  goesOn := List.forall_mem_append.mpr ⟨goesOnWith_append.mp h.goesOn, hGoesOn⟩
  begun := h.begun

end Stuck

/-! ### Spots -/

/-- The lexemes end neither the input nor a statement or a call in a body, and begin no body. -/
def Joins (lexemes : List Lexeme) : Prop := ∀ lexeme ∈ lexemes, lexeme.token.separates = false

/-- The tokens of the statement that has been begun, the last one first, and the symbols that have
been looked for in vain behind them. -/
structure Spot where
  back : List Token
  refused : List Symbol

namespace Spot

/-- The spot where a statement, or a call in a body, can begin. -/
def clear : Spot := ⟨[], []⟩

/-- The spot behind one more lexeme. -/
def past (spot : Spot) (lexeme : Lexeme) : Spot := ⟨joined spot.back lexeme.token, []⟩

/-- The spot behind some lexemes. -/
def along (spot : Spot) (front : List Lexeme) : Spot := front.foldl past spot

/-- The same spot, after some symbols have been looked for in vain. -/
def refusing (spot : Spot) (signs : List Symbol) : Spot := ⟨spot.back, signs ++ spot.refused⟩

/-- What has been looked for in vain is what the expectations omit. -/
def Fits (spot : Spot) (expected : List Expectation) : Prop :=
  omittedSymbols spot.back expected = spot.refused

@[simp] theorem along_nil (spot : Spot) : spot.along [] = spot := rfl

@[simp] theorem along_cons (spot : Spot) (lexeme : Lexeme) (front : List Lexeme) :
    spot.along (lexeme :: front) = (spot.past lexeme).along front := rfl

@[simp] theorem along_append (spot : Spot) (front back : List Lexeme) :
    spot.along (front ++ back) = (spot.along front).along back := List.foldl_append

theorem past_eq (spot : Spot) {lexeme : Lexeme} {token : Token} (h : lexeme.token = token) :
    spot.past lexeme = ⟨joined spot.back token, []⟩ := by
  rw [past, h]

theorem past_back (spot : Spot) {lexeme : Lexeme} (h : lexeme.token.separates = false) :
    (spot.past lexeme).back = lexeme.token :: spot.back := by
  simp [past, joined, h]

/-- Lexemes that end nothing join the tokens behind which they stand. -/
theorem along_back (spot : Spot) {front : List Lexeme} (h : Joins front) :
    (spot.along front).back = (front.map Lexeme.token).reverse ++ spot.back := by
  induction front generalizing spot with
  | nil => rfl
  | cons lexeme front ih =>
      obtain ⟨hFirst, hFront⟩ := List.forall_mem_cons.mp h
      simp [ih _ hFront, past_back _ hFirst]

theorem along_refused {spot : Spot} (h : spot.refused = []) (front : List Lexeme) :
    (spot.along front).refused = [] := by
  induction front generalizing spot with
  | nil => exact h
  | cons lexeme front ih => exact ih rfl

theorem along_refusing_back (spot : Spot) (signs : List Symbol) (front : List Lexeme) :
    ((spot.refusing signs).along front).back = (spot.along front).back := by
  cases front <;> rfl

@[simp] theorem refusing_back (spot : Spot) (signs : List Symbol) :
    (spot.refusing signs).back = spot.back := rfl

@[simp] theorem refusing_nil (spot : Spot) : spot.refusing [] = spot := rfl

@[simp] theorem refusing_refusing (spot : Spot) (first second : List Symbol) :
    (spot.refusing first).refusing second = spot.refusing (second ++ first) := by
  simp only [refusing, List.append_assoc]

/-- Behind a lexeme that ends a statement another one can begin. -/
theorem along_separates (spot : Spot) {front : List Lexeme} {final : Lexeme}
    (hFinal : front.getLast? = some final) (hSeparates : final.token.separates = true) :
    spot.along front = clear := by
  obtain ⟨inner, rfl⟩ := List.getLast?_eq_some_iff.mp hFinal
  rw [along_append, along_cons, along_nil, past, joined, if_pos hSeparates, clear]

/-- What is omitted has been refused, and nothing else. -/
theorem fits_refusing {spot : Spot} (hRefused : spot.refused = []) {signs : List Symbol}
    {expected : List Expectation} (h : omittedSymbols spot.back expected = signs) :
    (spot.refusing signs).Fits expected := by
  rw [Fits, refusing, hRefused, List.append_nil, h]

end Spot

/-! ### What readers tell -/

/-- If the reader succeeds on the list, it is finished; `opens` are the symbols that could go on the
phrase that it has taken. -/
def Finishes (reader : Reader α) (phrase : List Lexeme → α → Prop)
    (opens : List Token → List Symbol) (spot : Spot) (lexemes : List Lexeme) : Prop :=
  ∀ value rest, reader lexemes = .ok (value, rest) → ∃ front, lexemes = front ++ rest ∧
    Avoids (opens (spot.along front).back) rest ∧
      Finished reader phrase (opens (spot.along front).back) front value

/-- If the reader fails on the list, and not for the nesting, it is stuck, and what has been refused
is what its expectations omit. -/
def GetsStuck (reader : Reader α) (phrase : List Lexeme → α → Prop) (spot : Spot)
    (lexemes : List Lexeme) : Prop :=
  ∀ expected rest, reader lexemes = .error ⟨expected, rest⟩ → expected ≠ [.shallowerNesting] →
    ∃ front signs, lexemes = front ++ rest ∧ ((spot.along front).refusing signs).Fits expected ∧
      Stuck reader phrase expected signs front

section Outcomes

variable {reader : Reader α} {phrase : List Lexeme → α → Prop} {opens : List Token → List Symbol}
  {spot : Spot} {lexemes : List Lexeme}

theorem Finishes.mono {wider : List Lexeme → α → Prop}
    (h : Finishes reader phrase opens spot lexemes)
    (hPhrase : ∀ part value, phrase part value → wider part value) :
    Finishes reader wider opens spot lexemes := by
  intro value rest hRead
  obtain ⟨front, hFront, hAvoids, hReads, hPart, hGoesOn⟩ := h value rest hRead
  exact ⟨front, hFront, hAvoids, hReads, hPhrase _ _ hPart, hGoesOn.mono fun part value hPart =>
    ⟨[], value, by simpa using hPhrase _ _ hPart⟩⟩

/-- Behind a lexeme that has been taken. -/
theorem Finishes.cons {inner : Reader α} {first : Lexeme} {rest : List Lexeme}
    (hSame : ∀ other, reader (first :: other) = inner other)
    (h : Finishes inner (fun part => phrase (first :: part)) opens (spot.past first) rest) :
    Finishes reader phrase opens spot (first :: rest) := by
  intro value behind hRead
  rw [hSame] at hRead
  obtain ⟨front, rfl, hAvoids, hReads, hPart, hGoesOn⟩ := h value behind hRead
  exact ⟨first :: front, rfl, hAvoids, fun other hOther => (hSame _).trans (hReads other hOther),
    hPart, hGoesOn⟩

/-- Behind a phrase that has been taken, the symbols that could have gone on it have been refused:
either the second reader takes something, or they go on both phrases. -/
theorem Finishes.bind {next : α → Reader β} {whole : List Lexeme → β → Prop}
    {onward : List Token → List Symbol} (h : Finishes reader phrase opens spot lexemes)
    (hNext : ∀ front value rest, lexemes = front ++ rest →
      Avoids (opens (spot.along front).back) rest →
        Finished reader phrase (opens (spot.along front).back) front value →
          Finishes (next value) (fun part => whole (front ++ part)) onward
            ((spot.along front).refusing (opens (spot.along front).back)) rest)
    (hOpens : (∀ value, Shortens (next value)) ∨ ∀ back, ∀ sign ∈ opens back, sign ∈ onward back) :
    Finishes (reader >>= next) whole onward spot lexemes := by
  intro result rest hRead
  obtain ⟨value, behind, hFirst, hSecond⟩ := (bind_eq_ok _ _ _ _ _).mp hRead
  obtain ⟨front, rfl, hAvoids, hFinished⟩ := h value behind hFirst
  obtain ⟨back, rfl, hBehind, hReads, hWhole, hGoesOn⟩ :=
    hNext front value behind rfl hAvoids hFinished result rest hSecond
  rw [Spot.along_refusing_back] at hBehind hReads hGoesOn
  -- the first reader stops in front of the second phrase, or of what avoids its symbols, too
  have hFront : ∀ other, Avoids (onward ((spot.along front).along back).back) other →
      Avoids (opens (spot.along front).back) (back ++ other) := by
    intro other hOther
    cases back with
    | nil =>
        obtain hShortens | hSubset := hOpens
        · exact absurd (hShortens value _ _ _ hSecond) (Nat.lt_irrefl _)
        · exact hOther.mono (hSubset _)
    | cons lexeme back => exact (avoids_congr rfl).mp hAvoids
  refine ⟨front ++ back, (List.append_assoc ..).symm, ?_⟩
  rw [Spot.along_append]
  refine ⟨hBehind, fun other hOther => ?_, hWhole, goesOnWith_append.mp hGoesOn⟩
  rw [List.append_assoc, bind_of_ok (hFinished.reads _ (hFront other hOther)), hReads other hOther]

/-- A reader that goes on as another one in front of what avoids a symbol: that symbol has been
refused. -/
theorem Finishes.refuse {inner : Reader α} {sign : Symbol}
    (hSame : ∀ other, Avoids [sign] other → reader other = inner other)
    (hOther : Avoids [sign] lexemes) (hOpens : sign ∈ opens spot.back ∨ Shortens inner)
    (h : Finishes inner phrase opens (spot.refusing [sign]) lexemes) :
    Finishes reader phrase opens spot lexemes := by
  intro value rest hRead
  rw [hSame lexemes hOther] at hRead
  obtain ⟨front, rfl, hAvoids, hFinished⟩ := h value rest hRead
  rw [Spot.along_refusing_back] at hAvoids hFinished
  refine ⟨front, rfl, hAvoids, fun other hBehind => ?_, hFinished.taken, hFinished.goesOn⟩
  rw [hSame, hFinished.reads other hBehind]
  cases front with
  | nil =>
      obtain hOpen | hShortens := hOpens
      · exact hBehind.mono (List.forall_mem_singleton.mpr hOpen)
      · exact absurd (hShortens _ _ _ hRead) (Nat.lt_irrefl _)
  | cons first front => exact (avoids_congr rfl).mp hOther

theorem GetsStuck.of_ok {value : α} {rest : List Lexeme} (h : reader lexemes = .ok (value, rest)) :
    GetsStuck reader phrase spot lexemes := by
  intro expected behind hError
  rw [h] at hError
  cases hError

theorem GetsStuck.of_tooDeep {rest : List Lexeme} (h : reader lexemes = .error (tooDeep rest)) :
    GetsStuck reader phrase spot lexemes := by
  intro expected behind hError hShallow
  rw [h] at hError
  cases hError
  exact absurd rfl hShallow

theorem GetsStuck.mono {wider : List Lexeme → α → Prop} (h : GetsStuck reader phrase spot lexemes)
    (hFinish : ∀ part value, phrase part value → ∃ more result, wider (part ++ more) result) :
    GetsStuck reader wider spot lexemes := by
  intro expected rest hError hShallow
  obtain ⟨front, signs, hFront, hFits, hStuck⟩ := h expected rest hError hShallow
  exact ⟨front, signs, hFront, hFits, hStuck.mono hFinish⟩

/-- The reader is stuck in front of the list. -/
theorem GetsStuck.here {expected : List Expectation}
    (hFails : ∀ other, Misses expected other → reader other = .error ⟨expected, other⟩)
    (hHere : Misses expected lexemes)
    (hExpects : ∀ expectation ∈ expected, ∀ lexeme, expectation.Describes lexeme →
      Begins phrase [lexeme])
    (hBegun : expected ≠ statementStart ∧ expected ≠ declarationStart)
    (hFits : spot.Fits expected) : GetsStuck reader phrase spot lexemes := by
  intro found rest hError _
  rw [hFails lexemes hHere] at hError
  cases hError
  exact ⟨[], [], rfl, hFits, fun other _ hOther => hFails other hOther, hExpects,
    goesOnWith_nil _ _, hBegun⟩

/-- Behind a lexeme that has been taken. -/
theorem GetsStuck.cons {inner : Reader α} {first : Lexeme} {rest : List Lexeme}
    (hSame : ∀ other, reader (first :: other) = inner other)
    (h : GetsStuck inner (fun part => phrase (first :: part)) (spot.past first) rest) :
    GetsStuck reader phrase spot (first :: rest) := by
  intro expected behind hError hShallow
  rw [hSame] at hError
  obtain ⟨front, signs, rfl, hFits, hFails, hExpects, hGoesOn, hBegun⟩ :=
    h expected behind hError hShallow
  exact ⟨first :: front, signs, rfl, hFits,
    fun other hAvoids hMisses => (hSame _).trans (hFails other hAvoids hMisses), hExpects, hGoesOn,
    hBegun⟩

theorem GetsStuck.bind {next : α → Reader β} {whole : List Lexeme → β → Prop}
    (h : GetsStuck reader phrase spot lexemes)
    (hFinishes : Finishes reader phrase opens spot lexemes)
    (hFinish : ∀ part value, phrase part value → ∃ more result, whole (part ++ more) result)
    (hNext : ∀ front value rest, lexemes = front ++ rest →
      Avoids (opens (spot.along front).back) rest →
        Finished reader phrase (opens (spot.along front).back) front value →
          GetsStuck (next value) (fun part => whole (front ++ part))
            ((spot.along front).refusing (opens (spot.along front).back)) rest) :
    GetsStuck (reader >>= next) whole spot lexemes := by
  intro expected rest hError hShallow
  cases hFirst : reader lexemes with
  | error mismatch =>
      rw [bind_of_error hFirst] at hError
      cases hError
      obtain ⟨front, signs, hFront, hFits, hStuck⟩ := h expected rest hFirst hShallow
      exact ⟨front, signs, hFront, hFits, hStuck.bind hFinish⟩
  | ok found =>
      obtain ⟨value, behind⟩ := found
      rw [bind_of_ok hFirst] at hError
      obtain ⟨front, rfl, hAvoids, hFinished⟩ := hFinishes value behind hFirst
      obtain ⟨back, signs, rfl, hFits, hStuck⟩ :=
        hNext front value behind rfl hAvoids hFinished expected rest hError hShallow
      cases back with
      | nil =>
          -- nothing has been taken since the first reader refused its symbols
          refine ⟨front ++ [], signs ++ opens (spot.along front).back, by simp, ?_, ?_⟩
          · rw [Spot.along_append]
            rwa [Spot.along_nil, Spot.refusing_refusing] at hFits
          · refine hStuck.of_next (fun other hOther => hFinished.reads other hOther) ?_
            rw [List.append_nil]
            exact hFinished.goesOn.mono hFinish
      | cons lexeme back =>
          refine ⟨front ++ lexeme :: back, signs ++ [], by simp, ?_, ?_⟩
          · rwa [Spot.along_append, List.append_nil]
          · have hReads (other : List Lexeme) :=
              hFinished.reads (lexeme :: back ++ other) ((avoids_congr rfl).mp hAvoids)
            exact hStuck.of_next (fun other _ => hReads other) (goesOnWith_nil _ _)

theorem GetsStuck.refuse {inner : Reader α} {sign : Symbol}
    (hSame : ∀ other, Avoids [sign] other → reader other = inner other)
    (hOther : Avoids [sign] lexemes) (hSign : GoesOnWith phrase [sign] [])
    (h : GetsStuck inner phrase (spot.refusing [sign]) lexemes) :
    GetsStuck reader phrase spot lexemes := by
  intro expected rest hError hShallow
  rw [hSame lexemes hOther] at hError
  obtain ⟨front, signs, rfl, hFits, hStuck⟩ := h expected rest hError hShallow
  cases front with
  | nil =>
      -- the symbol is refused with what has been refused behind it
      refine ⟨[], signs ++ [sign], rfl, ?_, ?_, hStuck.expects, ?_, hStuck.begun⟩
      · rwa [Spot.along_nil, Spot.refusing_refusing] at hFits
      · intro other hAvoids hMisses
        obtain ⟨hSigns, hSingle⟩ := avoids_append.mp hAvoids
        rw [List.nil_append, hSame other hSingle]
        exact hStuck.fails other hSigns hMisses
      · exact List.forall_mem_append.mpr ⟨hStuck.goesOn, hSign⟩
  | cons first front =>
      refine ⟨first :: front, signs, rfl, hFits, fun other hAvoids hMisses => ?_,
        hStuck.expects, hStuck.goesOn, hStuck.begun⟩
      have hHead : Avoids [sign] (first :: front ++ other) := (avoids_congr rfl).mp hOther
      rw [hSame _ hHead]
      exact hStuck.fails other hAvoids hMisses

end Outcomes

/-- The reader is finished or stuck on the list, and there are phrases. -/
structure Tells (reader : Reader α) (phrase : List Lexeme → α → Prop)
    (opens : List Token → List Symbol) (spot : Spot) (lexemes : List Lexeme) : Prop where
  finishes : Finishes reader phrase opens spot lexemes
  getsStuck : GetsStuck reader phrase spot lexemes
  inhabited : ∃ lexemes value, phrase lexemes value

namespace Tells

variable {reader : Reader α} {phrase : List Lexeme → α → Prop} {opens : List Token → List Symbol}
  {spot : Spot} {lexemes : List Lexeme}

theorem mono {wider : List Lexeme → α → Prop} (h : Tells reader phrase opens spot lexemes)
    (hPhrase : ∀ part value, phrase part value → wider part value) :
    Tells reader wider opens spot lexemes := by
  obtain ⟨part, value, hPart⟩ := h.inhabited
  exact ⟨h.finishes.mono hPhrase, h.getsStuck.mono fun part value hPart =>
    ⟨[], value, by simpa using hPhrase _ _ hPart⟩, part, value, hPhrase _ _ hPart⟩

/-- Nothing is taken. -/
theorem pure {value : α} (hPhrase : phrase [] value) (hAvoids : Avoids (opens spot.back) lexemes)
    (hGoesOn : GoesOnWith phrase (opens spot.back) []) :
    Tells (Pure.pure value : Reader α) phrase opens spot lexemes where
  finishes := fun found rest hRead => by
    obtain ⟨rfl, rfl⟩ := (pure_eq_ok _ _ _ _).mp hRead
    exact ⟨[], rfl, hAvoids, fun other _ => rfl, hPhrase, hGoesOn⟩
  getsStuck := .of_ok rfl
  inhabited := ⟨[], value, hPhrase⟩

/-- The reader is stuck in front of the list. -/
theorem here {expected : List Expectation}
    (hFails : ∀ other, Misses expected other → reader other = .error ⟨expected, other⟩)
    (hHere : Misses expected lexemes) (hInhabited : ∃ lexemes value, phrase lexemes value)
    (hExpects : ∀ expectation ∈ expected, ∀ lexeme, expectation.Describes lexeme →
      Begins phrase [lexeme])
    (hBegun : expected ≠ statementStart ∧ expected ≠ declarationStart)
    (hFits : spot.Fits expected) : Tells reader phrase opens spot lexemes where
  finishes := fun value rest hRead => by
    rw [hFails lexemes hHere] at hRead
    cases hRead
  getsStuck := .here hFails hHere hExpects hBegun hFits
  inhabited := hInhabited

theorem cons {inner : Reader α} {first : Lexeme} {rest : List Lexeme}
    (hSame : ∀ other, reader (first :: other) = inner other)
    (h : Tells inner (fun part => phrase (first :: part)) opens (spot.past first) rest) :
    Tells reader phrase opens spot (first :: rest) := by
  obtain ⟨part, value, hPart⟩ := h.inhabited
  exact ⟨h.finishes.cons hSame, h.getsStuck.cons hSame, first :: part, value, hPart⟩

/-- A reader of one lexeme that is described by one expectation. -/
theorem one {select : Lexeme → Option α} {expectation : Expectation} (sample : Lexeme)
    (hSelect : ∀ lexeme, (select lexeme).isSome = true ↔ expectation.Describes lexeme)
    (hSample : expectation.Describes sample)
    (hPhrase : ∀ lexeme value, select lexeme = some value → phrase [lexeme] value)
    (hFits : spot.Fits [expectation]) :
    Tells (Grammar.one select [expectation]) phrase (fun _ => []) spot lexemes := by
  have hFails (other : List Lexeme) (hOther : Misses [expectation] other) :
      Grammar.one select [expectation] other = .error ⟨[expectation], other⟩ := by
    cases other with
    | nil => rfl
    | cons first rest =>
        have hNone : select first = none := by
          rw [← Option.not_isSome_iff_eq_none, hSelect]
          exact hOther first rfl expectation (List.mem_singleton_self _)
        simp only [Grammar.one, hNone]
  have hBegins (lexeme : Lexeme) (hLexeme : expectation.Describes lexeme) :
      ∃ value, phrase [lexeme] value := by
    obtain ⟨value, hValue⟩ := Option.isSome_iff_exists.mp ((hSelect lexeme).mpr hLexeme)
    exact ⟨value, hPhrase lexeme value hValue⟩
  obtain ⟨found, hFound⟩ := hBegins sample hSample
  refine ⟨fun value rest hRead => ?_, ?_, [sample], found, hFound⟩
  · obtain ⟨lexeme, rfl, hLexeme⟩ := one_eq_ok hRead
    exact ⟨[lexeme], rfl, avoids_nil _, fun other _ => one_cons hLexeme other,
      hPhrase _ _ hLexeme, goesOnWith_nil _ _⟩
  · cases hRead : Grammar.one select [expectation] lexemes with
    | ok found => exact .of_ok hRead
    | error mismatch =>
        refine .here hFails ?_ ?_ (by simp [statementStart, declarationStart]) hFits
        · rintro lexeme hLexeme
          obtain ⟨rest, rfl⟩ := List.head?_eq_some_iff.mp (Option.mem_def.mp hLexeme)
          rw [List.forall_mem_singleton, ← hSelect]
          intro hSome
          obtain ⟨value, hValue⟩ := Option.isSome_iff_exists.mp hSome
          rw [one_cons hValue] at hRead
          cases hRead
        · rw [List.forall_mem_singleton]
          intro lexeme hLexeme
          obtain ⟨value, hValue⟩ := hBegins lexeme hLexeme
          exact ⟨[], value, hValue⟩

/-- **Sequence.**  Readers one after the other. -/
theorem bind {next : α → Reader β} {whole : List Lexeme → β → Prop}
    {onward : List Token → List Symbol} (h : Tells reader phrase opens spot lexemes)
    (hFinish : ∀ part value, phrase part value → ∃ more result, whole (part ++ more) result)
    (hNext : ∀ front value rest, lexemes = front ++ rest →
      Avoids (opens (spot.along front).back) rest →
        Finished reader phrase (opens (spot.along front).back) front value →
          Tells (next value) (fun part => whole (front ++ part)) onward
            ((spot.along front).refusing (opens (spot.along front).back)) rest)
    (hOpens : (∀ value, Shortens (next value)) ∨ ∀ back, ∀ sign ∈ opens back, sign ∈ onward back) :
    Tells (reader >>= next) whole onward spot lexemes where
  finishes := h.finishes.bind (fun front value rest hSplit hAvoids hFinished =>
    (hNext front value rest hSplit hAvoids hFinished).finishes) hOpens
  getsStuck := h.getsStuck.bind h.finishes hFinish fun front value rest hSplit hAvoids hFinished =>
    (hNext front value rest hSplit hAvoids hFinished).getsStuck
  inhabited := by
    obtain ⟨part, value, hPart⟩ := h.inhabited
    obtain ⟨more, result, hMore⟩ := hFinish part value hPart
    exact ⟨_, result, hMore⟩

/-- Nothing is taken, and nothing could go on. -/
theorem done {value : α} (hPhrase : phrase [] value) (hOpens : opens spot.back = []) :
    Tells (Pure.pure value : Reader α) phrase opens spot lexemes :=
  .pure hPhrase (by rw [hOpens]; exact avoids_nil _) (by rw [hOpens]; exact goesOnWith_nil _ _)

/-- Readers one after the other, if the second one is known behind every phrase of the first. -/
theorem andThen {next : α → Reader β} {whole : List Lexeme → β → Prop}
    {onward : List Token → List Symbol} (h : Tells reader phrase opens spot lexemes)
    (hOpens : (∀ value, Shortens (next value)) ∨ ∀ back, ∀ sign ∈ opens back, sign ∈ onward back)
    (hNext : ∀ front value rest, phrase front value →
      Tells (next value) (fun part => whole (front ++ part)) onward
        ((spot.along front).refusing (opens (spot.along front).back)) rest) :
    Tells (reader >>= next) whole onward spot lexemes :=
  h.bind (fun part value hPart => (hNext part value [] hPart).inhabited)
    (fun front value rest _ _ hFinished => hNext front value rest hFinished.taken) hOpens

/-- The same behind a phrase that nothing goes on. -/
theorem followed {next : α → Reader β} {whole : List Lexeme → β → Prop}
    {onward : List Token → List Symbol} (h : Tells reader phrase (fun _ => []) spot lexemes)
    (hNext : ∀ front value rest, phrase front value →
      Tells (next value) (fun part => whole (front ++ part)) onward (spot.along front) rest) :
    Tells (reader >>= next) whole onward spot lexemes :=
  h.andThen (.inr fun _ _ hSign => absurd hSign List.not_mem_nil) hNext

theorem map {f : α → β} {whole : List Lexeme → β → Prop}
    (h : Tells reader phrase opens spot lexemes)
    (hPhrase : ∀ part value, phrase part value → whole part (f value)) :
    Tells (reader >>= fun value => Pure.pure (f value)) whole opens spot lexemes := by
  have hFinish (part : List Lexeme) (value : α) (hPart : phrase part value) :
      ∃ more result, whole (part ++ more) result :=
    ⟨[], f value, by simpa using hPhrase part value hPart⟩
  refine h.bind hFinish (fun front value rest _ hAvoids hFinished => ?_)
    (.inr fun _ _ hSign => hSign)
  exact .pure (by simpa using hPhrase front value hFinished.taken) hAvoids
    (hFinished.goesOn.behind hFinish)

/-- A symbol is looked for: if it is there, it is taken, and if not, it has been refused. -/
theorem ifNext {sign : Symbol} {present absent : Reader α}
    (hPresent : ∀ first rest, lexemes = first :: rest → first.token = .symbol sign →
      Tells present (fun part => phrase (first :: part)) opens (spot.past first) rest)
    (hAbsent : Avoids [sign] lexemes → Tells absent phrase opens (spot.refusing [sign]) lexemes)
    (hSign : GoesOnWith phrase [sign] []) (hOpens : sign ∈ opens spot.back ∨ Shortens absent) :
    Tells (Grammar.ifNext sign present absent) phrase opens spot lexemes := by
  cases hAccept : accept? sign lexemes with
  | some rest =>
      obtain ⟨first, rfl, hFirst⟩ := accept?_eq_some hAccept
      exact (hPresent first rest rfl hFirst).cons fun other => by
        simp only [Grammar.ifNext, accept?_cons hFirst]
  | none =>
      have hOther : Avoids [sign] lexemes := avoids_of_accept? hAccept
      have hSame (other : List Lexeme) (h : Avoids [sign] other) :
          Grammar.ifNext sign present absent other = absent other := by
        simp only [Grammar.ifNext, h.accept?]
      have hTells := hAbsent hOther
      exact ⟨.refuse hSame hOther hOpens hTells.finishes,
        .refuse hSame hOther hSign hTells.getsStuck, hTells.inhabited⟩

end Tells

/-! ### One lexeme -/

section Lexemes

variable {spot : Spot}

theorem kind_eq_symbol {token : Token} {sign : Symbol} :
    token.kind = .symbol sign ↔ token = .symbol sign := by
  cases token <;> simp [Token.kind]

theorem symbol_tells {sign : Symbol} (hFits : spot.Fits [.token (.symbol sign)])
    (lexemes : List Lexeme) : Tells (symbol sign) (IsSymbol sign) (fun _ => []) spot lexemes := by
  refine .one (Token.lexeme (.symbol sign)) (fun lexeme => ?_) rfl (fun lexeme _ hSelect => ?_)
    hFits
  · rw [Expectation.Describes, kind_eq_symbol]
    split <;> simp_all
  · split at hSelect <;> cases hSelect
    exact .mk (by assumption)

theorem identifier_tells (hFits : spot.Fits [.token .identifier]) (lexemes : List Lexeme) :
    Tells identifier IsPlacedName (fun _ => []) spot lexemes := by
  refine .one (Token.lexeme (.identifier "q")) (fun lexeme => ?_) rfl (fun lexeme _ hSelect => ?_)
    hFits
  · cases hToken : lexeme.token <;> simp [Expectation.Describes, Token.kind, hToken]
  · split at hSelect <;> cases hSelect
    exact .mk (by assumption)

theorem integer_tells (hFits : spot.Fits [.token .integer]) (lexemes : List Lexeme) :
    Tells integer IsInteger (fun _ => []) spot lexemes := by
  refine .one (Token.lexeme (.integer 1)) (fun lexeme => ?_) rfl (fun lexeme _ hSelect => ?_) hFits
  · cases hToken : lexeme.token <;> simp [Expectation.Describes, Token.kind, hToken]
  · split at hSelect <;> cases hSelect
    exact .mk (by assumption)

theorem string_tells (hFits : spot.Fits [.token .string]) (lexemes : List Lexeme) :
    Tells string IsString (fun _ => []) spot lexemes := by
  refine .one (Token.lexeme (.string "")) (fun lexeme => ?_) rfl (fun lexeme _ hSelect => ?_) hFits
  · cases hToken : lexeme.token <;> simp [Expectation.Describes, Token.kind, hToken]
  · split at hSelect <;> cases hSelect
    exact .mk (by assumption)

theorem versionNumber_tells (hFits : spot.Fits [.versionNumber]) (lexemes : List Lexeme) :
    Tells versionNumber IsVersionNumber (fun _ => []) spot lexemes := by
  have hTwo : IsVersion (Token.lexeme (.integer 2)) 2 0 :=
    ⟨Or.inl rfl, versionOf?_eq_some.mp (by decide)⟩
  have hVersion {lexeme : Lexeme} {found : UInt32 × UInt32} {rest : List Lexeme}
      (h : versionNumber [lexeme] = .ok (found, rest)) : IsVersion lexeme found.1 found.2 := by
    obtain ⟨other, hSame, hVersion⟩ := versionNumber_eq_ok h
    cases hSame
    exact hVersion
  refine .one (Token.lexeme (.integer 2)) (fun lexeme => ⟨fun hSome => ?_, ?_⟩) ⟨2, 0, hTwo⟩
    (fun lexeme found hSelect => .mk (hVersion (one_cons hSelect []))) hFits
  · obtain ⟨found, hFound⟩ := Option.isSome_iff_exists.mp hSome
    exact ⟨_, _, hVersion (one_cons hFound [])⟩
  · rintro ⟨major, minor, hLexeme⟩
    obtain ⟨other, hSame, hSelect⟩ := one_eq_ok (versionNumber_cons hLexeme [])
    cases hSame
    exact Option.isSome_iff_exists.mpr ⟨_, hSelect⟩

variable {reader : Reader α} {phrase : List Lexeme → α → Prop} {opens : List Token → List Symbol}
  {whole : List Lexeme → β → Prop} {onward : List Token → List Symbol} {lexemes : List Lexeme}

/-- A phrase that begins with a symbol. -/
theorem symbol_then {sign : Symbol} {next : Unit → Reader β}
    (hFits : spot.Fits [.token (.symbol sign)])
    (hNext : ∀ lexeme rest, lexeme.token = .symbol sign →
      Tells (next ()) (fun part => whole (lexeme :: part)) onward
        ⟨joined spot.back (.symbol sign), []⟩ rest) :
    Tells (symbol sign >>= next) whole onward spot lexemes := by
  refine (symbol_tells hFits lexemes).followed fun front value rest hPart => ?_
  obtain ⟨hToken⟩ := hPart
  rw [Spot.along_cons, Spot.along_nil, spot.past_eq hToken]
  exact hNext _ rest hToken

theorem identifier_then {next : String × Position → Reader β}
    (hFits : spot.Fits [.token .identifier])
    (hNext : ∀ lexeme name rest, lexeme.token = .identifier name →
      Tells (next (name, lexeme.position)) (fun part => whole (lexeme :: part)) onward
        ⟨joined spot.back (.identifier name), []⟩ rest) :
    Tells (identifier >>= next) whole onward spot lexemes := by
  refine (identifier_tells hFits lexemes).followed fun front value rest hPart => ?_
  obtain ⟨hToken⟩ := hPart
  rw [Spot.along_cons, Spot.along_nil, spot.past_eq hToken]
  exact hNext _ _ rest hToken

theorem integer_then {next : UInt64 → Reader β} (hFits : spot.Fits [.token .integer])
    (hNext : ∀ lexeme value rest, lexeme.token = .integer value →
      Tells (next value) (fun part => whole (lexeme :: part)) onward
        ⟨joined spot.back (.integer value), []⟩ rest) :
    Tells (integer >>= next) whole onward spot lexemes := by
  refine (integer_tells hFits lexemes).followed fun front value rest hPart => ?_
  obtain ⟨hToken⟩ := hPart
  rw [Spot.along_cons, Spot.along_nil, spot.past_eq hToken]
  exact hNext _ _ rest hToken

theorem string_then {next : String → Reader β} (hFits : spot.Fits [.token .string])
    (hNext : ∀ lexeme content rest, lexeme.token = .string content →
      Tells (next content) (fun part => whole (lexeme :: part)) onward
        ⟨joined spot.back (.string content), []⟩ rest) :
    Tells (string >>= next) whole onward spot lexemes := by
  refine (string_tells hFits lexemes).followed fun front value rest hPart => ?_
  obtain ⟨hToken⟩ := hPart
  rw [Spot.along_cons, Spot.along_nil, spot.past_eq hToken]
  exact hNext _ _ rest hToken

/-- A phrase that ends with a symbol. -/
theorem then_symbol {sign : Symbol} {f : α → β} (h : Tells reader phrase opens spot lexemes)
    (hFits : ∀ front value, phrase front value →
      ((spot.along front).refusing (opens (spot.along front).back)).Fits [.token (.symbol sign)])
    (hWhole : ∀ front value final, phrase front value → final.token = .symbol sign →
      whole (front ++ [final]) (f value))
    (hOnward : ∀ back, onward (joined back (.symbol sign)) = []) :
    Tells (do
      let value ← reader
      symbol sign
      return f value) whole onward spot lexemes :=
  h.andThen (.inl fun _ => (symbol_shortens _).bind fun _ => pure_neverGrows _)
    fun front value _ hPart => symbol_then (hFits front value hPart)
      fun final _ hFinal => .done (hWhole front value final hPart hFinal) (hOnward _)

end Lexemes

/-! ### Lists -/

/-- Items with commas between them: behind an item a comma is looked for, after the symbols that
would have gone on the item. -/
theorem separated_tells {item : Reader α} (progress : Shortens item)
    {phrase : List Lexeme → α → Prop} {opens : List Token → List Symbol} {Ready : Spot → Prop}
    (hItem : ∀ spot lexemes, Ready spot → Tells item phrase opens spot lexemes)
    (hReady : ∀ spot front value comma, Ready spot → phrase front value →
      comma.token = .symbol .comma → Ready ((spot.along front).past comma))
    {spot : Spot} (hSpot : Ready spot) (lexemes : List Lexeme) :
    Tells (separated item progress) (Listed phrase) (fun back => .comma :: opens back) spot
      lexemes := by
  have hFirst := hItem spot lexemes hSpot
  obtain ⟨sample, found, hSample⟩ := hFirst.inhabited
  have hFinish (part : List Lexeme) (value : α) (hPart : phrase part value) :
      ∃ more result, Listed phrase (part ++ more) result :=
    ⟨[], [value], by simpa using Listed.one hPart⟩
  rw [separated_eq]
  refine hFirst.bind hFinish (fun front value rest hSplit hAvoids hFinished => ?_)
    (.inr fun _ _ hSign => List.mem_cons_of_mem _ hSign)
  have hComma : GoesOnWith (fun part => Listed phrase (front ++ part)) [.comma] [] := by
    refine List.forall_mem_singleton.mpr fun comma hComma => ?_
    exact ⟨sample, [value, found], .more hFinished.taken hComma (.one hSample)⟩
  refine .ifNext (fun comma behind hRest hToken => ?_) (fun hOther => ?_) hComma
    (.inl (List.mem_cons_self ..))
  · have hShorter : behind.length < lexemes.length := by
      rw [hSplit, hRest]
      simp
      omega
    have hMore := separated_tells progress hItem hReady
      (hReady spot front value comma hSpot hFinished.taken hToken) behind
    exact hMore.map fun part values hPart => .more hFinished.taken hToken hPart
  · refine .pure (by simpa using Listed.one hFinished.taken) ?_ ?_
    · exact avoids_cons.mpr ⟨hOther, hAvoids⟩
    · exact List.forall_mem_cons.mpr
        ⟨List.forall_mem_singleton.mp hComma, hFinished.goesOn.behind hFinish⟩
termination_by lexemes.length

end Grammar
end QuantumCircuit
