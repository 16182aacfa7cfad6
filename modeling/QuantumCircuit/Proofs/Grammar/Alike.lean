import QuantumCircuit.Parsing
import QuantumCircuit.Proofs.Grammar.Lookahead
import QuantumCircuit.Proofs.Program.Alike
import QuantumCircuit.Proofs.Token.Scan

/-!
# Readers do not look at places

Lexemes with the same tokens and the same characters are read in the same way, wherever they stand.
If the places of two lists of lexemes are related, then so are the places in what is read from
them, and the places at which reading fails.

* `Agrees` : two readers do the same on lexemes that are alike.
* `statements_agrees` : every reader of the grammar agrees with itself.
* `Program.ofLexemes_alike` : the same for whole programs.
-/

namespace QuantumCircuit

variable (Related : Position → Position → Prop)

/-- Lexemes of one mark at related places. -/
structure Lexeme.AlikeAt (first second : Lexeme) : Prop where
  mark : first.mark = second.mark
  position : Related first.position second.position

variable {Related}

theorem Lexeme.AlikeAt.token_eq {first second : Lexeme} (h : first.AlikeAt Related second) :
    first.token = second.token :=
  congrArg Mark.token h.mark

theorem Lexeme.AlikeAt.text_eq {first second : Lexeme} (h : first.AlikeAt Related second) :
    first.text = second.text :=
  congrArg Mark.text h.mark

theorem Lexeme.AlikeAt.isEnd_eq {first second : Lexeme} (h : first.AlikeAt Related second) :
    first.isEnd = second.isEnd := by
  rw [Lexeme.isEnd, Lexeme.isEnd, h.token_eq]

theorem Lexeme.AlikeAt.found_eq {first second : Lexeme} (h : first.AlikeAt Related second) :
    first.found = second.found := by
  rw [Lexeme.found, Lexeme.found, h.isEnd_eq, h.text_eq]

namespace Grammar

variable {α β : Type} {Values : α → α → Prop} {Results : β → β → Prop}
  {lexemes others : List Lexeme}

variable (Related) in
/-- Lists of lexemes that are alike one by one. -/
abbrev AlikeLists : List Lexeme → List Lexeme → Prop := List.Forall₂ (Lexeme.AlikeAt Related)

variable (Related) in
/-- Mismatches of the same expectation in front of lists that are alike. -/
structure Mismatch.AlikeAt (first second : Mismatch) : Prop where
  expected : first.expected = second.expected
  rest : AlikeLists Related first.rest second.rest

variable (Related) in
/-- Outcomes of reading that differ in places only. -/
abbrev AlikeOutcomes (Values : α → α → Prop) :
    Except Mismatch (α × List Lexeme) → Except Mismatch (α × List Lexeme) → Prop :=
  Agreement (Mismatch.AlikeAt Related) fun first second =>
    Values first.1 second.1 ∧ AlikeLists Related first.2 second.2

variable (Related) in
/-- On lexemes that are alike the readers do the same. -/
def Agrees (Values : α → α → Prop) (first second : Reader α) : Prop :=
  ∀ lexemes others, AlikeLists Related lexemes others →
    AlikeOutcomes Related Values (first lexemes) (second others)

/-! ### Steps -/

theorem bind_alike {first second : Reader α} {next onward : α → Reader β}
    (h : AlikeOutcomes Related Values (first lexemes) (second others))
    (hNext : ∀ value rest other behind, first lexemes = .ok (value, rest) → Values value other →
      AlikeLists Related rest behind →
      AlikeOutcomes Related Results (next value rest) (onward other behind)) :
    AlikeOutcomes Related Results ((first >>= next) lexemes) ((second >>= onward) others) :=
  Agreement.bind h fun found other hFirst hFound =>
    hNext found.1 found.2 other.1 other.2 hFirst hFound.1 hFound.2

theorem Agrees.bind {first second : Reader α} {next onward : α → Reader β}
    (h : Agrees Related Values first second)
    (hNext : ∀ value other, Values value other →
      Agrees Related Results (next value) (onward other)) :
    Agrees Related Results (first >>= next) (second >>= onward) :=
  fun lexemes others hAlike => bind_alike (h lexemes others hAlike)
    fun _ _ _ _ _ hValue hRest => hNext _ _ hValue _ _ hRest

theorem pure_agrees {value other : α} (h : Values value other) :
    Agrees Related Values (pure value) (pure other) :=
  fun _ _ hAlike => .ok ⟨h, hAlike⟩

theorem expecting_agrees (expected : List Expectation) :
    Agrees Related Values (expecting expected) (expecting expected) :=
  fun _ _ hAlike => .error ⟨rfl, hAlike⟩

theorem one_agrees {select : Lexeme → Option α} {expected : List Expectation}
    (hSelect : ∀ first second : Lexeme, first.AlikeAt Related second →
      Option.Rel Values (select first) (select second)) :
    Agrees Related Values (one select expected) (one select expected) := by
  intro lexemes others hAlike
  cases hAlike with
  | nil => exact .error ⟨rfl, .nil⟩
  | @cons first second rest behind hFirst hRest =>
      have hFound := hSelect first second hFirst
      simp only [one]
      cases hLeft : select first with
      | none =>
          rw [hLeft] at hFound
          cases hRight : select second with
          | none => exact .error ⟨rfl, .cons hFirst hRest⟩
          | some other =>
              rw [hRight] at hFound
              cases hFound
      | some value =>
          rw [hLeft] at hFound
          cases hRight : select second with
          | none =>
              rw [hRight] at hFound
              cases hFound
          | some other =>
              rw [hRight] at hFound
              cases hFound with
              | some hValue => exact .ok ⟨hValue, hRest⟩

/-- What is chosen by its mark is the same. -/
theorem one_agrees_eq {select : Lexeme → Option α} {expected : List Expectation}
    (hSelect : ∀ first second : Lexeme, first.mark = second.mark → select first = select second) :
    Agrees Related Eq (one select expected) (one select expected) := by
  refine one_agrees fun first second hAlike => ?_
  rw [hSelect first second hAlike.mark]
  cases select second with
  | none => exact .none
  | some value => exact .some rfl

theorem symbol_agrees (sign : Symbol) : Agrees Related Eq (symbol sign) (symbol sign) := by
  refine one_agrees_eq fun first second hMark => ?_
  rw [show first.token = second.token from congrArg Mark.token hMark]

theorem integer_agrees : Agrees Related Eq integer integer := by
  refine one_agrees_eq fun first second hMark => ?_
  rw [show first.token = second.token from congrArg Mark.token hMark]

theorem string_agrees : Agrees Related Eq string string := by
  refine one_agrees_eq fun first second hMark => ?_
  rw [show first.token = second.token from congrArg Mark.token hMark]

theorem versionNumber_agrees : Agrees Related Eq versionNumber versionNumber := by
  refine one_agrees_eq fun first second hMark => ?_
  rw [show first.token = second.token from congrArg Mark.token hMark,
    show first.text = second.text from congrArg Mark.text hMark]

theorem keyword_agrees (word : Keyword) :
    Agrees Related Related (keyword word) (keyword word) := by
  refine one_agrees fun first second hAlike => ?_
  rw [hAlike.token_eq]
  split
  · exact .some hAlike.position
  · exact .none

variable (Related) in
/-- One name at related places. -/
def SameName (first second : String × Position) : Prop :=
  first.1 = second.1 ∧ Related first.2 second.2

theorem identifier_agrees : Agrees Related (SameName Related) identifier identifier := by
  refine one_agrees fun first second hAlike => ?_
  rw [hAlike.token_eq]
  split
  · exact .some ⟨rfl, hAlike.position⟩
  · exact .none

/-- Behind a name that is the same on both sides, reading goes on in the same way. -/
theorem identifier_bind_agrees {next onward : String × Position → Reader β}
    (hNext : ∀ name place other, Related place other →
      Agrees Related Results (next (name, place)) (onward (name, other))) :
    Agrees Related Results (identifier >>= next) (identifier >>= onward) := by
  refine identifier_agrees.bind fun found other hName => ?_
  obtain ⟨name, place⟩ := found
  obtain ⟨_, place'⟩ := other
  obtain ⟨rfl, hPlace⟩ := hName
  exact hNext name place place' hPlace

theorem endedBy_agrees (sign : Symbol) {first second : Reader α}
    (h : Agrees Related Values first second) :
    Agrees Related Values (endedBy sign first) (endedBy sign second) :=
  h.bind fun _ _ hValue => (symbol_agrees sign).bind fun _ _ _ => pure_agrees hValue

/-- Lists that are alike begin with a symbol or do not, and go on alike behind it. -/
theorem accept?_alike (sign : Symbol) (h : AlikeLists Related lexemes others) :
    (accept? sign lexemes = none ∧ accept? sign others = none) ∨
      ∃ rest behind, accept? sign lexemes = some rest ∧ accept? sign others = some behind ∧
        AlikeLists Related rest behind := by
  cases h with
  | nil => exact Or.inl ⟨rfl, rfl⟩
  | @cons first second rest behind hFirst hRest =>
      by_cases hToken : second.token = .symbol sign
      · have hFirstToken := hFirst.token_eq.trans hToken
        exact Or.inr
          ⟨rest, behind, accept?_cons hFirstToken rest, accept?_cons hToken behind, hRest⟩
      · have hFirstToken : first.token ≠ .symbol sign := by rwa [hFirst.token_eq]
        exact Or.inl ⟨accept?_other hFirstToken rest, accept?_other hToken behind⟩

theorem ifNext_alike (sign : Symbol) {present absent other without : Reader α}
    (h : AlikeLists Related lexemes others)
    (hPresent : ∀ rest behind, accept? sign lexemes = some rest → AlikeLists Related rest behind →
      AlikeOutcomes Related Values (present rest) (other behind))
    (hAbsent : AlikeOutcomes Related Values (absent lexemes) (without others)) :
    AlikeOutcomes Related Values (ifNext sign present absent lexemes)
      (ifNext sign other without others) := by
  rcases accept?_alike sign h with ⟨hLeft, hRight⟩ | ⟨rest, behind, hLeft, hRight, hRest⟩
  · simp only [ifNext, hLeft, hRight]
    exact hAbsent
  · simp only [ifNext, hLeft, hRight]
    exact hPresent rest behind hLeft hRest

theorem ifNext_agrees (sign : Symbol) {present absent other without : Reader α}
    (hPresent : Agrees Related Values present other)
    (hAbsent : Agrees Related Values absent without) :
    Agrees Related Values (ifNext sign present absent) (ifNext sign other without) :=
  fun lexemes others h => ifNext_alike sign h (fun rest behind _ => hPresent rest behind)
    (hAbsent lexemes others h)

theorem ifAhead_agrees (sign : Symbol) {present absent other without : Reader α}
    (hPresent : Agrees Related Values present other)
    (hAbsent : Agrees Related Values absent without) :
    Agrees Related Values (ifAhead sign present absent) (ifAhead sign other without) := by
  intro lexemes others h
  rcases accept?_alike sign h with ⟨hLeft, hRight⟩ | ⟨rest, behind, hLeft, hRight, -⟩
  · simp only [ifAhead, hLeft, hRight]
    exact hAbsent lexemes others h
  · simp only [ifAhead, hLeft, hRight]
    exact hPresent lexemes others h

/-! ### Lists of phrases -/

theorem separated_alike {item : Reader α} (progress : Shortens item)
    (hItem : Agrees Related Values item item) (lexemes others : List Lexeme)
    (h : AlikeLists Related lexemes others) :
    AlikeOutcomes Related (List.Forall₂ Values) (separated item progress lexemes)
      (separated item progress others) := by
  rw [separated_eq]
  refine bind_alike (hItem lexemes others h) fun value rest other behind hRead hValue hRest => ?_
  refine ifNext_alike .comma hRest (fun after more hComma hMore => ?_)
    (pure_agrees (.cons hValue .nil) rest behind hRest)
  have hShorter := Nat.lt_trans (accept?_length hComma) (progress _ _ _ hRead)
  refine bind_alike (separated_alike progress hItem after more hMore) ?_
  intro values final _ last _ hValues hFinal
  exact pure_agrees (.cons hValue hValues) final last hFinal
termination_by lexemes.length

theorem repeated_alike {item : Reader α} (progress : Shortens item) {done : List Lexeme → Bool}
    (hItem : Agrees Related Values item item)
    (hDone : ∀ first second, AlikeLists Related first second → done first = done second)
    (lexemes others : List Lexeme) (h : AlikeLists Related lexemes others) :
    AlikeOutcomes Related (List.Forall₂ Values) (repeated item progress done lexemes)
      (repeated item progress done others) := by
  have hSame := hDone lexemes others h
  cases hLeft : done lexemes with
  | true =>
      rw [repeated_done progress hLeft, repeated_done progress (hSame ▸ hLeft)]
      exact .ok ⟨.nil, h⟩
  | false =>
      rw [repeated_eq progress hLeft, repeated_eq progress (hSame ▸ hLeft)]
      refine bind_alike (hItem lexemes others h)
        fun value rest other behind hRead hValue hRest => ?_
      have hShorter := progress _ _ _ hRead
      refine bind_alike (repeated_alike progress hItem hDone rest behind hRest) ?_
      intro values final _ last _ hValues hFinal
      exact pure_agrees (.cons hValue hValues) final last hFinal
termination_by lexemes.length

/-! ### Expressions -/

theorem bounded_agrees (e : Expr) : Agrees Related Eq (bounded e) (bounded e) := by
  intro lexemes others h
  by_cases hHeight : nestingLimit < e.height
  · rw [bounded_of_lt hHeight, bounded_of_lt hHeight]
    exact .error ⟨rfl, h⟩
  · rw [bounded_of_le (by omega), bounded_of_le (by omega)]
    exact .ok ⟨rfl, h⟩

theorem minusSigns_agrees (seen : Nat) :
    Agrees Related Eq (minusSigns seen) (minusSigns seen) := by
  intro lexemes others h
  induction h generalizing seen with
  | nil => exact .ok ⟨rfl, .nil⟩
  | cons hFirst hRest ih =>
      simp only [minusSigns, hFirst.token_eq]
      split
      · split
        · exact .error ⟨rfl, .cons hFirst hRest⟩
        · exact ih (seen + 1)
      · exact .ok ⟨rfl, .cons hFirst hRest⟩

/-- A value that is the same on both sides goes on in the same way. -/
theorem Agrees.bind_eq {first second : Reader α} {next onward : α → Reader β}
    (h : Agrees Related Eq first second)
    (hNext : ∀ value, Agrees Related Results (next value) (onward value)) :
    Agrees Related Results (first >>= next) (second >>= onward) :=
  h.bind fun value _ hSame => hSame ▸ hNext value

theorem callOf_agrees {inner : Reader Expr} (hInner : Agrees Related Eq inner inner)
    (f : MathFunction) : Agrees Related Eq (callOf inner f) (callOf inner f) :=
  (symbol_agrees _).bind_eq fun _ => (endedBy_agrees _ hInner).bind_eq fun _ => bounded_agrees _

theorem primary_agrees {inner : Reader Expr} (hInner : Agrees Related Eq inner inner) :
    Agrees Related Eq (primary inner) (primary inner) := by
  intro lexemes others h
  cases h with
  | nil => exact .error ⟨rfl, .nil⟩
  | cons hFirst hRest =>
      simp only [primary, hFirst.token_eq]
      split
      · exact .ok ⟨rfl, hRest⟩
      · exact callOf_agrees hInner _ _ _ hRest
      · exact endedBy_agrees _ hInner _ _ hRest
      · exact .error ⟨rfl, .cons hFirst hRest⟩

theorem unary_agrees {inner : Reader Expr} (hInner : Agrees Related Eq inner inner) :
    Agrees Related Eq (unary inner) (unary inner) :=
  (minusSigns_agrees 0).bind_eq fun _ => (primary_agrees hInner).bind_eq fun _ => bounded_agrees _

theorem frontOperator?_alike (h : AlikeLists Related lexemes others) :
    (frontOperator? lexemes = none ∧ frontOperator? others = none) ∨
      ∃ operator rest behind, frontOperator? lexemes = some (operator, rest) ∧
        frontOperator? others = some (operator, behind) ∧ AlikeLists Related rest behind := by
  cases hLeft : frontOperator? lexemes with
  | none =>
      refine Or.inl ⟨rfl, ?_⟩
      cases h with
      | nil => rfl
      | cons hFirst hRest =>
          simp only [frontOperator?, hFirst.token_eq] at hLeft ⊢
          split
          · rename_i sign hToken
            rw [hToken] at hLeft
            simpa using hLeft
          · rfl
  | some found =>
      obtain ⟨operator, rest⟩ := found
      obtain ⟨sign, symbol, rfl, hSign, hOperator⟩ := frontOperator?_eq_some hLeft
      cases h with
      | @cons _ other _ behind hFirst hRest =>
          have hOther := hFirst.token_eq.symm.trans hSign
          exact Or.inr ⟨operator, rest, behind, rfl,
            frontOperator?_cons hOther hOperator behind, hRest⟩

theorem climb_agrees {operand : Nat → Reader Expr}
    (hOperand : ∀ lowest, Agrees Related Eq (operand lowest) (operand lowest)) (lowest : Nat)
    (left : Expr) : Agrees Related Eq (climb operand lowest left) (climb operand lowest left) := by
  intro lexemes others h
  -- the recursion is on how far the left operand may still grow
  rcases frontOperator?_alike h with
    ⟨hLeft, hRight⟩ | ⟨operator, rest, behind, hLeft, hRight, hRest⟩
  · rw [climb_stops (fun _ _ hFound => by rw [hLeft] at hFound; cases hFound),
      climb_stops (fun _ _ hFound => by rw [hRight] at hFound; cases hFound)]
    exact .ok ⟨rfl, h⟩
  · by_cases hLoose : operator.precedence < lowest
    · rw [climb_stops (fun _ _ hFound => by rw [hLeft] at hFound; cases hFound; exact hLoose),
        climb_stops (fun _ _ hFound => by rw [hRight] at hFound; cases hFound; exact hLoose)]
      exact .ok ⟨rfl, h⟩
    · rw [climb_eq hLeft (Nat.le_of_not_lt hLoose), climb_eq hRight (Nat.le_of_not_lt hLoose)]
      refine bind_alike (hOperand _ rest behind hRest) ?_
      rintro right after _ more - rfl hAfter
      refine bind_alike (bounded_agrees _ after more hAfter) ?_
      rintro e final _ last hBounded rfl hFinal
      obtain ⟨-, rfl, -⟩ := bounded_eq_ok.mp hBounded
      have hHeight := (bounded_eq_ok.mp hBounded).1
      have hHigher := Expr.height_left_lt operator left right
      exact climb_agrees hOperand lowest _ final last hFinal
termination_by nestingLimit - left.height

theorem expressionWithin_agrees (levels lowest : Nat) :
    Agrees Related Eq (expressionWithin levels lowest) (expressionWithin levels lowest) := by
  induction levels generalizing lowest with
  | zero => exact expecting_agrees _
  | succ levels ih => exact (unary_agrees (ih 0)).bind_eq fun left => climb_agrees ih lowest left

theorem expression_agrees : Agrees Related Eq expression expression := expressionWithin_agrees _ _

/-! ### Statements -/

theorem reference_agrees : Agrees Related (RegisterRef.AlikeAt Related) reference reference := by
  refine identifier_bind_agrees fun name place other hPlace => ?_
  refine ifNext_agrees _ ?_ (pure_agrees ⟨rfl, rfl, hPlace⟩)
  exact integer_agrees.bind_eq fun index => (symbol_agrees _).bind_eq fun _ =>
    pure_agrees ⟨rfl, rfl, hPlace⟩

theorem references_agrees :
    Agrees Related (List.Forall₂ (RegisterRef.AlikeAt Related)) references references :=
  separated_alike _ reference_agrees

theorem names_agrees : Agrees Related Eq names names := by
  refine Agrees.bind (separated_alike _ identifier_agrees) fun found other hNames => ?_
  refine pure_agrees ?_
  induction hNames with
  | nil => rfl
  | cons hName _ ih => rw [List.map_cons, List.map_cons, hName.1, ih]

theorem inParentheses_agrees {list : Reader (List α)} (hList : Agrees Related Eq list list) :
    Agrees Related Eq (inParentheses (optional list)) (inParentheses (optional list)) :=
  ifNext_agrees _ (endedBy_agrees _ (ifAhead_agrees _ (pure_agrees rfl) hList)) (pure_agrees rfl)

theorem header_agrees : Agrees Related Eq header header :=
  identifier_bind_agrees fun _ _ _ _ => (inParentheses_agrees names_agrees).bind_eq fun _ =>
    names_agrees.bind_eq fun _ => pure_agrees rfl

/-- Expressions have no places. -/
theorem parameters_agrees :
    Agrees Related Eq (separated expression expression_shortens)
      (separated expression expression_shortens) := by
  intro lexemes others h
  have hAlike := separated_alike expression_shortens expression_agrees lexemes others h
  rwa [List.forall₂_eq_eq_eq] at hAlike

theorem gateCall_agrees : Agrees Related (GateCall.AlikeAt Related) gateCall gateCall :=
  identifier_bind_agrees fun _ _ _ hPlace =>
    (inParentheses_agrees parameters_agrees).bind_eq fun _ =>
      references_agrees.bind fun _ _ hQubits => pure_agrees ⟨rfl, rfl, hQubits, hPlace⟩

theorem bodyCall_agrees : Agrees Related (GateCall.AlikeAt Related) bodyCall bodyCall := by
  intro lexemes others h
  have hBegins : beginsWithIdentifier lexemes = beginsWithIdentifier others := by
    cases h with
    | nil => rfl
    | cons hFirst hRest => simp only [beginsWithIdentifier, hFirst.token_eq]
  rw [bodyCall, bodyCall, hBegins]
  split
  · exact endedBy_agrees .semicolon gateCall_agrees lexemes others h
  · exact expecting_agrees bodyContinuation lexemes others h

theorem body_agrees : Agrees Related (List.Forall₂ (GateCall.AlikeAt Related)) body body := by
  refine repeated_alike _ bodyCall_agrees fun first second h => ?_
  rcases accept?_alike .rightBrace h with ⟨hLeft, hRight⟩ | ⟨rest, behind, hLeft, hRight, -⟩
  · rw [beginsWith, beginsWith, hLeft, hRight]
  · rw [beginsWith, beginsWith, hLeft, hRight]
    rfl

theorem statementFor?_agrees {mode : Mode} {token : Token} {reader : Reader Statement}
    (h : statementFor? mode token = some reader) :
    Agrees Related (Statement.AlikeAt Related) reader reader := by
  have hRegister (kind : RegisterKind) (word : Keyword) :
      Agrees Related (Statement.AlikeAt Related) (registerOf kind word) (registerOf kind word) :=
    (keyword_agrees _).bind fun _ _ hPlace => identifier_bind_agrees fun name _ _ _ =>
      (symbol_agrees _).bind_eq fun _ => integer_agrees.bind_eq fun size =>
        (symbol_agrees _).bind_eq fun _ => pure_agrees (.register kind name size hPlace)
  unfold statementFor? at h
  split at h <;> cases h
  · exact (keyword_agrees _).bind fun _ _ hPlace => header_agrees.bind_eq fun header =>
      (symbol_agrees _).bind_eq fun _ => body_agrees.bind fun _ _ hBody =>
        (symbol_agrees _).bind_eq fun _ => pure_agrees (.gate header hBody hPlace)
  all_goals apply endedBy_agrees
  · exact (keyword_agrees _).bind fun _ _ hPlace => header_agrees.bind_eq fun header =>
      pure_agrees (.opaqueGate header hPlace)
  · exact (keyword_agrees _).bind fun _ _ hPlace => versionNumber_agrees.bind_eq fun numbers =>
      pure_agrees (.version numbers.1 numbers.2 hPlace)
  · exact (keyword_agrees _).bind fun _ _ hPlace => string_agrees.bind_eq fun path =>
      pure_agrees (.inclusion path hPlace)
  · exact hRegister _ _
  · exact hRegister _ _
  · exact (keyword_agrees _).bind fun _ _ hPlace => reference_agrees.bind fun _ _ hSource =>
      (symbol_agrees _).bind_eq fun _ => reference_agrees.bind fun _ _ hTarget =>
        pure_agrees (.measure hSource hTarget hPlace)
  · exact (keyword_agrees _).bind fun _ _ hPlace => reference_agrees.bind fun _ _ hTarget =>
      pure_agrees (.reset hTarget hPlace)
  · exact (keyword_agrees _).bind fun _ _ hPlace => references_agrees.bind fun _ _ hTargets =>
      pure_agrees (.barrier hTargets hPlace)
  · exact (keyword_agrees _).bind fun _ _ hPlace => (symbol_agrees _).bind_eq fun _ =>
      identifier_bind_agrees fun name _ _ _ => (symbol_agrees _).bind_eq fun _ =>
        integer_agrees.bind_eq fun value => (symbol_agrees _).bind_eq fun _ =>
          gateCall_agrees.bind fun _ _ hCall => pure_agrees (.condition name value hCall hPlace)
  · exact gateCall_agrees.bind fun _ _ hCall => pure_agrees (.call hCall)

theorem statement_agrees (mode : Mode) :
    Agrees Related (Statement.AlikeAt Related) (statement mode) (statement mode) := by
  intro lexemes others h
  cases h with
  | nil => exact .error ⟨rfl, .nil⟩
  | cons hFirst hRest =>
      simp only [statement, hFirst.token_eq]
      split
      · rename_i reader hReader
        exact statementFor?_agrees hReader _ _ (.cons hFirst hRest)
      · exact .error ⟨rfl, .cons hFirst hRest⟩

/-- Statements are read without regard to the places of their lexemes. -/
theorem statements_agrees (mode : Mode) :
    Agrees Related (List.Forall₂ (Statement.AlikeAt Related)) (statements mode)
      (statements mode) := by
  refine repeated_alike _ (statement_agrees mode) fun first second h => ?_
  cases h <;> rfl

end Grammar

/-! ### Whole programs -/

open Grammar

/-- The proper lexemes of lists that are alike. -/
theorem properLexemes_alike {lexemes others : List Lexeme} (h : AlikeLists Related lexemes others) :
    AlikeLists Related (properLexemes lexemes) (properLexemes others) := by
  induction h with
  | nil => exact .nil
  | cons hFirst hRest ih =>
      simp only [properLexemes, List.takeWhile_cons, hFirst.isEnd_eq]
      split
      · exact .cons hFirst ih
      · exact .nil

/-- Reports of alike mismatches in inputs with alike ends. -/
theorem Grammar.Mismatch.AlikeAt.report {first second : Mismatch} (h : first.AlikeAt Related second)
    {final other : Lexeme} (hFinal : final.AlikeAt Related other) :
    (first.report final).AlikeAt Related (second.report other) := by
  obtain ⟨expected, rest⟩ := first
  obtain ⟨_, behind⟩ := second
  obtain ⟨rfl, hRest⟩ := h
  have hFound : (rest.headD final).AlikeAt Related (behind.headD other) := by
    cases hRest with
    | nil => exact hFinal
    | cons hFirst hMore => exact hFirst
  exact ⟨rfl, hFound.found_eq, hFound.position⟩

/-- Readers that agree still do so when they have to read everything. -/
theorem readAll_alike {α : Type} {Values : α → α → Prop} {first second : Reader α}
    (hAgrees : Agrees Related Values first second) {lexemes others : List Lexeme}
    (h : AlikeLists Related lexemes others)
    (hFinal : (finalLexeme lexemes).AlikeAt Related (finalLexeme others)) :
    Agreement (SyntaxError.AlikeAt Related) Values (readAll first lexemes)
      (readAll second others) := by
  have hRead := hAgrees _ _ (properLexemes_alike h)
  rw [readAll, readAll]
  generalize first (properLexemes lexemes) = found at hRead
  generalize second (properLexemes others) = other at hRead
  cases hRead with
  | error hMismatch => exact .error (hMismatch.report hFinal)
  | @ok found other hFound =>
      obtain ⟨value, rest⟩ := found
      obtain ⟨again, behind⟩ := other
      obtain ⟨hValue, hRest⟩ := hFound
      cases hRest with
      | nil => exact .ok hValue
      | @cons next other more back hFirst hMore =>
          -- both readers leave something behind
          have hLeft : Mismatch.AlikeAt Related ⟨[.token .endOfInput], next :: more⟩
              ⟨[.token .endOfInput], other :: back⟩ := ⟨rfl, .cons hFirst hMore⟩
          exact .error (hLeft.report hFinal)

/-- **Places do not matter.**  Lexemes that are alike, with ends that are alike, are read as
programs that differ in their places only, or refused with errors that do. -/
theorem Program.ofLexemes_alike (mode : Mode) {lexemes others : List Lexeme}
    (h : AlikeLists Related lexemes others)
    (hFinal : (finalLexeme lexemes).AlikeAt Related (finalLexeme others)) :
    Agreement (SyntaxError.AlikeAt Related) (Program.AlikeAt Related)
      (Program.ofLexemes mode lexemes) (Program.ofLexemes mode others) :=
  (readAll_alike (statements_agrees mode) h hFinal).map fun _ _ hStatements => hStatements

end QuantumCircuit
