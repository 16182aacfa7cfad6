import QuantumCircuit.Proofs.Grammar.Statement

/-!
# One lexeme of lookahead

A reader stops in front of a lexeme, whether it succeeds or not, and that lexeme is the last one
it has looked at.  With other lexemes behind it the outcome is the same.

* `StopsAlike` : the outcome on one list depends on no more than the next lexeme that is left.
* `Looks` : it does so on every list.
* `statements_looks` : all readers of the grammar look one lexeme ahead.
-/

namespace QuantumCircuit
namespace Grammar

variable {α β : Type}

/-! ### Outcomes -/

/-- The lexemes in front of which a reader has stopped. -/
def leftOver : Except Mismatch (α × List Lexeme) → List Lexeme
  | .ok (_, rest) => rest
  | .error mismatch => mismatch.rest

/-- The same outcome in front of other lexemes. -/
def inFrontOf (other : List Lexeme) :
    Except Mismatch (α × List Lexeme) → Except Mismatch (α × List Lexeme)
  | .ok (value, _) => .ok (value, other)
  | .error mismatch => .error ⟨mismatch.expected, other⟩

/-- What the reader does with a list it does with every list that differs behind the next lexeme
only that is left. -/
def StopsAlike (reader : Reader α) (lexemes : List Lexeme) : Prop :=
  ∃ front, lexemes = front ++ leftOver (reader lexemes) ∧
    ∀ other, other.head? = (leftOver (reader lexemes)).head? →
      reader (front ++ other) = inFrontOf other (reader lexemes)

/-- The reader looks one lexeme ahead. -/
def Looks (reader : Reader α) : Prop := ∀ lexemes, StopsAlike reader lexemes

/-- The next lexeme of a list is that of its front, or that of its back if the front is empty. -/
theorem head?_append_congr {front other rest : List Lexeme} (h : other.head? = rest.head?) :
    (front ++ other).head? = (front ++ rest).head? := by
  cases front with
  | nil => exact h
  | cons lexeme front => rfl

namespace StopsAlike

variable {reader : Reader α} {lexemes rest : List Lexeme}

theorem of_ok {value : α} (h : StopsAlike reader lexemes)
    (hRead : reader lexemes = .ok (value, rest)) :
    ∃ front, lexemes = front ++ rest ∧ ∀ other, other.head? = rest.head? →
      reader (front ++ other) = .ok (value, other) := by
  rw [StopsAlike, hRead] at h
  exact h

theorem of_error {expected : List Expectation} (h : StopsAlike reader lexemes)
    (hRead : reader lexemes = .error ⟨expected, rest⟩) :
    ∃ front, lexemes = front ++ rest ∧ ∀ other, other.head? = rest.head? →
      reader (front ++ other) = .error ⟨expected, other⟩ := by
  rw [StopsAlike, hRead] at h
  exact h

/-- Nothing is taken, and only the next lexeme decides. -/
theorem of_head (outcome : Except Mismatch (α × List Lexeme))
    (h : ∀ other, other.head? = lexemes.head? → reader other = inFrontOf other outcome) :
    StopsAlike reader lexemes := by
  have hRead := h lexemes rfl
  refine ⟨[], ?_, fun other hOther => ?_⟩
  · rw [hRead]
    cases outcome <;> rfl
  · rw [hRead] at hOther ⊢
    have hSame : other.head? = lexemes.head? := by
      cases outcome <;> exact hOther
    rw [List.nil_append, h other hSame]
    cases outcome <;> rfl

theorem of_nil (h : leftOver (reader []) = []) : StopsAlike reader [] := by
  refine .of_head (reader []) fun other hOther => ?_
  rw [List.head?_nil, List.head?_eq_none_iff] at hOther
  rw [hOther]
  cases hRead : reader [] with
  | error mismatch =>
      obtain ⟨expected, rest⟩ := mismatch
      rw [hRead] at h
      obtain rfl : rest = [] := h
      rfl
  | ok found =>
      obtain ⟨value, rest⟩ := found
      rw [hRead] at h
      obtain rfl : rest = [] := h
      rfl

theorem of_first {first : Lexeme} (outcome : Except Mismatch (α × List Lexeme))
    (h : ∀ other, reader (first :: other) = inFrontOf (first :: other) outcome) :
    StopsAlike reader (first :: rest) := by
  refine .of_head outcome fun other hOther => ?_
  obtain ⟨more, rfl⟩ := List.head?_eq_some_iff.mp hOther
  exact h more

/-- Another reader that does the same wherever the next lexeme is the same. -/
theorem congr {second : Reader α} (h : StopsAlike second lexemes)
    (hSame : ∀ other, other.head? = lexemes.head? → reader other = second other) :
    StopsAlike reader lexemes := by
  obtain ⟨front, hFront, hOther⟩ := h
  have hRead := hSame lexemes rfl
  refine ⟨front, by rw [hRead, ← hFront], fun other hHead => ?_⟩
  rw [hRead] at hHead ⊢
  rw [hSame, hOther other hHead]
  rw [head?_append_congr hHead, ← hFront]

theorem bind {first : Reader α} {next : α → Reader β} (hFirst : StopsAlike first lexemes)
    (hNext : ∀ found behind, first lexemes = .ok (found, behind) →
      StopsAlike (next found) behind) : StopsAlike (first >>= next) lexemes := by
  cases hRead : first lexemes with
  | error mismatch =>
      obtain ⟨front, hFront, hOther⟩ := hFirst.of_error hRead
      rw [StopsAlike, bind_of_error hRead]
      exact ⟨front, hFront, fun other hHead => bind_of_error (hOther other hHead)⟩
  | ok found =>
      obtain ⟨found, behind⟩ := found
      obtain ⟨front, hFront, hOther⟩ := hFirst.of_ok hRead
      obtain ⟨back, hBack, hRest⟩ := hNext found behind hRead
      rw [StopsAlike, bind_of_ok hRead]
      refine ⟨front ++ back, ?_, fun other hHead => ?_⟩
      · rw [List.append_assoc, ← hBack, ← hFront]
      · -- the first reader stops in front of `back`, or of what is left if that is empty
        have hHead' : (back ++ other).head? = behind.head? := by
          rw [head?_append_congr hHead, ← hBack]
        rw [List.append_assoc, bind_of_ok (hOther _ hHead'), hRest other hHead]

end StopsAlike

/-! ### Steps -/

theorem Looks.bind {first : Reader α} {next : α → Reader β} (hFirst : Looks first)
    (hNext : ∀ found, Looks (next found)) : Looks (first >>= next) :=
  fun lexemes => (hFirst lexemes).bind fun found behind _ => hNext found behind

theorem pure_looks (value : α) : Looks (pure value : Reader α) :=
  fun lexemes => .of_head (.ok (value, lexemes)) fun _ _ => rfl

theorem expecting_looks (expected : List Expectation) : Looks (expecting expected : Reader α) :=
  fun lexemes => .of_head (.error ⟨expected, lexemes⟩) fun _ _ => rfl

theorem one_looks (select : Lexeme → Option α) (expected : List Expectation) :
    Looks (one select expected) := by
  intro lexemes
  cases lexemes with
  | nil => exact .of_nil rfl
  | cons lexeme rest =>
      cases hSelect : select lexeme with
      | none =>
          refine .of_first (.error ⟨expected, lexeme :: rest⟩) fun other => ?_
          simp only [one, hSelect, inFrontOf]
      | some value =>
          have hRead (other : List Lexeme) :
              one select expected (lexeme :: other) = .ok (value, other) := one_cons hSelect other
          rw [StopsAlike, hRead]
          exact ⟨[lexeme], rfl, fun other _ => hRead other⟩

theorem symbol_looks (sign : Symbol) : Looks (symbol sign) := one_looks _ _

theorem keyword_looks (word : Keyword) : Looks (keyword word) := one_looks _ _

theorem identifier_looks : Looks identifier := one_looks _ _

theorem integer_looks : Looks integer := one_looks _ _

theorem string_looks : Looks string := one_looks _ _

theorem endedBy_looks (sign : Symbol) {phrase : Reader α} (hPhrase : Looks phrase) :
    Looks (endedBy sign phrase) :=
  hPhrase.bind fun _ => (symbol_looks _).bind fun _ => pure_looks _

/-- Whether a symbol comes next is seen from the next lexeme. -/
theorem accept?_isSome_congr {sign : Symbol} {first second : List Lexeme}
    (h : first.head? = second.head?) :
    (accept? sign first).isSome = (accept? sign second).isSome := by
  cases second with
  | nil =>
      rw [List.head?_nil, List.head?_eq_none_iff] at h
      rw [h]
  | cons lexeme rest =>
      obtain ⟨more, rfl⟩ := List.head?_eq_some_iff.mp h
      simp only [accept?]
      split <;> rfl

theorem accept?_eq_none_congr {sign : Symbol} {first second : List Lexeme}
    (h : first.head? = second.head?) (hNone : accept? sign second = none) :
    accept? sign first = none := by
  rw [← Option.isNone_iff_eq_none, ← Option.not_isSome] at hNone ⊢
  rwa [accept?_isSome_congr h]

/-- Behind a symbol that has been taken the list goes on as before. -/
theorem StopsAlike.cons {reader inner : Reader α} {lexeme : Lexeme} {rest : List Lexeme}
    (h : StopsAlike inner rest) (hSame : ∀ other, reader (lexeme :: other) = inner other) :
    StopsAlike reader (lexeme :: rest) := by
  obtain ⟨front, hFront, hOther⟩ := h
  rw [StopsAlike, hSame]
  refine ⟨lexeme :: front, ?_, fun other hHead => ?_⟩
  · rw [List.cons_append, ← hFront]
  · rw [List.cons_append, hSame, hOther other hHead]

theorem StopsAlike.ifNext {sign : Symbol} {present absent : Reader α} {lexemes : List Lexeme}
    (hPresent : ∀ rest, accept? sign lexemes = some rest → StopsAlike present rest)
    (hAbsent : StopsAlike absent lexemes) : StopsAlike (ifNext sign present absent) lexemes := by
  cases hAccept : accept? sign lexemes with
  | some rest =>
      obtain ⟨lexeme, rfl, hToken⟩ := accept?_eq_some hAccept
      refine (hPresent rest hAccept).cons fun other => ?_
      simp only [Grammar.ifNext, accept?_cons hToken]
  | none =>
      refine hAbsent.congr fun other hHead => ?_
      simp only [Grammar.ifNext, accept?_eq_none_congr hHead hAccept]

theorem ifNext_looks (sign : Symbol) {present absent : Reader α} (hPresent : Looks present)
    (hAbsent : Looks absent) : Looks (ifNext sign present absent) :=
  fun lexemes => .ifNext (fun rest _ => hPresent rest) (hAbsent lexemes)

theorem ifAhead_looks (sign : Symbol) {present absent : Reader α} (hPresent : Looks present)
    (hAbsent : Looks absent) : Looks (ifAhead sign present absent) := by
  intro lexemes
  cases hAccept : accept? sign lexemes with
  | some rest =>
      refine (hPresent lexemes).congr fun other hHead => ?_
      have hSome : (accept? sign other).isSome = (accept? sign lexemes).isSome :=
        accept?_isSome_congr hHead
      rw [hAccept] at hSome
      obtain ⟨behind, hBehind⟩ := Option.isSome_iff_exists.mp hSome
      simp only [ifAhead, hBehind]
  | none =>
      refine (hAbsent lexemes).congr fun other hHead => ?_
      simp only [ifAhead, accept?_eq_none_congr hHead hAccept]

/-! ### Lists of phrases -/

theorem separated_looks {item : Reader α} (progress : Shortens item) (hItem : Looks item)
    (lexemes : List Lexeme) : StopsAlike (separated item progress) lexemes := by
  rw [separated_eq]
  refine (hItem lexemes).bind fun value rest hRead => .ifNext (fun behind hComma => ?_)
    (pure_looks _ _)
  have hShorter := Nat.lt_trans (accept?_length hComma) (progress _ _ _ hRead)
  exact (separated_looks progress hItem behind).bind fun _ _ _ => pure_looks _ _
termination_by lexemes.length

theorem repeated_looks {item : Reader α} (progress : Shortens item) {done : List Lexeme → Bool}
    (hItem : Looks item)
    (hHead : ∀ first second : List Lexeme, first.head? = second.head? → done first = done second)
    (lexemes : List Lexeme) : StopsAlike (repeated item progress done) lexemes := by
  cases hDone : done lexemes with
  | true =>
      refine (pure_looks [] lexemes).congr fun other hOther => ?_
      rw [repeated_done progress (by rw [hHead other lexemes hOther, hDone])]
      rfl
  | false =>
      have hSteps : StopsAlike (do
          let value ← item
          let values ← (repeated item progress done : Reader (List α))
          return value :: values) lexemes := by
        refine (hItem lexemes).bind fun value rest hRead => ?_
        have hShorter := progress _ _ _ hRead
        exact (repeated_looks progress hItem hHead rest).bind fun _ _ _ => pure_looks _ _
      refine hSteps.congr fun other hOther => ?_
      rw [repeated_eq progress (by rw [hHead other lexemes hOther, hDone])]
termination_by lexemes.length

/-! ### Expressions -/

theorem bounded_looks (e : Expr) : Looks (bounded e) := by
  intro lexemes
  by_cases h : nestingLimit < e.height
  · exact .of_head (.error (tooDeep lexemes)) fun other _ => bounded_of_lt h other
  · exact .of_head (.ok (e, lexemes)) fun other _ => bounded_of_le (by omega) other

theorem minusSigns_looks (seen : Nat) : Looks (minusSigns seen) := by
  intro lexemes
  induction lexemes generalizing seen with
  | nil => exact .of_nil rfl
  | cons lexeme rest ih =>
      by_cases hMinus : lexeme.token = .symbol .minus
      · by_cases hLast : seen = nestingLimit
        · refine .of_first (.error (tooDeep (lexeme :: rest))) fun other => ?_
          rw [minusSigns, if_pos hMinus, if_pos hLast]
          rfl
        · refine (ih (seen + 1)).cons fun other => ?_
          rw [minusSigns, if_pos hMinus, if_neg hLast]
      · refine .of_first (.ok (seen, lexeme :: rest)) fun other => ?_
        rw [minusSigns, if_neg hMinus]
        rfl

theorem callOf_looks {inner : Reader Expr} (hInner : Looks inner) (f : MathFunction) :
    Looks (callOf inner f) :=
  (symbol_looks _).bind fun _ => (endedBy_looks _ hInner).bind fun _ => bounded_looks _

theorem primary_looks {inner : Reader Expr} (hInner : Looks inner) : Looks (primary inner) := by
  intro lexemes
  cases lexemes with
  | nil => exact .of_nil rfl
  | cons lexeme rest =>
      cases hOpening : opening? lexeme.token with
      | none =>
          refine .of_first (.error ⟨expressionStart, lexeme :: rest⟩) fun other => ?_
          simp only [primary, hOpening, inFrontOf]
      | some opening =>
          cases opening with
          | leaf e =>
              refine (pure_looks e rest).cons fun other => ?_
              simp only [primary, hOpening]
              rfl
          | function f =>
              refine (callOf_looks hInner f rest).cons fun other => ?_
              simp only [primary, hOpening]
          | parenthesis =>
              refine (endedBy_looks .rightParen hInner rest).cons fun other => ?_
              simp only [primary, hOpening]

theorem unary_looks {inner : Reader Expr} (hInner : Looks inner) : Looks (unary inner) :=
  (minusSigns_looks 0).bind fun _ => (primary_looks hInner).bind fun _ => bounded_looks _

/-- The operator at the front of a list is seen from the next lexeme. -/
theorem frontOperator?_eq_none_congr {first second : List Lexeme} (h : first.head? = second.head?)
    (hNone : frontOperator? second = none) : frontOperator? first = none := by
  cases second with
  | nil =>
      rw [List.head?_nil, List.head?_eq_none_iff] at h
      rw [h]
      rfl
  | cons lexeme rest =>
      obtain ⟨more, rfl⟩ := List.head?_eq_some_iff.mp h
      simp only [frontOperator?] at hNone ⊢
      split
      · rename_i sign hToken
        rw [hToken] at hNone
        simpa using hNone
      · rfl

theorem climb_looks {operand : Nat → Reader Expr} (hOperand : ∀ lowest, Looks (operand lowest))
    (lowest : Nat) (left : Expr) : Looks (climb operand lowest left) := by
  intro lexemes
  cases hFront : frontOperator? lexemes with
  | none =>
      refine (pure_looks left lexemes).congr fun other hOther => ?_
      refine climb_stops (fun operator rest hFound => ?_) left
      rw [frontOperator?_eq_none_congr hOther hFront] at hFound
      cases hFound
  | some found =>
      obtain ⟨operator, behind⟩ := found
      obtain ⟨sign, symbol, rfl, hSign, hOperator⟩ := frontOperator?_eq_some hFront
      have hFound := frontOperator?_cons hSign hOperator
      by_cases hLoose : operator.precedence < lowest
      · refine (pure_looks left (sign :: behind)).congr fun other hOther => ?_
        obtain ⟨more, rfl⟩ := List.head?_eq_some_iff.mp hOther
        refine climb_stops (fun next rest hNext => ?_) left
        rw [hFound more] at hNext
        cases hNext
        exact hLoose
      · have hSteps : StopsAlike (do
            let right ← operand (rightPrecedence operator)
            let e ← bounded (.binary operator left right)
            climb operand lowest e) behind := by
          refine (hOperand _ behind).bind fun right rest _ =>
            (bounded_looks (.binary operator left right) rest).bind fun e rest hBounded => ?_
          obtain ⟨hHeight, rfl, -⟩ := bounded_eq_ok.mp hBounded
          have hHigher := Expr.height_left_lt operator left right
          exact climb_looks hOperand lowest _ rest
        exact hSteps.cons fun other => climb_eq (hFound other) (Nat.le_of_not_lt hLoose)
termination_by nestingLimit - left.height

theorem expressionWithin_looks (levels lowest : Nat) : Looks (expressionWithin levels lowest) := by
  induction levels generalizing lowest with
  | zero => exact expecting_looks _
  | succ levels ih => exact (unary_looks (ih 0)).bind fun left => climb_looks ih lowest left

theorem expression_looks : Looks expression := expressionWithin_looks _ _

/-! ### Statements -/

theorem reference_looks : Looks reference :=
  identifier_looks.bind fun _ => ifNext_looks _
    (integer_looks.bind fun _ => (symbol_looks _).bind fun _ => pure_looks _) (pure_looks _)

theorem references_looks : Looks references := separated_looks _ reference_looks

theorem names_looks : Looks names :=
  Looks.bind (separated_looks _ identifier_looks) fun _ => pure_looks _

theorem inParentheses_looks {list : Reader (List α)} (hList : Looks list) :
    Looks (inParentheses (optional list)) :=
  ifNext_looks _ (endedBy_looks _ (ifAhead_looks _ (pure_looks _) hList)) (pure_looks _)

theorem header_looks : Looks header :=
  identifier_looks.bind fun _ => (inParentheses_looks names_looks).bind fun _ =>
    names_looks.bind fun _ => pure_looks _

theorem gateCall_looks : Looks gateCall :=
  identifier_looks.bind fun _ =>
    (inParentheses_looks (separated_looks _ expression_looks)).bind fun _ =>
      references_looks.bind fun _ => pure_looks _

theorem beginsWithIdentifier_congr {first second : List Lexeme}
    (h : first.head? = second.head?) :
    beginsWithIdentifier first = beginsWithIdentifier second := by
  cases first <;> cases second <;> cases h <;> rfl

theorem bodyCall_looks : Looks bodyCall := by
  intro lexemes
  cases hBegins : beginsWithIdentifier lexemes with
  | true =>
      refine (endedBy_looks .semicolon gateCall_looks lexemes).congr fun other hOther => ?_
      rw [bodyCall, beginsWithIdentifier_congr hOther, if_pos hBegins]
      rfl
  | false =>
      refine (expecting_looks bodyContinuation lexemes).congr fun other hOther => ?_
      rw [bodyCall, beginsWithIdentifier_congr hOther, hBegins]
      rfl

theorem body_looks : Looks body :=
  repeated_looks _ bodyCall_looks fun _ _ => accept?_isSome_congr

theorem definition_looks : Looks definition :=
  (keyword_looks _).bind fun _ => header_looks.bind fun _ => (symbol_looks _).bind fun _ =>
    body_looks.bind fun _ => (symbol_looks _).bind fun _ => pure_looks _

theorem statementFor?_looks {mode : Mode} {token : Token} {reader : Reader Statement}
    (h : statementFor? mode token = some reader) : Looks reader := by
  have hRegister (kind : RegisterKind) (word : Keyword) : Looks (registerOf kind word) :=
    (keyword_looks _).bind fun _ => identifier_looks.bind fun _ => (symbol_looks _).bind fun _ =>
      integer_looks.bind fun _ => (symbol_looks _).bind fun _ => pure_looks _
  unfold statementFor? at h
  split at h <;> cases h
  · exact definition_looks
  all_goals apply endedBy_looks
  · exact (keyword_looks _).bind fun _ => header_looks.bind fun _ => pure_looks _
  · exact (keyword_looks _).bind fun _ => (one_looks _ _).bind fun _ => pure_looks _
  · exact (keyword_looks _).bind fun _ => string_looks.bind fun _ => pure_looks _
  · exact hRegister _ _
  · exact hRegister _ _
  · exact (keyword_looks _).bind fun _ => reference_looks.bind fun _ => (symbol_looks _).bind
      fun _ => reference_looks.bind fun _ => pure_looks _
  · exact (keyword_looks _).bind fun _ => reference_looks.bind fun _ => pure_looks _
  · exact (keyword_looks _).bind fun _ => references_looks.bind fun _ => pure_looks _
  · exact (keyword_looks _).bind fun _ => (symbol_looks _).bind fun _ => identifier_looks.bind
      fun _ => (symbol_looks _).bind fun _ => integer_looks.bind fun _ => (symbol_looks _).bind
        fun _ => gateCall_looks.bind fun _ => pure_looks _
  · exact gateCall_looks.bind fun _ => pure_looks _

theorem statement_looks (mode : Mode) : Looks (statement mode) := by
  intro lexemes
  cases lexemes with
  | nil => exact .of_nil rfl
  | cons lexeme rest =>
      cases hReader : statementFor? mode lexeme.token with
      | none =>
          refine .of_first (.error ⟨startOf mode, lexeme :: rest⟩) fun other => ?_
          simp only [statement, hReader, inFrontOf]
      | some reader =>
          refine (statementFor?_looks hReader (lexeme :: rest)).congr fun other hOther => ?_
          obtain ⟨more, rfl⟩ := List.head?_eq_some_iff.mp hOther
          simp only [statement, hReader]

/-- **Lookahead.**  Statements are read with one lexeme of lookahead. -/
theorem statements_looks (mode : Mode) : Looks (statements mode) := by
  refine repeated_looks _ (statement_looks mode) fun first second h => ?_
  cases first <;> cases second <;> first | rfl | cases h

end Grammar
end QuantumCircuit
