import QuantumCircuit.Proofs.Cursor.Steps
import QuantumCircuit.Proofs.Grammar.Derivation

/-!
# A cursor in expressions

An expression is taken part by part.  The steps of one part call those of others and of the same
part again, without a bound on how often.  What ends a run is the depth, which grows with every
operand, and the height of the tree, which grows with every operator.

* `Cursor.Part` : the parts of an expression.
* `Cursor.Part.take` : the steps that take a part.
* `operand_follows` : at every depth they do what the reader does with the levels that are left.
-/

namespace QuantumCircuit

open Grammar (Reader nestingLimit tokenOperator? rightPrecedence negated opening? expressionStart
  expressionWithin)

namespace Cursor

/-- Refuses an expression that is too high, once it has been taken. -/
def bounded (e : Expr) : Steps Expr :=
  if nestingLimit < e.height then unexpected [.shallowerNesting] else return e

/-- A part of an expression that is to be taken. -/
inductive Part where
  /-- An expression whose operators bind at least as tightly as `lowest`. -/
  | operand (lowest : Nat)
  /-- A primary expression behind minus signs, `seen` of which have been taken. -/
  | unary (seen : Nat)
  /-- An expression without an operator at its outermost level. -/
  | primary
  /-- What follows a left operand, with operators that bind at least as tightly as `lowest`. -/
  | climb (lowest : Nat) (left : Expr)

/-- Takes a part of an expression. -/
def Part.take : Part → Steps Expr
  | .operand lowest => do
    enter
    let left ← Part.unary 0 |>.take
    let e ← Part.climb lowest left |>.take
    leave
    return e
  | .unary seen => do
    if ← check .minus then
      if seen = nestingLimit then unexpected [.shallowerNesting]
      else
        let _ ← advance
        Part.unary (seen + 1) |>.take
    else
      let e ← Part.primary |>.take
      bounded (negated seen e)
  | .primary => do
    let lexeme ← current
    match opening? lexeme.token with
    | some (.leaf e) =>
      let _ ← advance
      return e
    | some (.function f) =>
      let _ ← advance
      symbol .leftParen
      let argument ← Part.operand 0 |>.take
      symbol .rightParen
      bounded (.call f argument)
    | some .parenthesis =>
      let _ ← advance
      let e ← Part.operand 0 |>.take
      symbol .rightParen
      return e
    | none => unexpected expressionStart
  | .climb lowest left => do
    let lexeme ← current
    match tokenOperator? lexeme.token with
    | none => return left
    | some operator =>
      if operator.precedence < lowest then return left
      else
        let _ ← advance
        let right ← Part.operand (rightPrecedence operator) |>.take
        let e ← bounded (.binary operator left right)
        Part.climb lowest e |>.take
partial_fixpoint

/-- Takes an expression whose operators bind at least as tightly as `lowest`. -/
def operand (lowest : Nat) : Steps Expr := (Part.operand lowest).take

end Cursor

variable {depth : Nat}

namespace Follows

theorem bounded (e : Expr) : Follows depth (Cursor.bounded e) (Grammar.bounded e) := by
  intro cursor rest final hFaces hDepth
  unfold Cursor.bounded Grammar.bounded
  split
  · exact .unexpected hFaces _
  · exact .value (Steps.returns_pure _ _)

theorem frontOperator?_lexeme (lexeme : Lexeme) (others : List Lexeme) :
    Grammar.frontOperator? (lexeme :: others) =
      (tokenOperator? lexeme.token).map fun operator => (operator, others) := by
  simp only [Grammar.frontOperator?, tokenOperator?]
  cases lexeme.token <;> rfl

/-! ### The parts

Each part follows its reader if operands follow the reader for what stands between parentheses. -/

variable {levels : Nat}

theorem primary
    (hOperand : ∀ lowest, Follows depth (Cursor.operand lowest) (expressionWithin levels lowest)) :
    Follows depth Cursor.Part.primary.take (Grammar.primary (expressionWithin levels 0)) := by
  intro cursor rest final hFaces hDepth
  rw [Cursor.Part.take]
  refine .look hFaces ?_
  cases rest with
  | nil =>
      rw [List.headD_nil, hFaces.final_token]
      exact .unexpected hFaces _
  | cons lexeme others =>
      have hOthers := hFaces.behind
      rw [List.headD_cons, Grammar.primary]
      cases opening? lexeme.token with
      | none => exact .unexpected hFaces _
      | some opening =>
          cases opening with
          | leaf e => exact .take hFaces (.value (Steps.returns_pure _ _))
          | function f =>
              have hCall : Follows depth
                  (do
                    Cursor.symbol .leftParen
                    let argument ← Cursor.operand 0
                    Cursor.symbol .rightParen
                    Cursor.bounded (.call f argument))
                  (Grammar.callOf (expressionWithin levels 0) f) := by
                refine (symbol .leftParen).bind fun _ => ?_
                have hArgument := ((hOperand 0).endedBy .rightParen).bind fun argument =>
                  bounded (.call f argument)
                simpa only [bind_assoc, pure_bind] using hArgument
              exact .take hFaces (hCall hOthers hDepth)
          | parenthesis => exact .take hFaces (((hOperand 0).endedBy .rightParen) hOthers hDepth)

/-- Behind some minus signs, the others are counted on. -/
theorem unary
    (hOperand : ∀ lowest, Follows depth (Cursor.operand lowest) (expressionWithin levels lowest))
    (seen : Nat) :
    Follows depth (Cursor.Part.unary seen).take (do
      let count ← Grammar.minusSigns seen
      let e ← Grammar.primary (expressionWithin levels 0)
      Grammar.bounded (negated count e)) := by
  have hPrimary : ∀ seen, Follows depth
      (do
        let e ← Cursor.Part.primary.take
        Cursor.bounded (negated seen e))
      (do
        let e ← Grammar.primary (expressionWithin levels 0)
        Grammar.bounded (negated seen e)) :=
    fun seen => (primary hOperand).bind fun e => bounded (negated seen e)
  intro cursor rest final hFaces hDepth
  induction rest generalizing cursor seen with
  | nil =>
      rw [Cursor.Part.take]
      exact .stay (check_returns .minus hFaces) (hPrimary seen hFaces hDepth)
  | cons lexeme others ih =>
      rw [Cursor.Part.take]
      refine .stay (check_returns .minus hFaces) ?_
      by_cases hMinus : lexeme.token = .symbol .minus
      · rw [Grammar.accept?_cons hMinus, Option.isSome_some, if_pos rfl]
        by_cases hMost : seen = nestingLimit
        · have hRefused : Grammar.minusSigns seen (lexeme :: others) =
              .error (Grammar.tooDeep (lexeme :: others)) := by
            rw [Grammar.minusSigns, if_pos hMinus, if_pos hMost]
          rw [Grammar.bind_of_error hRefused, if_pos hMost]
          exact .unexpected hFaces _
        · have hMore : Grammar.minusSigns seen (lexeme :: others) =
              Grammar.minusSigns (seen + 1) others := by
            rw [Grammar.minusSigns, if_pos hMinus, if_neg hMost]
          rw [Grammar.bind_congr_at hMore, if_neg hMost]
          exact .take hFaces (ih (seen + 1) hFaces.behind hDepth)
      · have hNone : Grammar.minusSigns seen (lexeme :: others) = .ok (seen, lexeme :: others) := by
          rw [Grammar.minusSigns, if_neg hMinus]
        rw [Grammar.accept?_other hMinus, Option.isSome_none, if_neg Bool.false_ne_true,
          Grammar.bind_of_ok hNone]
        exact hPrimary seen hFaces hDepth

theorem climb
    (hOperand : ∀ lowest, Follows depth (Cursor.operand lowest) (expressionWithin levels lowest))
    (lowest : Nat) (left : Expr) :
    Follows depth (Cursor.Part.climb lowest left).take
      (Grammar.climb (expressionWithin levels) lowest left) := by
  intro cursor rest final hFaces hDepth
  rw [Cursor.Part.take]
  refine .look hFaces ?_
  cases rest with
  | nil =>
      rw [List.headD_nil, hFaces.final_token, Grammar.climb]
      exact .value (Steps.returns_pure _ _)
  | cons lexeme others =>
      rw [List.headD_cons]
      cases hOperator : tokenOperator? lexeme.token with
      | none =>
          rw [Grammar.climb, frontOperator?_lexeme, hOperator]
          exact .value (Steps.returns_pure _ _)
      | some operator =>
          have hFront : Grammar.frontOperator? (lexeme :: others) = some (operator, others) := by
            rw [frontOperator?_lexeme, hOperator]
            rfl
          by_cases hLoose : operator.precedence < lowest
          · rw [Grammar.climb, hFront]
            simp only [if_pos hLoose]
            exact .value (Steps.returns_pure _ _)
          · rw [Grammar.climb_eq hFront (Nat.le_of_not_lt hLoose)]
            simp only [if_neg hLoose]
            refine .take hFaces ?_
            have hOthers := hFaces.behind
            refine (hOperand _ hOthers hDepth).bind fun right front behind hRest _ => ?_
            subst hRest
            have hBehind := hOthers.passing
            refine (bounded _ hBehind hDepth).bind fun e front behind hRest hBounded => ?_
            subst hRest
            obtain ⟨hHeight, rfl, -⟩ := Grammar.bounded_eq_ok.mp hBounded
            -- the tree is higher than its left operand
            have hHigher := Expr.height_left_lt operator left right
            exact climb hOperand lowest _ hBehind.passing hDepth
termination_by nestingLimit - left.height

end Follows

/-- **Operands.**  At every depth the steps do what the reader does with the levels that are
left. -/
theorem operand_follows (depth lowest : Nat) :
    Follows depth (Cursor.operand lowest) (expressionWithin (nestingLimit - depth) lowest) := by
  induction hLevels : nestingLimit - depth generalizing depth lowest with
  | zero =>
      rw [Cursor.operand, Cursor.Part.take]
      exact .tooDeep _ (by omega)
  | succ levels ih =>
      have hOperand : ∀ lowest, Follows (depth + 1) (Cursor.operand lowest)
          (expressionWithin levels lowest) :=
        fun lowest => ih (depth + 1) lowest (by omega)
      have hInner : Follows (depth + 1)
          (do
            let left ← (Cursor.Part.unary 0).take
            (Cursor.Part.climb lowest left).take)
          (expressionWithin (levels + 1) lowest) :=
        (Follows.unary hOperand 0).bind fun left => .climb hOperand lowest left
      have hWithin := hInner.within (show depth < nestingLimit by omega)
      rw [bind_assoc] at hWithin
      rwa [Cursor.operand, Cursor.Part.take]

end QuantumCircuit
