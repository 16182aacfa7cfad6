import QuantumCircuit.Grammar.Reader

namespace QuantumCircuit
namespace Grammar

/-!
# Reading expressions

Binary operators are read by precedence: an operand is followed by as many
operators as bind at least as tightly as asked for, and each of them takes a
right operand that binds more tightly, or as tightly if the operator groups to
the right.  Negation binds more tightly than every operator.

Two things are bounded by `nestingLimit`: the height of the tree, and the depth
of operands within operands.  The second bound is what the recursion runs on.
-/

/-- What can begin an expression. -/
def expressionStart : List Expectation :=
  [.token .integer, .token .real, .token (.keyword .pi), .token .identifier,
    .token .function, .token (.symbol .leftParen), .token (.symbol .minus)]

/-- The mismatch of an expression that is nested too deeply. -/
def tooDeep (rest : List Lexeme) : Mismatch := ⟨[.shallowerNesting], rest⟩

/-- Refuses an expression that is too high, once it has been read. -/
def bounded (e : Expr) : Reader Expr := fun lexemes =>
  if nestingLimit < e.height then .error (tooDeep lexemes) else .ok (e, lexemes)

/-- The operator of a symbol. -/
def operator? : Symbol → Option Operator
  | .plus => some .add
  | .minus => some .sub
  | .star => some .mul
  | .slash => some .div
  | .caret => some .pow
  | _ => none

/-- The operator at the front of a list, and what follows it. -/
def frontOperator? : List Lexeme → Option (Operator × List Lexeme)
  | [] => none
  | lexeme :: rest =>
    match lexeme.token with
    | .symbol sign => (operator? sign).map fun operator => (operator, rest)
    | _ => none

/-- The lowest precedence in the right operand of an operator. -/
def rightPrecedence (operator : Operator) : Nat :=
  if operator.groupsRight then operator.precedence else operator.precedence + 1

/-- Counts minus signs from `seen` on; there may be at most `nestingLimit` of them. -/
def minusSigns (seen : Nat) : Reader Nat
  | [] => .ok (seen, [])
  | lexeme :: rest =>
    if lexeme.token = .symbol .minus then
      if seen = nestingLimit then .error (tooDeep (lexeme :: rest))
      else minusSigns (seen + 1) rest
    else .ok (seen, lexeme :: rest)

/-- Negates an expression so many times. -/
def negated : Nat → Expr → Expr
  | 0, e => e
  | count + 1, e => .neg (negated count e)

/-- How an expression without an operator at its outermost level begins. -/
inductive Opening where
  /-- The expression is complete with its first token. -/
  | leaf (e : Expr)
  | function (f : MathFunction)
  | parenthesis
deriving DecidableEq, Repr

/-- The beginning that a token is, if it is one. -/
def opening? : Token → Option Opening
  | .keyword .pi => some (.leaf .pi)
  | .symbol .leftParen => some .parenthesis
  | .integer value => some (.leaf (.number (Decimal.toBinary64 ⟨value.toNat, 0⟩)))
  | .real value => some (.leaf (.number value))
  | .identifier name => some (.leaf (.identifier name))
  | .function f => some (.function f)
  | _ => none

/-- Reads the argument of a function between parentheses. -/
def callOf (inner : Reader Expr) (f : MathFunction) : Reader Expr := do
  symbol .leftParen
  let argument ← endedBy .rightParen inner
  bounded (.call f argument)

/-- Reads an expression without an operator at its outermost level; `inner` reads what
stands between parentheses. -/
def primary (inner : Reader Expr) : Reader Expr
  | [] => .error ⟨expressionStart, []⟩
  | lexeme :: rest =>
    match opening? lexeme.token with
    | some (.leaf e) => .ok (e, rest)
    | some (.function f) => callOf inner f rest
    | some .parenthesis => endedBy .rightParen inner rest
    | none => .error ⟨expressionStart, lexeme :: rest⟩

/-- Reads a primary expression behind any number of minus signs. -/
def unary (inner : Reader Expr) : Reader Expr := do
  let count ← minusSigns 0
  let e ← primary inner
  bounded (negated count e)

/-- Goes on from a left operand with the operators that bind at least as tightly as
`lowest`.  Every step makes the left operand higher, which ends the recursion. -/
def climb (operand : Nat → Reader Expr) (lowest : Nat) (left : Expr) (lexemes : List Lexeme) :
    Except Mismatch (Expr × List Lexeme) :=
  match frontOperator? lexemes with
  | none => .ok (left, lexemes)
  | some (operator, behind) =>
    if operator.precedence < lowest then .ok (left, lexemes)
    else
      match operand (rightPrecedence operator) behind with
      | .error mismatch => .error mismatch
      | .ok (right, rest) =>
        if _h : nestingLimit < (Expr.binary operator left right).height then
          .error (tooDeep rest)
        else climb operand lowest (.binary operator left right) rest
termination_by nestingLimit - left.height
decreasing_by
  have hHigher := Expr.height_left_lt operator left right
  omega

/-- Reads an expression whose operators bind at least as tightly as `lowest`, with at most
`levels` levels of operands within operands. -/
def expressionWithin : Nat → Nat → Reader Expr
  | 0, _ => expecting [.shallowerNesting]
  | levels + 1, lowest => do
    let left ← unary (expressionWithin levels 0)
    climb (expressionWithin levels) lowest left

/-- Reads an expression. -/
def expression : Reader Expr := expressionWithin nestingLimit 0

/-! ### Progress -/

theorem bounded_eq_ok {e found : Expr} {lexemes rest : List Lexeme} :
    bounded e lexemes = .ok (found, rest) ↔
      e.height ≤ nestingLimit ∧ found = e ∧ rest = lexemes := by
  unfold bounded
  split
  · simp; omega
  · simp only [Except.ok.injEq, Prod.mk.injEq]
    constructor
    · rintro ⟨rfl, rfl⟩; exact ⟨by omega, rfl, rfl⟩
    · rintro ⟨_, rfl, rfl⟩; exact ⟨rfl, rfl⟩

theorem bounded_neverGrows (e : Expr) : NeverGrows (bounded e) := by
  intro lexemes found rest h
  rw [bounded_eq_ok] at h
  exact Nat.le_of_eq (congrArg List.length h.2.2)

theorem frontOperator?_length {lexemes rest : List Lexeme} {operator : Operator}
    (h : frontOperator? lexemes = some (operator, rest)) : rest.length < lexemes.length := by
  cases lexemes with
  | nil => cases h
  | cons lexeme others =>
    simp only [frontOperator?] at h
    split at h
    · obtain ⟨_, _, hPair⟩ := Option.map_eq_some_iff.mp h
      cases hPair
      simp
    · cases h

theorem minusSigns_neverGrows (seen : Nat) : NeverGrows (minusSigns seen) := by
  intro lexemes count rest h
  induction lexemes generalizing seen with
  | nil => cases h; exact Nat.le_refl _
  | cons lexeme others ih =>
    simp only [minusSigns] at h
    split at h
    · split at h
      · cases h
      · exact Nat.le_succ_of_le (ih _ h)
    · cases h
      exact Nat.le_refl _

theorem callOf_neverGrows {inner : Reader Expr} (hInner : Shortens inner) (f : MathFunction) :
    NeverGrows (callOf inner f) :=
  (symbol_shortens _).neverGrows.bind fun _ =>
    (endedBy_neverGrows _ hInner.neverGrows).bind fun _ => bounded_neverGrows _

theorem primary_shortens {inner : Reader Expr} (hInner : Shortens inner) :
    Shortens (primary inner) := by
  intro lexemes e rest h
  cases lexemes with
  | nil => cases h
  | cons lexeme others =>
    simp only [primary] at h
    split at h
    · cases h; simp
    · exact Nat.lt_succ_of_le (callOf_neverGrows hInner _ _ _ _ h)
    · exact Nat.lt_succ_of_le (endedBy_neverGrows _ hInner.neverGrows _ _ _ h)
    · cases h

theorem unary_shortens {inner : Reader Expr} (hInner : Shortens inner) :
    Shortens (unary inner) :=
  (minusSigns_neverGrows 0).bind_shortens fun _ =>
    (primary_shortens hInner).bind fun _ => bounded_neverGrows _

theorem climb_neverGrows {operand : Nat → Reader Expr}
    (hOperand : ∀ lowest, Shortens (operand lowest)) (lowest : Nat) (left : Expr) :
    NeverGrows (climb operand lowest left) := by
  intro lexemes e rest h
  fun_induction climb operand lowest left lexemes with
  | case1 => cases h; exact Nat.le_refl _
  | case2 => cases h; exact Nat.le_refl _
  | case3 => cases h
  | case4 => cases h
  | case5 left lexemes operator behind hFront hTight right final hRight hHeight ih =>
    have hFinal := ih h
    have hOperator := frontOperator?_length hFront
    have hBehind := hOperand _ _ _ _ hRight
    omega

theorem expressionWithin_shortens (levels lowest : Nat) :
    Shortens (expressionWithin levels lowest) := by
  induction levels generalizing lowest with
  | zero => intro _ _ _ h; cases h
  | succ levels ih =>
    exact (unary_shortens (ih 0)).bind fun left => climb_neverGrows ih lowest left

theorem expression_shortens : Shortens expression := expressionWithin_shortens _ _

end Grammar
end QuantumCircuit
