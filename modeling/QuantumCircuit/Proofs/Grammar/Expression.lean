import QuantumCircuit.Grammar.Expression
import QuantumCircuit.Proofs.Grammar.Reader

/-!
# The grammar of expressions

Expressions have a grammar in levels: a sum of products of powers of signed primary phrases.
`Derives` states it without reference to a reader, together with the nesting that a derivation
costs.

* `Derives.reads` : what is derived within the limits is read.
* `Derives.refused` : what is derived beyond the limits is refused for its nesting.
* `expressionWithin_sound` : what is read is derived within the limits.
* `Derives.tokens` : which tokens there are in an expression.
-/

namespace QuantumCircuit
namespace Grammar

/-! ### Levels and derivations -/

/-- The level of the left operand of an operator. -/
def leftPrecedence (operator : Operator) : Nat :=
  if operator.groupsRight then operator.precedence + 1 else operator.precedence

/-- `Derives level lexemes e cost`: the lexemes are a phrase of the level, its tree is `e`, and it
nests `cost` levels of operands within operands.  The levels are the precedences of the
operators; signed phrases have level four and primary phrases level five. -/
inductive Derives : Nat → List Lexeme → Expr → Nat → Prop
  | leaf {lexeme : Lexeme} {e : Expr} (hLeaf : opening? lexeme.token = some (.leaf e)) :
      Derives 5 [lexeme] e 0
  | parenthesis {opening closing : Lexeme} {inner : List Lexeme} {e : Expr} {cost : Nat}
      (hOpening : opening.token = .symbol .leftParen)
      (hInner : Derives 0 inner e cost)
      (hClosing : closing.token = .symbol .rightParen) :
      Derives 5 (opening :: (inner ++ [closing])) e (cost + 1)
  | call {name opening closing : Lexeme} {f : MathFunction} {inner : List Lexeme} {e : Expr}
      {cost : Nat}
      (hName : name.token = .function f)
      (hOpening : opening.token = .symbol .leftParen)
      (hInner : Derives 0 inner e cost)
      (hClosing : closing.token = .symbol .rightParen) :
      Derives 5 (name :: opening :: (inner ++ [closing])) (.call f e) (cost + 1)
  | minus {sign : Lexeme} {lexemes : List Lexeme} {e : Expr} {cost : Nat}
      (hSign : sign.token = .symbol .minus)
      (hOperand : Derives 4 lexemes e cost) :
      Derives 4 (sign :: lexemes) (.neg e) cost
  | binary {sign : Lexeme} {symbol : Symbol} {operator : Operator}
      {first second : List Lexeme} {left right : Expr} {leftCost rightCost : Nat}
      (hSign : sign.token = .symbol symbol)
      (hOperator : operator? symbol = some operator)
      (hLeft : Derives (leftPrecedence operator) first left leftCost)
      (hRight : Derives (rightPrecedence operator) second right rightCost) :
      Derives operator.precedence (first ++ sign :: second) (.binary operator left right)
        (max leftCost (rightCost + 1))
  | tighter {level : Nat} {lexemes : List Lexeme} {e : Expr} {cost : Nat}
      (hTighter : Derives (level + 1) lexemes e cost) :
      Derives level lexemes e cost

/-- A phrase of a level is one of every looser level. -/
theorem Derives.loosen {level tight : Nat} {lexemes : List Lexeme} {e : Expr} {cost : Nat}
    (h : Derives tight lexemes e cost) (hLevel : level ≤ tight) :
    Derives level lexemes e cost := by
  obtain ⟨more, rfl⟩ := Nat.exists_eq_add_of_le hLevel
  clear hLevel
  induction more with
  | zero => exact h
  | succ more ih => exact ih (.tighter h)

/-- Operators from this precedence on would be drawn into a phrase of the level. -/
def edge (level : Nat) : Nat := if level = 3 then 3 else min (level + 1) 4

theorem edge_le_succ (level : Nat) : edge level ≤ edge (level + 1) := by
  unfold edge
  split <;> split <;> omega

theorem precedence_lt_four (operator : Operator) : operator.precedence < 4 := by
  cases operator <;> decide

theorem edge_precedence (operator : Operator) :
    edge operator.precedence = rightPrecedence operator := by
  cases operator <;> rfl

theorem precedence_lt_edge (operator : Operator) :
    operator.precedence < edge (leftPrecedence operator) := by
  cases operator <;> decide

theorem precedence_le_left (operator : Operator) :
    operator.precedence ≤ leftPrecedence operator := by
  cases operator <;> decide

theorem rightPrecedence_le_edge (operator : Operator) :
    rightPrecedence operator ≤ edge (rightPrecedence operator) := by
  cases operator <;> decide

theorem leftPrecedence_le {operator : Operator} {level : Nat}
    (h : operator.precedence < edge level) : leftPrecedence operator ≤ level := by
  unfold edge at h
  cases operator <;>
    simp only [Operator.precedence, leftPrecedence, Operator.groupsRight] at h ⊢ <;>
    split at h <;> simp <;> omega

/-- The list begins with no operator that binds at least as tightly as a bound. -/
def Stops (bound : Nat) (back : List Lexeme) : Prop :=
  ∀ operator rest, frontOperator? back = some (operator, rest) → operator.precedence < bound

theorem Stops.mono {bound larger : Nat} {back : List Lexeme} (h : Stops bound back)
    (hBound : bound ≤ larger) : Stops larger back :=
  fun operator rest hFront => Nat.lt_of_lt_of_le (h operator rest hFront) hBound

theorem stops_four (back : List Lexeme) : Stops 4 back :=
  fun operator _ _ => precedence_lt_four operator

theorem frontOperator?_cons {sign : Lexeme} {symbol : Symbol} {operator : Operator}
    (hSign : sign.token = .symbol symbol) (hOperator : operator? symbol = some operator)
    (rest : List Lexeme) : frontOperator? (sign :: rest) = some (operator, rest) := by
  simp [frontOperator?, hSign, hOperator]

theorem frontOperator?_eq_some {lexemes rest : List Lexeme} {operator : Operator}
    (h : frontOperator? lexemes = some (operator, rest)) :
    ∃ sign symbol, lexemes = sign :: rest ∧ sign.token = .symbol symbol ∧
      operator? symbol = some operator := by
  cases lexemes with
  | nil => cases h
  | cons sign others =>
      simp only [frontOperator?] at h
      split at h
      · rename_i symbol hToken
        obtain ⟨found, hFound, hPair⟩ := Option.map_eq_some_iff.mp h
        cases hPair
        exact ⟨sign, symbol, rfl, hToken, hFound⟩
      · cases h

/-- A list that begins with something else than an operator stops every phrase. -/
theorem stops_cons {lexeme : Lexeme} {symbol : Symbol} (hToken : lexeme.token = .symbol symbol)
    (hOther : operator? symbol = none) (bound : Nat) (rest : List Lexeme) :
    Stops bound (lexeme :: rest) := by
  intro operator behind hFront
  simp [frontOperator?, hToken, hOther] at hFront

/-- An operator stops its own left operand. -/
theorem stops_operator {sign : Lexeme} {symbol : Symbol} {operator : Operator}
    (hSign : sign.token = .symbol symbol) (hOperator : operator? symbol = some operator)
    (rest : List Lexeme) : Stops (edge (leftPrecedence operator)) (sign :: rest) := by
  intro found behind hFound
  rw [frontOperator?_cons hSign hOperator rest] at hFound
  cases hFound
  exact precedence_lt_edge operator

variable {α β : Type}

/-! ### Parts of the reader -/

theorem opening?_ne_minus {token : Token} {opening : Opening} (h : opening? token = some opening) :
    token ≠ .symbol .minus := by
  intro hToken
  simp [hToken, opening?] at h

theorem opening?_function {token : Token} {f : MathFunction}
    (h : opening? token = some (.function f)) : token = .function f := by
  unfold opening? at h
  split at h <;> cases h
  rfl

theorem opening?_parenthesis {token : Token} (h : opening? token = some .parenthesis) :
    token = .symbol .leftParen := by
  unfold opening? at h
  split at h <;> first | rfl | cases h

theorem primary_leaf {inner : Reader Expr} {lexeme : Lexeme} {e : Expr}
    (h : opening? lexeme.token = some (.leaf e)) (rest : List Lexeme) :
    primary inner (lexeme :: rest) = .ok (e, rest) := by
  simp [primary, h]

theorem primary_parenthesis {inner : Reader Expr} {opening : Lexeme}
    (h : opening.token = .symbol .leftParen) (rest : List Lexeme) :
    primary inner (opening :: rest) = endedBy .rightParen inner rest := by
  simp only [primary, h, opening?]

theorem primary_call {inner : Reader Expr} {name opening : Lexeme} {f : MathFunction}
    (hName : name.token = .function f) (hOpening : opening.token = .symbol .leftParen)
    (rest : List Lexeme) :
    primary inner (name :: opening :: rest) =
      (endedBy .rightParen inner >>= fun e => bounded (.call f e)) rest := by
  simp only [primary, hName, opening?]
  rw [callOf, bind_of_ok (symbol_cons hOpening _)]

/-- Reads an expression that begins with a signed phrase, with a number of levels left. -/
def phrase (levels lowest : Nat) : Reader Expr := do
  let left ← unary (expressionWithin levels 0)
  climb (expressionWithin levels) lowest left

theorem expressionWithin_succ (levels lowest : Nat) :
    expressionWithin (levels + 1) lowest = phrase levels lowest := rfl

/-- Reads the rest of a signed phrase behind some minus signs. -/
def signed (levels seen : Nat) : Reader Expr := do
  let count ← minusSigns seen
  let e ← primary (expressionWithin levels 0)
  bounded (negated count e)

theorem phrase_of_signed {levels lowest : Nat} {lexemes rest : List Lexeme} {e : Expr}
    (h : signed levels 0 lexemes = .ok (e, rest)) :
    phrase levels lowest lexemes = climb (expressionWithin levels) lowest e rest :=
  bind_of_ok h

theorem height_negated (count : Nat) (e : Expr) :
    (negated count e).height = e.height + count := by
  induction count with
  | zero => rfl
  | succ count ih => simp only [negated, Expr.height, ih]; omega

theorem negated_neg (count : Nat) (e : Expr) :
    negated count (.neg e) = negated (count + 1) e := by
  induction count with
  | zero => rfl
  | succ count ih => rw [negated, ih]; rfl

/-- A lexeme that is no minus sign ends the run of signs. -/
theorem signed_cons {levels seen : Nat} {lexeme : Lexeme} (h : lexeme.token ≠ .symbol .minus)
    (rest : List Lexeme) :
    signed levels seen (lexeme :: rest) =
      (primary (expressionWithin levels 0) >>= fun e => bounded (negated seen e))
        (lexeme :: rest) := by
  rw [signed, bind_of_ok]
  simp [minusSigns, h]

/-- One more minus sign is counted as long as there may be more of them. -/
theorem signed_minus {levels seen : Nat} {sign : Lexeme} (hSign : sign.token = .symbol .minus)
    (hSeen : seen ≠ nestingLimit) (rest : List Lexeme) :
    signed levels seen (sign :: rest) = signed levels (seen + 1) rest := by
  simp only [signed, bind, StateT.bind, minusSigns, if_pos hSign, if_neg hSeen]

theorem bounded_of_le {e : Expr} (h : e.height ≤ nestingLimit) (rest : List Lexeme) :
    bounded e rest = .ok (e, rest) := by
  rw [bounded, if_neg (by omega)]

theorem bounded_of_lt {e : Expr} (h : nestingLimit < e.height) (rest : List Lexeme) :
    bounded e rest = .error (tooDeep rest) := by
  rw [bounded, if_pos h]

/-- Without an operator that binds tightly enough the left operand is all there is. -/
theorem climb_stops {operand : Nat → Reader Expr} {lowest : Nat} {back : List Lexeme}
    (h : Stops lowest back) (left : Expr) : climb operand lowest left back = .ok (left, back) := by
  rw [climb]
  cases hFront : frontOperator? back with
  | none => rfl
  | some found =>
      obtain ⟨operator, rest⟩ := found
      simp only
      rw [if_pos (h operator rest hFront)]

/-- One step of the climb over an operator and its right operand. -/
theorem climb_step {operand : Nat → Reader Expr} {lowest : Nat} {left right : Expr}
    {operator : Operator} {lexemes behind rest : List Lexeme}
    (hFront : frontOperator? lexemes = some (operator, behind))
    (hTight : lowest ≤ operator.precedence)
    (hRight : operand (rightPrecedence operator) behind = .ok (right, rest))
    (hHeight : (Expr.binary operator left right).height ≤ nestingLimit) :
    climb operand lowest left lexemes =
      climb operand lowest (.binary operator left right) rest := by
  rw [climb]
  simp only [hFront]
  rw [if_neg (by omega)]
  simp only [hRight]
  rw [dif_neg (by omega)]

theorem climb_operand_error {operand : Nat → Reader Expr} {lowest : Nat} {left : Expr}
    {operator : Operator} {lexemes behind : List Lexeme} {mismatch : Mismatch}
    (hFront : frontOperator? lexemes = some (operator, behind))
    (hTight : lowest ≤ operator.precedence)
    (hRight : operand (rightPrecedence operator) behind = .error mismatch) :
    climb operand lowest left lexemes = .error mismatch := by
  rw [climb]
  simp only [hFront]
  rw [if_neg (by omega)]
  simp only [hRight]

theorem climb_too_high {operand : Nat → Reader Expr} {lowest : Nat} {left right : Expr}
    {operator : Operator} {lexemes behind rest : List Lexeme}
    (hFront : frontOperator? lexemes = some (operator, behind))
    (hTight : lowest ≤ operator.precedence)
    (hRight : operand (rightPrecedence operator) behind = .ok (right, rest))
    (hHeight : nestingLimit < (Expr.binary operator left right).height) :
    climb operand lowest left lexemes = .error (tooDeep rest) := by
  rw [climb]
  simp only [hFront]
  rw [if_neg (by omega)]
  simp only [hRight]
  rw [dif_pos hHeight]

/-- A climb in steps, over an operator that binds tightly enough. -/
theorem climb_eq {operand : Nat → Reader Expr} {lowest : Nat} {left : Expr}
    {lexemes behind : List Lexeme} {operator : Operator}
    (hFront : frontOperator? lexemes = some (operator, behind))
    (hTight : lowest ≤ operator.precedence) :
    climb operand lowest left lexemes = (do
      let right ← operand (rightPrecedence operator)
      let e ← bounded (.binary operator left right)
      climb operand lowest e : Reader Expr) behind := by
  cases hRight : operand (rightPrecedence operator) behind with
  | error mismatch => rw [climb_operand_error hFront hTight hRight, bind_of_error hRight]
  | ok found =>
      obtain ⟨right, rest⟩ := found
      rw [bind_of_ok hRight]
      by_cases hHigh : nestingLimit < (Expr.binary operator left right).height
      · rw [climb_too_high hFront hTight hRight hHigh, bind_of_error (bounded_of_lt hHigh rest)]
      · have hHeight := Nat.le_of_not_lt hHigh
        rw [climb_step hFront hTight hRight hHeight, bind_of_ok (bounded_of_le hHeight rest)]

/-! ### What is derived is read -/

/-- The two ways in which a phrase is read: as the end of a signed phrase, if its level is high
enough, and as the left end of an expression. -/
structure Reads (level : Nat) (lexemes : List Lexeme) (e : Expr) (levels : Nat) : Prop where
  signed : 4 ≤ level → ∀ seen back, e.height + seen ≤ nestingLimit →
    signed levels seen (lexemes ++ back) = .ok (negated seen e, back)
  phrase : ∀ lowest back, lowest ≤ level → e.height ≤ nestingLimit → Stops (edge level) back →
    phrase levels lowest (lexemes ++ back) = climb (expressionWithin levels) lowest e back

/-- A signed phrase is the left end of an expression. -/
theorem Reads.of_signed {level levels : Nat} {lexemes : List Lexeme} {e : Expr}
    (h : ∀ seen back, e.height + seen ≤ nestingLimit →
      Grammar.signed levels seen (lexemes ++ back) = .ok (negated seen e, back)) :
    Reads level lexemes e levels := by
  refine ⟨fun _ => h, fun lowest back _ hHeight _ => ?_⟩
  exact phrase_of_signed (h 0 back hHeight)

/-- The whole of an expression is read in front of what stops it. -/
theorem Reads.expressionWithin {level levels : Nat} {lexemes : List Lexeme} {e : Expr}
    (h : Reads level lexemes e levels) (hHeight : e.height ≤ nestingLimit) {back : List Lexeme}
    (hEdge : Stops (edge level) back) (hStop : Stops level back) :
    expressionWithin (levels + 1) level (lexemes ++ back) = .ok (e, back) := by
  rw [expressionWithin_succ, h.phrase level back (Nat.le_refl _) hHeight hEdge, climb_stops hStop]

/-- What is derived between parentheses is read there. -/
theorem Reads.endedBy {levels : Nat} {inner : List Lexeme} {e : Expr}
    (h : Reads 0 inner e levels) (hHeight : e.height ≤ nestingLimit) {closing : Lexeme}
    (hClosing : closing.token = .symbol .rightParen) (back : List Lexeme) :
    endedBy .rightParen (Grammar.expressionWithin (levels + 1) 0)
      ((inner ++ [closing]) ++ back) = .ok (e, back) := by
  have hStop (bound : Nat) : Stops bound (closing :: back) := stops_cons hClosing rfl bound back
  rw [List.append_assoc, List.singleton_append]
  exact endedBy_of_ok hClosing (h.expressionWithin hHeight (hStop _) (hStop _))

/-- **Completeness.**  A phrase whose nesting does not exceed the levels that are left is read,
whatever stands behind it. -/
theorem Derives.reads {level : Nat} {lexemes : List Lexeme} {e : Expr} {cost levels : Nat}
    (h : Derives level lexemes e cost) (hCost : cost ≤ levels) :
    Reads level lexemes e levels := by
  induction h generalizing levels with
  | @leaf lexeme e hLeaf =>
      refine .of_signed fun seen back hHeight => ?_
      rw [List.singleton_append, signed_cons (opening?_ne_minus hLeaf),
        bind_of_ok (primary_leaf hLeaf back)]
      exact bounded_of_le (by rw [height_negated]; exact hHeight) back
  | @parenthesis opening closing inner e cost hOpening hInner hClosing ih =>
      refine .of_signed fun seen back hHeight => ?_
      obtain ⟨levels, rfl⟩ := Nat.exists_eq_add_of_le' (show 1 ≤ levels by omega)
      have hMinus : opening.token ≠ .symbol .minus := by simp [hOpening]
      have hPrimary : primary (expressionWithin (levels + 1) 0)
          (opening :: ((inner ++ [closing]) ++ back)) = .ok (e, back) := by
        rw [primary_parenthesis hOpening]
        exact (ih (by omega)).endedBy (by omega) hClosing back
      rw [List.cons_append, signed_cons hMinus, bind_of_ok hPrimary]
      exact bounded_of_le (by rw [height_negated]; exact hHeight) back
  | @call name opening closing f inner e cost hName hOpening hInner hClosing ih =>
      refine .of_signed fun seen back hHeight => ?_
      obtain ⟨levels, rfl⟩ := Nat.exists_eq_add_of_le' (show 1 ≤ levels by omega)
      simp only [Expr.height] at hHeight
      have hMinus : name.token ≠ .symbol .minus := by simp [hName]
      have hPrimary : primary (expressionWithin (levels + 1) 0)
          (name :: opening :: ((inner ++ [closing]) ++ back)) = .ok (.call f e, back) := by
        rw [primary_call hName hOpening,
          bind_of_ok ((ih (by omega)).endedBy (by omega) hClosing back)]
        exact bounded_of_le (by simp only [Expr.height]; omega) back
      rw [List.cons_append, List.cons_append, signed_cons hMinus, bind_of_ok hPrimary]
      exact bounded_of_le (by rw [height_negated]; simp only [Expr.height]; omega) back
  | @minus sign lexemes e cost hSign hOperand ih =>
      refine .of_signed fun seen back hHeight => ?_
      simp only [Expr.height] at hHeight
      rw [List.cons_append, signed_minus hSign (by omega), negated_neg]
      exact (ih hCost).signed (Nat.le_refl _) (seen + 1) back (by omega)
  | @binary sign symbol operator first second left right leftCost rightCost hSign hOperator hLeft
      hRight ihLeft ihRight =>
      refine ⟨fun hLevel => absurd (precedence_lt_four operator) (by omega), ?_⟩
      intro lowest back hLowest hHeight hStop
      have hHeights := hHeight
      simp only [Expr.height] at hHeights
      obtain ⟨levels, rfl⟩ := Nat.exists_eq_add_of_le' (show 1 ≤ levels by omega)
      have hFront := frontOperator?_cons hSign hOperator (second ++ back)
      -- the left operand is followed by the operator, which does not go on it
      have hOperatorStops := stops_operator hSign hOperator (second ++ back)
      have hLeftReads := @ihLeft (levels + 1) (by omega)
      have hRightReads := @ihRight levels (by omega)
      have hLeftRead := hLeftReads.phrase lowest (sign :: (second ++ back))
        (Nat.le_trans hLowest (precedence_le_left operator)) (by omega) hOperatorStops
      -- the right operand ends where the whole phrase ends
      have hRightStops : Stops (rightPrecedence operator) back := by
        rwa [← edge_precedence operator]
      have hRightRead := hRightReads.expressionWithin (by omega)
        (hRightStops.mono (rightPrecedence_le_edge operator)) hRightStops
      rw [List.append_assoc, List.cons_append, hLeftRead]
      exact climb_step hFront hLowest hRightRead hHeight
  | @tighter level lexemes e cost hTighter ih =>
      obtain ⟨hSigned, hPhrase⟩ := ih hCost
      refine ⟨fun hLevel => hSigned (by omega), fun lowest back hLowest hHeight hStop => ?_⟩
      exact hPhrase lowest back (by omega) hHeight (hStop.mono (edge_le_succ level))

/-! ### What nests too deeply is refused -/

/-- The reader refuses a list for the nesting of an expression. -/
def RefusesNesting (reader : Reader α) (lexemes : List Lexeme) : Prop :=
  ∃ rest, reader lexemes = .error (tooDeep rest)

theorem RefusesNesting.bind {first : Reader α} {lexemes : List Lexeme}
    (h : RefusesNesting first lexemes) (next : α → Reader β) :
    RefusesNesting (first >>= next) lexemes := by
  obtain ⟨rest, hRest⟩ := h
  exact ⟨rest, bind_of_error hRest⟩

theorem RefusesNesting.of_ok {first : Reader α} {lexemes rest : List Lexeme} {value : α}
    (h : first lexemes = .ok (value, rest)) {next : α → Reader β}
    (hNext : RefusesNesting (next value) rest) : RefusesNesting (first >>= next) lexemes := by
  obtain ⟨behind, hBehind⟩ := hNext
  exact ⟨behind, by rw [bind_of_ok h, hBehind]⟩

theorem bounded_refuses {e : Expr} (h : nestingLimit < e.height) (rest : List Lexeme) :
    RefusesNesting (bounded e) rest :=
  ⟨rest, bounded_of_lt h rest⟩

/-- The two ways in which a phrase that nests `cost` levels is refused. -/
structure Refuses (level : Nat) (lexemes : List Lexeme) (e : Expr) (cost levels : Nat) :
    Prop where
  signed : 4 ≤ level → ∀ seen back, seen ≤ nestingLimit →
    levels < cost ∨ nestingLimit < e.height + seen →
    RefusesNesting (signed levels seen) (lexemes ++ back)
  phrase : ∀ lowest back, lowest ≤ level → levels < cost ∨ nestingLimit < e.height →
    Stops (edge level) back → RefusesNesting (phrase levels lowest) (lexemes ++ back)

theorem Refuses.of_signed {level levels cost : Nat} {lexemes : List Lexeme} {e : Expr}
    (h : ∀ seen back, seen ≤ nestingLimit → levels < cost ∨ nestingLimit < e.height + seen →
      RefusesNesting (Grammar.signed levels seen) (lexemes ++ back)) :
    Refuses level lexemes e cost levels := by
  refine ⟨fun _ => h, fun lowest back _ hBeyond _ => ?_⟩
  exact (h 0 back (Nat.zero_le _) hBeyond).bind _

/-- An operand within an operand needs a level of its own. -/
theorem Refuses.expressionWithin {level levels cost : Nat} {lexemes : List Lexeme} {e : Expr}
    (h : ∀ levels, Refuses level lexemes e cost levels)
    (hBeyond : levels < cost + 1 ∨ nestingLimit < e.height) {back : List Lexeme}
    (hEdge : Stops (edge level) back) :
    RefusesNesting (expressionWithin levels level) (lexemes ++ back) := by
  cases levels with
  | zero => exact ⟨lexemes ++ back, rfl⟩
  | succ levels => exact (h levels).phrase level back (Nat.le_refl _) (by omega) hEdge

/-- What stands between parentheses is refused there, if it nests too deeply. -/
theorem Refuses.endedBy {levels cost : Nat} {inner : List Lexeme} {e : Expr}
    (h : ∀ levels, Refuses 0 inner e cost levels)
    (hBeyond : levels < cost + 1 ∨ nestingLimit < e.height) {closing : Lexeme}
    (hClosing : closing.token = .symbol .rightParen) (back : List Lexeme) :
    RefusesNesting (Grammar.endedBy .rightParen (Grammar.expressionWithin levels 0))
      ((inner ++ [closing]) ++ back) := by
  rw [List.append_assoc, List.singleton_append]
  exact (Refuses.expressionWithin h hBeyond (stops_cons hClosing rfl _ back)).bind _

/-- **Nesting.**  A phrase is refused for its nesting if it nests more levels than are left, or
if its tree is too high. -/
theorem Derives.refused {level : Nat} {lexemes : List Lexeme} {e : Expr} {cost : Nat}
    (h : Derives level lexemes e cost) (levels : Nat) : Refuses level lexemes e cost levels := by
  induction h generalizing levels with
  | @leaf lexeme e hLeaf =>
      refine .of_signed fun seen back hSeen hBeyond => ?_
      rw [List.singleton_append, RefusesNesting, signed_cons (opening?_ne_minus hLeaf)]
      refine RefusesNesting.of_ok (primary_leaf hLeaf back) (bounded_refuses ?_ back)
      rw [height_negated]
      omega
  | @parenthesis opening closing inner e cost hOpening hInner hClosing ih =>
      refine .of_signed fun seen back hSeen hBeyond => ?_
      have hMinus : opening.token ≠ .symbol .minus := by simp [hOpening]
      have hPrimary := @primary_parenthesis (expressionWithin levels 0) _ hOpening
        ((inner ++ [closing]) ++ back)
      rw [List.cons_append, RefusesNesting, signed_cons hMinus]
      by_cases hInside : levels < cost + 1 ∨ nestingLimit < e.height
      · obtain ⟨rest, hRest⟩ := Refuses.endedBy ih hInside hClosing back
        exact ⟨rest, bind_of_error (by rw [hPrimary, hRest])⟩
      · -- the inner expression is read, and the minus signs in front are too many
        obtain ⟨levels, rfl⟩ := Nat.exists_eq_add_of_le' (show 1 ≤ levels by omega)
        have hRead := (hInner.reads (show cost ≤ levels by omega)).endedBy (by omega) hClosing back
        refine RefusesNesting.of_ok (by rw [hPrimary, hRead]) (bounded_refuses ?_ back)
        rw [height_negated]
        omega
  | @call name opening closing f inner e cost hName hOpening hInner hClosing ih =>
      refine .of_signed fun seen back hSeen hBeyond => ?_
      simp only [Expr.height] at hBeyond
      have hMinus : name.token ≠ .symbol .minus := by simp [hName]
      have hPrimary := @primary_call (expressionWithin levels 0) _ _ _ hName hOpening
        ((inner ++ [closing]) ++ back)
      rw [List.cons_append, List.cons_append, RefusesNesting, signed_cons hMinus]
      by_cases hInside : levels < cost + 1 ∨ nestingLimit < e.height
      · obtain ⟨rest, hRest⟩ := Refuses.endedBy ih hInside hClosing back
        exact ⟨rest, bind_of_error (by rw [hPrimary, bind_of_error hRest])⟩
      · -- the argument is read, and the call or the signs in front of it are too many
        obtain ⟨levels, rfl⟩ := Nat.exists_eq_add_of_le' (show 1 ≤ levels by omega)
        have hRead := (hInner.reads (show cost ≤ levels by omega)).endedBy (by omega) hClosing back
        rw [bind_of_ok hRead] at hPrimary
        by_cases hHigh : nestingLimit < (Expr.call f e).height
        · exact ⟨back, bind_of_error (by rw [hPrimary, bounded_of_lt hHigh])⟩
        · rw [bounded_of_le (by omega)] at hPrimary
          refine RefusesNesting.of_ok hPrimary (bounded_refuses ?_ back)
          rw [height_negated, Expr.height]
          omega
  | @minus sign lexemes e cost hSign hOperand ih =>
      refine .of_signed fun seen back hSeen hBeyond => ?_
      simp only [Expr.height] at hBeyond
      rw [List.cons_append]
      by_cases hLast : seen = nestingLimit
      · -- the sign itself is one too many
        refine ⟨sign :: (lexemes ++ back), bind_of_error ?_⟩
        rw [minusSigns, if_pos hSign, if_pos hLast]
      · rw [RefusesNesting, signed_minus hSign hLast]
        exact (ih levels).signed (Nat.le_refl _) (seen + 1) back (by omega) (by omega)
  | @binary sign symbol operator first second left right leftCost rightCost hSign hOperator hLeft
      hRight ihLeft ihRight =>
      refine ⟨fun hLevel => absurd (precedence_lt_four operator) (by omega), ?_⟩
      intro lowest back hLowest hBeyond hStop
      have hFront := frontOperator?_cons hSign hOperator (second ++ back)
      have hOperatorStops := stops_operator hSign hOperator (second ++ back)
      have hLevel := Nat.le_trans hLowest (precedence_le_left operator)
      rw [List.append_assoc, List.cons_append]
      by_cases hLeftBeyond : levels < leftCost ∨ nestingLimit < left.height
      · exact (ihLeft levels).phrase lowest _ hLevel hLeftBeyond hOperatorStops
      · -- the left operand is read, so that the right one decides
        have hLeftRead := (hLeft.reads (show leftCost ≤ levels by omega)).phrase lowest
          (sign :: (second ++ back)) hLevel (by omega) hOperatorStops
        have hRightStops : Stops (rightPrecedence operator) back := by
          rwa [← edge_precedence operator]
        have hRightEdge := hRightStops.mono (rightPrecedence_le_edge operator)
        rw [RefusesNesting, hLeftRead]
        by_cases hRightBeyond : levels < rightCost + 1 ∨ nestingLimit < right.height
        · obtain ⟨rest, hRest⟩ := Refuses.expressionWithin ihRight hRightBeyond hRightEdge
          exact ⟨rest, climb_operand_error hFront hLowest hRest⟩
        · -- both are read, and it is their tree that is too high
          obtain ⟨levels, rfl⟩ := Nat.exists_eq_add_of_le' (show 1 ≤ levels by omega)
          have hRightRead := (hRight.reads (show rightCost ≤ levels by omega)).expressionWithin
            (by omega) hRightEdge hRightStops
          exact ⟨back, climb_too_high hFront hLowest hRightRead (by omega)⟩
  | @tighter level lexemes e cost hTighter ih =>
      obtain ⟨hSigned, hPhrase⟩ := ih levels
      refine ⟨fun hLevel => hSigned (by omega), fun lowest back hLowest hBeyond hStop => ?_⟩
      exact hPhrase lowest back (by omega) hBeyond (hStop.mono (edge_le_succ level))

/-! ### What is read is derived -/

/-- What a successful reading shows: the lexemes that were taken are a phrase of the level
within the limits, and no operator that could go on it comes next. -/
structure Taken (level levels : Nat) (lexemes : List Lexeme) (e : Expr) (rest : List Lexeme) :
    Prop where
  derives : ∃ front cost, lexemes = front ++ rest ∧ Derives level front e cost ∧ cost < levels
  height : e.height ≤ nestingLimit
  stops : Stops level rest

/-- Minus signs that were counted. -/
theorem minusSigns_eq_ok {seen count : Nat} {lexemes rest : List Lexeme}
    (h : minusSigns seen lexemes = .ok (count, rest)) :
    ∃ signs, lexemes = signs ++ rest ∧ count = seen + signs.length ∧
      ∀ sign ∈ signs, sign.token = .symbol .minus := by
  induction lexemes generalizing seen with
  | nil =>
      cases h
      exact ⟨[], rfl, rfl, by simp⟩
  | cons lexeme others ih =>
      rw [minusSigns] at h
      by_cases hMinus : lexeme.token = .symbol .minus
      · rw [if_pos hMinus] at h
        split at h
        · cases h
        · obtain ⟨signs, rfl, rfl, hSigns⟩ := ih h
          refine ⟨lexeme :: signs, rfl, ?_, ?_⟩
          · rw [List.length_cons]
            omega
          · intro sign hSign
            rw [List.mem_cons] at hSign
            rcases hSign with rfl | hSign
            · exact hMinus
            · exact hSigns sign hSign
      · rw [if_neg hMinus] at h
        cases h
        exact ⟨[], rfl, rfl, by simp⟩

/-- Minus signs in front of a signed phrase belong to it. -/
theorem Derives.minusSigns {signs lexemes : List Lexeme} {e : Expr} {cost : Nat}
    (hSigns : ∀ sign ∈ signs, sign.token = .symbol .minus) (h : Derives 4 lexemes e cost) :
    Derives 4 (signs ++ lexemes) (negated signs.length e) cost := by
  induction signs with
  | nil => exact h
  | cons sign signs ih =>
      exact .minus (hSigns sign (List.mem_cons_self ..))
        (ih fun other hOther => hSigns other (List.mem_cons_of_mem _ hOther))

/-- What was read between parentheses. -/
theorem endedBy_taken {levels : Nat} {lexemes rest : List Lexeme} {e : Expr}
    (hInner : ∀ lexemes e rest, expressionWithin levels 0 lexemes = .ok (e, rest) →
      Taken 0 levels lexemes e rest)
    (h : endedBy .rightParen (expressionWithin levels 0) lexemes = .ok (e, rest)) :
    ∃ inner closing cost, lexemes = (inner ++ [closing]) ++ rest ∧
      closing.token = .symbol .rightParen ∧ Derives 0 inner e cost ∧ cost < levels := by
  obtain ⟨closing, hClosing, hRead⟩ := endedBy_eq_ok h
  obtain ⟨⟨inner, cost, rfl, hDerives, hCost⟩, -, -⟩ := hInner _ _ _ hRead
  exact ⟨inner, closing, cost, by simp, hClosing, hDerives, hCost⟩

/-- What was read as a primary phrase. -/
theorem primary_taken {levels : Nat} {lexemes rest : List Lexeme} {e : Expr}
    (hInner : ∀ lexemes e rest, expressionWithin levels 0 lexemes = .ok (e, rest) →
      Taken 0 levels lexemes e rest)
    (h : primary (expressionWithin levels 0) lexemes = .ok (e, rest)) :
    ∃ front cost, lexemes = front ++ rest ∧ Derives 5 front e cost ∧ cost ≤ levels := by
  cases lexemes with
  | nil => cases h
  | cons lexeme others =>
      rw [primary] at h
      cases hOpening : opening? lexeme.token with
      | none =>
          rw [hOpening] at h
          cases h
      | some opening =>
          rw [hOpening] at h
          cases opening with
          | leaf found =>
              cases h
              exact ⟨[lexeme], 0, rfl, .leaf hOpening, Nat.zero_le _⟩
          | parenthesis =>
              have hToken := opening?_parenthesis hOpening
              obtain ⟨inner, closing, cost, rfl, hClosing, hDerives, hCost⟩ :=
                endedBy_taken hInner h
              exact ⟨lexeme :: (inner ++ [closing]), cost + 1, rfl,
                .parenthesis hToken hDerives hClosing, hCost⟩
          | function f =>
              have hToken := opening?_function hOpening
              change callOf (expressionWithin levels 0) f others = .ok (e, rest) at h
              rw [callOf, bind_eq_ok] at h
              obtain ⟨_, behind, hSymbol, h⟩ := h
              obtain ⟨left, rfl, hLeft⟩ := symbol_eq_ok hSymbol
              rw [bind_eq_ok] at h
              obtain ⟨argument, after, hArgument, h⟩ := h
              obtain ⟨inner, closing, cost, rfl, hClosing, hDerives, hCost⟩ :=
                endedBy_taken hInner hArgument
              rw [bounded_eq_ok] at h
              obtain ⟨-, rfl, rfl⟩ := h
              exact ⟨lexeme :: left :: (inner ++ [closing]), cost + 1, rfl,
                .call hToken hLeft hDerives hClosing, hCost⟩

/-- What was read as a signed phrase. -/
theorem unary_taken {levels : Nat} {lexemes rest : List Lexeme} {e : Expr}
    (hInner : ∀ lexemes e rest, expressionWithin levels 0 lexemes = .ok (e, rest) →
      Taken 0 levels lexemes e rest)
    (h : unary (expressionWithin levels 0) lexemes = .ok (e, rest)) :
    ∃ front cost, lexemes = front ++ rest ∧ Derives 4 front e cost ∧ cost ≤ levels ∧
      e.height ≤ nestingLimit := by
  rw [unary, bind_eq_ok] at h
  obtain ⟨count, after, hSigns, h⟩ := h
  rw [bind_eq_ok] at h
  obtain ⟨found, behind, hPrimary, hBounded⟩ := h
  rw [bounded_eq_ok] at hBounded
  obtain ⟨hHeight, rfl, rfl⟩ := hBounded
  obtain ⟨signs, rfl, rfl, hMinus⟩ := minusSigns_eq_ok hSigns
  obtain ⟨front, cost, rfl, hFront, hCost⟩ := primary_taken hInner hPrimary
  rw [Nat.zero_add] at hHeight ⊢
  exact ⟨signs ++ front, cost, by simp, Derives.minusSigns hMinus (.tighter hFront), hCost, hHeight⟩

/-- What was read behind a left operand. -/
theorem climb_taken {levels lowest : Nat} {left e : Expr} {lexemes rest front : List Lexeme}
    {level cost : Nat}
    (hOperand : ∀ lowest lexemes e rest, lowest ≤ 4 →
      expressionWithin levels lowest lexemes = .ok (e, rest) → Taken lowest levels lexemes e rest)
    (hLeft : Derives level front left cost) (hCost : cost ≤ levels)
    (hHeight : left.height ≤ nestingLimit) (hLevel : lowest ≤ level)
    (hEdge : Stops (edge level) lexemes)
    (h : climb (expressionWithin levels) lowest left lexemes = .ok (e, rest)) :
    ∃ more cost, lexemes = more ++ rest ∧ Derives lowest (front ++ more) e cost ∧
      cost ≤ levels ∧ e.height ≤ nestingLimit ∧ Stops lowest rest := by
  fun_induction climb (expressionWithin levels) lowest left lexemes
    generalizing front level cost with
  | case1 left lexemes hFront =>
      cases h
      refine ⟨[], cost, rfl, ?_, hCost, hHeight, ?_⟩
      · rw [List.append_nil]
        exact hLeft.loosen hLevel
      · intro operator behind hFound
        rw [hFront] at hFound
        cases hFound
  | case2 left lexemes operator behind hFront hLoose =>
      cases h
      refine ⟨[], cost, rfl, ?_, hCost, hHeight, ?_⟩
      · rw [List.append_nil]
        exact hLeft.loosen hLevel
      · intro found behind hFound
        rw [hFront] at hFound
        cases hFound
        exact hLoose
  | case3 => cases h
  | case4 => cases h
  | case5 left lexemes operator behind hFront hTight right after hRight hHigh ih =>
      have hBound : rightPrecedence operator ≤ 4 := by cases operator <;> decide
      obtain ⟨⟨second, rightCost, rfl, hSecond, hRightCost⟩, -, hStops⟩ :=
        hOperand _ _ _ _ hBound hRight
      obtain ⟨sign, symbol, rfl, hSign, hOperator⟩ := frontOperator?_eq_some hFront
      -- the operand so far is the left one of this operator, and the climb goes on with both
      have hBinary : Derives operator.precedence (front ++ sign :: second)
          (.binary operator left right) (max cost (rightCost + 1)) :=
        .binary hSign hOperator (hLeft.loosen (leftPrecedence_le (hEdge _ _ hFront))) hSecond
      have hEdge' : Stops (edge operator.precedence) after := by
        rwa [edge_precedence operator]
      obtain ⟨more, total, rfl, hDerives, hTotal, hFinal, hLast⟩ :=
        ih hBinary (by omega) (by omega) (by omega) hEdge' h
      exact ⟨sign :: (second ++ more), total, by simp, by simpa using hDerives, hTotal, hFinal,
        hLast⟩

/-- **Soundness.**  What is read as an expression is derived within the limits. -/
theorem expressionWithin_sound {levels lowest : Nat} {lexemes rest : List Lexeme} {e : Expr}
    (hLowest : lowest ≤ 4) (h : expressionWithin levels lowest lexemes = .ok (e, rest)) :
    Taken lowest levels lexemes e rest := by
  induction levels generalizing lowest lexemes rest e with
  | zero => cases h
  | succ levels ih =>
      rw [expressionWithin_succ, phrase, bind_eq_ok] at h
      obtain ⟨left, behind, hUnary, hClimb⟩ := h
      -- the signs and the primary phrase are the first operand of the climb
      obtain ⟨front, cost, rfl, hLeft, hCost, hHeight⟩ :=
        unary_taken (fun _ _ _ hRead => ih (by omega) hRead) hUnary
      obtain ⟨more, total, rfl, hDerives, hTotal, hFinal, hLast⟩ :=
        climb_taken (fun _ _ _ _ hBound hRead => ih hBound hRead) hLeft hCost hHeight hLowest
          (stops_four behind) hClimb
      exact ⟨⟨front ++ more, total, by simp, hDerives, by omega⟩, hFinal, hLast⟩

/-! ### Whole expressions -/

/-- The lexemes are an expression within the limits. -/
def IsExpression (lexemes : List Lexeme) (e : Expr) : Prop :=
  ∃ cost, Derives 0 lexemes e cost ∧ cost < nestingLimit ∧ e.height ≤ nestingLimit

theorem expression_sound : Sound expression IsExpression := by
  intro lexemes e rest h
  obtain ⟨⟨front, cost, rfl, hDerives, hCost⟩, hHeight, -⟩ :=
    expressionWithin_sound (by decide) h
  exact ⟨front, rfl, cost, hDerives, hCost, hHeight⟩

theorem expression_completes :
    Completes expression IsExpression fun sign => operator? sign = none := by
  rintro lexemes e ⟨cost, hDerives, hCost, hHeight⟩ next rest sign hNext hSign
  have hStops (bound : Nat) := stops_cons hNext hSign bound rest
  exact (hDerives.reads (Nat.le_sub_one_of_lt hCost)).expressionWithin hHeight (hStops _) (hStops _)

/-- An expression beyond the limits is refused, whatever symbol stands behind it. -/
theorem expression_refuses {lexemes : List Lexeme} {e : Expr} {cost : Nat}
    (h : Derives 0 lexemes e cost) (hBeyond : nestingLimit ≤ cost ∨ nestingLimit < e.height)
    {next : Lexeme} {sign : Symbol} (hNext : next.token = .symbol sign)
    (hSign : operator? sign = none) (rest : List Lexeme) :
    RefusesNesting expression (lexemes ++ next :: rest) :=
  Refuses.expressionWithin h.refused (by omega) (stops_cons hNext hSign _ rest)

/-! ### The tokens of an expression -/

/-- Can the token be part of an expression? -/
def inExpressions : Token → Bool
  | .keyword word => word = .pi
  | .symbol sign => sign = .leftParen ∨ sign = .rightParen ∨ (operator? sign).isSome
  | .string _ | .endOfInput => false
  | .function _ | .real _ | .integer _ | .identifier _ => true

theorem inExpressions_leaf {token : Token} {e : Expr} (h : opening? token = some (.leaf e)) :
    inExpressions token = true := by
  cases token with
  | keyword word => cases word <;> first | rfl | cases h
  | symbol sign => cases sign <;> first | rfl | cases h
  | string content => cases h
  | endOfInput => cases h
  | _ => rfl

theorem inExpressions_operator {sign : Symbol} {operator : Operator}
    (h : operator? sign = some operator) : inExpressions (.symbol sign) = true := by
  simp [inExpressions, h]

/-- An expression has only tokens of expressions. -/
theorem Derives.tokens {level cost : Nat} {lexemes : List Lexeme} {e : Expr}
    (h : Derives level lexemes e cost) :
    ∀ lexeme ∈ lexemes, inExpressions lexeme.token = true := by
  induction h with
  | leaf hLeaf =>
      rw [List.forall_mem_singleton]
      exact inExpressions_leaf hLeaf
  | parenthesis hOpening hInner hClosing ih =>
      rw [List.forall_mem_cons, List.forall_mem_append, List.forall_mem_singleton, hOpening,
        hClosing]
      exact ⟨rfl, ih, rfl⟩
  | call hName hOpening hInner hClosing ih =>
      rw [List.forall_mem_cons, List.forall_mem_cons, List.forall_mem_append,
        List.forall_mem_singleton, hName, hOpening, hClosing]
      exact ⟨rfl, rfl, ih, rfl⟩
  | minus hSign hOperand ih =>
      rw [List.forall_mem_cons, hSign]
      exact ⟨rfl, ih⟩
  | binary hSign hOperator hLeft hRight ihLeft ihRight =>
      rw [List.forall_mem_append, List.forall_mem_cons, hSign]
      exact ⟨ihLeft, inExpressions_operator hOperator, ihRight⟩
  | tighter hTighter ih => exact ih

end Grammar
end QuantumCircuit
